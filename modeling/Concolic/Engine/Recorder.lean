import Concolic.Engine.Assumption

/-! # Engines

A recorder is an engine that logs the requests it gets. It may hold replays, contents found earlier
for named buffers: a buffer tracked under such a name takes the replayed content if the lengths
agree. An idle engine stands for a run without instrumentation: it is never active and drops every
request. -/

namespace Concolic

/-- The bound on the number of elements of structures where no other is configured. -/
def defaultBound : Int64 := 1000

/-- A request to the engine. -/
inductive Event where
  /-- A buffer became symbolic under a name, with this content. -/
  | tracked (name : String) (bytes : List UInt8)
  /-- An assumption was added. -/
  | assumed (assumption : Assumption)
  /-- An atomic region began. -/
  | atomicBegin
  /-- An atomic region ended. -/
  | atomicEnd
deriving DecidableEq, Repr

namespace Event

/-- The event in words. -/
def text : Event → String
  | tracked name bytes => s!"track `{name}` ({bytes.length} bytes)"
  | assumed a => s!"assume {a.text}"
  | atomicBegin => "begin atomic"
  | atomicEnd => "end atomic"

end Event

/-- What a session or its engine warns of. -/
inductive Warning where
  /-- A bound that is not positive was passed over. -/
  | nonPositiveBound (bound : Int64)
  /-- A replay does not have the length of the buffer. -/
  | replayIgnored (name : String) (replayBytes bufferBytes : Nat)
  /-- An assumption is false of the concrete value. -/
  | assumptionFails (assumption : Assumption)
  /-- A structure has more elements than its bound allows. -/
  | beyondBound (name : String) (count bound : Int64)
deriving DecidableEq, Repr

namespace Warning

/-- The warning in words. -/
def message : Warning → String
  | nonPositiveBound bound => s!"Ignoring the non-positive max symbolic size {bound.toInt}"
  | replayIgnored name replayBytes bufferBytes =>
    s!"Ignoring the replay for `{name}` with {replayBytes} bytes for a buffer of {bufferBytes} bytes"
  | assumptionFails a => s!"Assumption does not hold concretely: {a.text}"
  | beyondBound name count bound =>
    s!"The element count of `{name}` ({count.toInt}) is beyond the symbolic size limit {bound.toInt}"

end Warning

/-- An engine that logs its requests. -/
structure Recorder where
  /-- Whether the program runs under the engine. -/
  active : Bool := true
  /-- The bound on the number of elements that the engine is configured with. -/
  maxSize : Int64 := defaultBound
  /-- Contents to replay, the latest given first. -/
  replays : List (String × List UInt8) := []
  /-- The requests so far, in order. -/
  log : List Event := []
  /-- The warnings so far, in order. -/
  warnings : List Warning := []
deriving DecidableEq, Repr

namespace Recorder

/-- `r` with the replay `bytes` for `name`, in place of an earlier one. -/
def withReplay (r : Recorder) (name : String) (bytes : List UInt8) : Recorder :=
  { r with replays := (name, bytes) :: r.replays }

/-- `r` with `e` at the end of its log. -/
def record (r : Recorder) (e : Event) : Recorder := { r with log := r.log ++ [e] }

/-- `r` with one more warning `w`. -/
def warn (r : Recorder) (w : Warning) : Recorder := { r with warnings := r.warnings ++ [w] }

/-- Makes `bytes` symbolic under `name`, and gives the content from then on: the replay for `name`
if it has as many bytes. -/
def track (r : Recorder) (name : String) (bytes : List UInt8) : List UInt8 × Recorder :=
  match r.replays.lookup name with
  | none => (bytes, r.record (.tracked name bytes))
  | some replay =>
    if replay.length = bytes.length then (replay, r.record (.tracked name replay))
    else
      (bytes, (r.warn (.replayIgnored name replay.length bytes.length)).record
        (.tracked name bytes))

/-- Adds the assumption `a`, with a warning if it does not hold. -/
def assume (r : Recorder) (a : Assumption) : Recorder :=
  (if a.holds then r else r.warn (.assumptionFails a)).record (.assumed a)

/-- Adds the assumptions that a value is at least `lower` and at most `upper`. -/
def assumeRange (r : Recorder) (value lower upper : Int64) : Recorder :=
  (r.assume ⟨value, .ge, lower⟩).assume ⟨value, .le, upper⟩

/-- The names and contents of the tracked buffers, in order. -/
def tracked (r : Recorder) : List (String × List UInt8) :=
  r.log.filterMap fun
    | .tracked name bytes => some (name, bytes)
    | _ => none

/-- The assumptions, in order. -/
def assumptions (r : Recorder) : List Assumption :=
  r.log.filterMap fun
    | .assumed a => some a
    | _ => none

end Recorder

/-- An engine for marking values. -/
inductive Engine where
  /-- No engine: never active, and every request is dropped. -/
  | idle
  /-- An engine that logs its requests. -/
  | recording (recorder : Recorder)
deriving DecidableEq, Repr

namespace Engine

/-- Whether the program runs under the engine. -/
def active : Engine → Bool
  | idle => false
  | recording r => r.active

/-- The bound on the number of elements that the engine is configured with. -/
def maxSize : Engine → Int64
  | idle => defaultBound
  | recording r => r.maxSize

/-- The recorder of an engine that is not idle. -/
def recorder? : Engine → Option Recorder
  | idle => none
  | recording r => some r

/-- The engine after a request that only a recorder takes. -/
def update (f : Recorder → Recorder) : Engine → Engine
  | idle => idle
  | recording r => recording (f r)

/-- Makes a buffer symbolic; an idle engine leaves it. -/
def track (e : Engine) (name : String) (bytes : List UInt8) : List UInt8 × Engine :=
  match e with
  | idle => (bytes, idle)
  | recording r =>
    let (bytes', r') := r.track name bytes
    (bytes', recording r')

/-- The events in the log; an idle engine has none. -/
def log : Engine → List Event
  | idle => []
  | recording r => r.log

/-- The warnings so far; an idle engine has none. -/
def warnings : Engine → List Warning
  | idle => []
  | recording r => r.warnings

end Engine
end Concolic

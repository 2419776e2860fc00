import Concolic.Engine.Recorder

/-! # What a recorder adds to its log

Every request only adds to the log and to the warnings. `Recorder.extend` is that addition, and each
request is one: tracking a buffer adds one event, whose content `Recorder.replayed` finds in the
replays alone, and assumptions add one event each. So what requests do is known from the replays,
whatever the log already holds. -/

namespace Concolic

/-- Contents to replay by the names of their buffers. -/
abbrev Replays := List (String × List UInt8)

namespace Event

/-- The buffer that an event tracks, with its name. -/
def tracked? : Event → Option (String × List UInt8)
  | tracked name bytes => some (name, bytes)
  | assumed _ => none
  | atomicBegin => none
  | atomicEnd => none

/-- The assumption that an event adds. -/
def assumed? : Event → Option Assumption
  | tracked _ _ => none
  | assumed a => some a
  | atomicBegin => none
  | atomicEnd => none

/-- `.assumed a ∈ events` iff `a` is one of the assumptions among `events`. -/
theorem assumed_mem_iff {a : Assumption} {events : List Event} :
    .assumed a ∈ events ↔ a ∈ events.filterMap assumed? := by
  rw [List.mem_filterMap]
  constructor
  · intro h
    exact ⟨.assumed a, h, rfl⟩
  · rintro ⟨e, he, hassumed⟩
    cases e <;> cases hassumed
    exact he

end Event

namespace Recorder

/-- `r.tracked` are the buffers that the events in `r.log` track. -/
theorem tracked_eq (r : Recorder) : r.tracked = r.log.filterMap Event.tracked? := by
  rw [tracked]
  congr 1
  funext e
  cases e <;> rfl

/-! ## Extensions -/

/-- `r` with `events` and `warnings` added behind those it has. -/
def extend (r : Recorder) (events : List Event) (warnings : List Warning) : Recorder :=
  { r with log := r.log ++ events, warnings := r.warnings ++ warnings }

section Extend

variable (r : Recorder) (events events' : List Event) (warnings warnings' : List Warning)

@[simp] theorem log_extend : (r.extend events warnings).log = r.log ++ events := rfl

@[simp] theorem warnings_extend : (r.extend events warnings).warnings = r.warnings ++ warnings :=
  rfl

@[simp] theorem replays_extend : (r.extend events warnings).replays = r.replays := rfl

@[simp] theorem extend_nil : r.extend [] [] = r := by
  rw [extend, List.append_nil, List.append_nil]

/-- Two extensions of `r` are one by both. -/
@[simp] theorem extend_extend :
    (r.extend events warnings).extend events' warnings'
      = r.extend (events ++ events') (warnings ++ warnings') := by
  simp only [extend, List.append_assoc]

/-- `r.extend events warnings` tracks what `r` and `events` track. -/
theorem tracked_extend :
    (r.extend events warnings).tracked = r.tracked ++ events.filterMap Event.tracked? := by
  rw [tracked_eq, tracked_eq, log_extend, List.filterMap_append]

end Extend

/-- `r.record e = r.extend [e] []`. -/
theorem record_eq (r : Recorder) (e : Event) : r.record e = r.extend [e] [] := by
  rw [record, extend, List.append_nil]

/-- `r.warn w = r.extend [] [w]`. -/
theorem warn_eq (r : Recorder) (w : Warning) : r.warn w = r.extend [] [w] := by
  rw [warn, extend, List.append_nil]

/-! ## Tracking -/

/-- The content under `name` once it is tracked: the replay for it if the lengths agree, and else
`bytes`. -/
def replayed (replays : Replays) (name : String) (bytes : List UInt8) : List UInt8 :=
  match replays.lookup name with
  | none => bytes
  | some replay => if replay.length = bytes.length then replay else bytes

/-- The warning for a buffer under `name` whose replay has another length. -/
def ignored (replays : Replays) (name : String) (length : Nat) : List Warning :=
  match replays.lookup name with
  | none => []
  | some replay =>
    if replay.length = length then [] else [.replayIgnored name replay.length length]

/-- `r.track name bytes` adds `.tracked` with the replayed content, and a warning if there is a
replay of another length. -/
theorem track_eq (r : Recorder) (name : String) (bytes : List UInt8) :
    r.track name bytes
      = (replayed r.replays name bytes,
        r.extend [.tracked name (replayed r.replays name bytes)]
          (ignored r.replays name bytes.length)) := by
  rw [track, replayed, ignored]
  cases r.replays.lookup name with
  | none => simp only [record_eq]
  | some replay =>
    -- the warning comes before the event, but the two are kept in lists of their own
    by_cases hlength : replay.length = bytes.length
    · simp only [if_pos hlength, record_eq]
    · simp only [if_neg hlength, record_eq, warn_eq, extend_extend, List.nil_append,
        List.append_nil]

/-- `replayed` keeps the length. -/
@[simp] theorem length_replayed (replays : Replays) (name : String) (bytes : List UInt8) :
    (replayed replays name bytes).length = bytes.length := by
  rw [replayed]
  split
  · rfl
  · split
    · assumption
    · rfl

/-- A replay of the length of `bytes` is what `replayed` gives. -/
theorem replayed_of_lookup {replays : Replays} {name : String} {replay bytes : List UInt8}
    (hlookup : replays.lookup name = some replay) (hlength : replay.length = bytes.length) :
    replayed replays name bytes = replay := by
  rw [replayed, hlookup]
  exact if_pos hlength

/-- A replay of the right length is not among `ignored`. -/
theorem ignored_of_lookup {replays : Replays} {name : String} {replay : List UInt8} {length : Nat}
    (hlookup : replays.lookup name = some replay) (hlength : replay.length = length) :
    ignored replays name length = [] := by
  rw [ignored, hlookup]
  exact if_pos hlength

/-- `replayed replays name bytes = bytes` if no replay under `name` has the length of `bytes`. -/
theorem replayed_eq_self {replays : Replays} {name : String} {bytes : List UInt8}
    (h : ∀ replay, replays.lookup name = some replay → replay.length ≠ bytes.length) :
    replayed replays name bytes = bytes := by
  rw [replayed]
  split
  · rfl
  · rename_i replay hlookup
    exact if_neg (h replay hlookup)

/-! ## Assumptions -/

/-- The warnings for those of `assumptions` that are false. -/
def failing (assumptions : List Assumption) : List Warning :=
  (assumptions.filter fun a => !a.holds).map .assumptionFails

/-- `r.assume a` adds `.assumed a`, and a warning if `a` does not hold. -/
theorem assume_eq (r : Recorder) (a : Assumption) :
    r.assume a = r.extend [.assumed a] (failing [a]) := by
  rw [assume, failing]
  cases h : a.holds with
  | true => simp [h, record_eq]
  | false => simp [h, record_eq, warn_eq]

/-- `assumptions.foldl assume r` adds an event for each assumption, and a warning for those that do
not hold. -/
theorem foldl_assume (r : Recorder) (assumptions : List Assumption) :
    assumptions.foldl assume r = r.extend (assumptions.map .assumed) (failing assumptions) := by
  induction assumptions generalizing r with
  | nil => exact (extend_nil r).symm
  | cons a assumptions ih =>
    rw [List.foldl_cons, ih, assume_eq, extend_extend, failing, failing, failing, ← List.map_append,
      ← List.filter_append]
    rfl

/-- `(r.assume a).assume b` adds an event for `a` and one for `b`, and warnings for those that do
not hold. -/
theorem assume_assume (r : Recorder) (a b : Assumption) :
    (r.assume a).assume b = r.extend ([a, b].map .assumed) (failing [a, b]) :=
  foldl_assume r [a, b]

end Recorder

/-! ## Engines that are active -/

/-- If `e.active = true`, then `e = .recording r` for an active recorder `r`. -/
theorem Engine.eq_recording_of_active {e : Engine} (h : e.active = true) :
    ∃ r, e = .recording r ∧ r.active = true := by
  cases e with
  | idle => cases h
  | recording r => exact ⟨r, rfl, h⟩

/-- `e.active = false`, or `e = .recording r` for an active recorder `r`. -/
theorem Engine.inactive_or_recording (e : Engine) :
    e.active = false ∨ ∃ r, e = .recording r ∧ r.active = true := by
  cases hactive : e.active with
  | false => exact .inl rfl
  | true => exact .inr (eq_recording_of_active hactive)

end Concolic

import Concolic.Assignments
import Concolic.Session.Basic

/-! # Scripts

A script drives a session step by step over named slots that hold host values. Each step is answered
with its outcome and with the events and warnings since the previous answer. A step in an atomic
region may abort: aborting leaves the enclosing regions up to one that catches it, and the steps it
passes give no answer. -/

namespace Concolic
namespace Script

/-- A step of a script. -/
inductive Step where
  /-- Puts a value into a slot. -/
  | bind (slot : String) (value : Value)
  /-- Puts the value of one slot into another. -/
  | copy (source slot : String)
  /-- Compares the values of two slots. -/
  | compare (left right : String)
  /-- Looks at the value of a slot. -/
  | inspect (slot : String)
  /-- Makes an integer symbolic. -/
  | markInt (value : Int32) (name : String) (max min : Int32)
  /-- Makes the value of a slot symbolic, in place, with the memory that the allocator has then. -/
  | markSequence (memory : Allocator) (slot name : String) (max min : Int64)
  /-- Adds an item to the list in a slot. -/
  | push (slot : String) (item : Value)
  /-- Sets the value of a key in the table in a slot. -/
  | insert (slot : String) (key value : Value)
  /-- Looks up a key in the table in a slot. -/
  | lookup (slot : String) (key : Value)
  /-- Looks up the value of another slot in the table in a slot. -/
  | lookupSlot (slot keySlot : String)
  /-- Asks for the bound of the session. -/
  | bound
  /-- Adds the assumptions of a range to the engine. -/
  | assumeRange (value lower upper : Int64)
  /-- Makes a buffer symbolic on the engine, active or not. -/
  | track (name : String) (bytes : List UInt8)
  /-- Runs steps in an atomic region. After the steps it aborts if `aborts` is set; aborting that
  reaches the region is stopped there if `catches` is set. With `stopsOnError` the steps end at the
  first one that fails. -/
  | atomic (body : List Step) (stopsOnError aborts catches : Bool)
  /-- Asks for the state of the engine. -/
  | engine
  /-- Takes all events out of the log. -/
  | takeEvents
  /-- Reads the tracked buffers in the log into fresh assignments. -/
  | answers

/-- What the engine tells of itself. -/
structure EngineState where
  /-- Whether it is active. -/
  active : Bool
  /-- The bound it is configured with. -/
  maxSize : Int64
  /-- Its log, unless it is idle. -/
  log : Option (List Event)

mutual

/-- How a step went. -/
inductive Outcome where
  /-- The step is done. -/
  | done
  /-- The value of a slot. -/
  | shown (value : Value)
  /-- A truth value. -/
  | truth (holds : Bool)
  /-- The integer to go on with. -/
  | int (value : Int32)
  /-- The sequence to go on with. -/
  | marked (value : Value)
  /-- The marking failed; for a sequence, this is its value afterwards. -/
  | failed (error : MarkError) (value : Option Value)
  /-- A list has this size word and so many items. -/
  | pushed (size : Int64) (count : Nat)
  /-- The value that the key had, the size word and the number of entries. -/
  | inserted (old : Option Value) (used : Int64) (count : Nat)
  /-- The value at a key. -/
  | found (value : Option Value)
  /-- The bound of the session. -/
  | bound (bound : Int64)
  /-- The content of a buffer. -/
  | buffer (bytes : List UInt8)
  /-- The answers of the steps in a region, and whether it aborted. -/
  | region (answers : List Answer) (aborted : Bool)
  /-- The state of the engine. -/
  | engine (state : EngineState)
  /-- The events taken, unless the engine is idle. -/
  | taken (events : Option (List Event))
  /-- The assignments read, with their number of answers, unless the engine is idle. -/
  | assigned (read : Option (Except BufferError (Nat × Assignments)))
  /-- The step names a slot that is empty or holds a value of another kind. -/
  | noSuchSlot

/-- The answer to a step. -/
inductive Answer where
  /-- How the step went, and what was requested and warned of since the previous answer. -/
  | mk (outcome : Outcome) (events : List Event) (warnings : List Warning)

end

/-- Whether a step failed. -/
def Outcome.isFailure : Outcome → Bool
  | .failed _ _ => true
  | .assigned (some (.error _)) => true
  | _ => false

/-- How the step of an answer went. -/
def Answer.outcome : Answer → Outcome
  | .mk outcome _ _ => outcome

/-- A session with its slots, and how much of its log and warnings has been told. -/
structure State where
  /-- The session. -/
  session : Session
  /-- The values of the slots that are not empty. -/
  slots : String → Option Value := fun _ => none
  /-- The number of events in the log that earlier answers told. -/
  toldEvents : Nat := 0
  /-- The number of warnings that earlier answers told. -/
  toldWarnings : Nat := 0

namespace State

/-- The value of `slot`. -/
def get? (s : State) (slot : String) : Option Value := s.slots slot

/-- `s` with `slot` set to `value`. -/
def set (s : State) (slot : String) (value : Value) : State :=
  { s with slots := fun other => if other = slot then some value else s.slots other }

/-- `s` with the engine changed by a request `f` that only a recorder takes. -/
def request (s : State) (f : Recorder → Recorder) : State :=
  { s with session := { s.session with engine := s.session.engine.update f } }

/-- Answers a step with `outcome`: what was not told before is told now. -/
def answer (s : State) (outcome : Outcome) : Answer × State :=
  let log := s.session.engine.log
  let warnings := s.session.engine.warnings
  (.mk outcome (log.drop s.toldEvents) (warnings.drop s.toldWarnings),
    { s with toldEvents := log.length, toldWarnings := warnings.length })

end State

/-- Runs a step that has no steps inside. -/
def perform (s : State) : Step → Outcome × State
  | .bind slot value => (.shown value, s.set slot value)
  | .copy source slot =>
    match s.get? source with
    | some value => (.done, s.set slot value)
    | none => (.noSuchSlot, s)
  | .compare left right =>
    match s.get? left, s.get? right with
    | some a, some b => (.truth (a.equal b), s)
    | _, _ => (.noSuchSlot, s)
  | .inspect slot =>
    match s.get? slot with
    | some value => (.shown value, s)
    | none => (.noSuchSlot, s)
  | .markInt value name max min =>
    match s.session.markInt value name max min with
    | (.ok result, session) => (.int result, { s with session := session })
    | (.error error, session) => (.failed error none, { s with session := session })
  | .markSequence memory slot name max min =>
    match s.get? slot with
    | some value =>
      match s.session.markSequence memory value name max min with
      | (.ok (), value, session) => (.marked value, ({ s with session := session }).set slot value)
      | (.error error, value, session) =>
        (.failed error (some value), ({ s with session := session }).set slot value)
    | none => (.noSuchSlot, s)
  | .push slot item =>
    match s.get? slot with
    | some (.list _ items) =>
      let count := items.length + 1
      (.pushed (sizeWordOf count) count, s.set slot (Value.push items item))
    | _ => (.noSuchSlot, s)
  | .insert slot key value =>
    match s.get? slot with
    | some (.dict used entries) =>
      let (old, d) := (Dict.mk used entries).insert key value
      (.inserted old d.used d.entries.length, s.set slot d.value)
    | _ => (.noSuchSlot, s)
  | .lookup slot key =>
    match s.get? slot with
    | some (.dict used entries) => (.found ((Dict.mk used entries).get? key), s)
    | _ => (.noSuchSlot, s)
  | .lookupSlot slot keySlot =>
    match s.get? slot, s.get? keySlot with
    | some (.dict used entries), some key => (.found ((Dict.mk used entries).get? key), s)
    | _, _ => (.noSuchSlot, s)
  | .bound => (.bound s.session.bound, s)
  | .assumeRange value lower upper => (.done, s.request (·.assumeRange value lower upper))
  | .track name bytes =>
    let (bytes, engine) := s.session.engine.track name bytes
    (.buffer bytes, { s with session := { s.session with engine := engine } })
  | .engine =>
    let engine := s.session.engine
    (.engine ⟨engine.active, engine.maxSize, engine.recorder?.map (·.log)⟩, s)
  | .takeEvents =>
    (.taken (s.session.engine.recorder?.map (·.log)),
      { s.request (fun r => { r with log := [] }) with toldEvents := 0 })
  | .answers =>
    let read := s.session.engine.recorder?.map fun r =>
      match Assignments.write .empty r.tracked with
      | (.ok count, tree) => .ok (count, tree)
      | (.error error, _) => .error error
    (.assigned read, s)
  | .atomic _ _ _ _ => (.done, s)

mutual

/-- Runs a step: its answer, or `none` if aborting leaves it. -/
def run (s : State) : Step → Option Answer × State
  | .atomic body stopsOnError aborts catches =>
    let ((answers, aborted, s'), session) := s.session.inAtomicRegion fun session =>
      let (answers, aborted, s') := runAll { s with session := session } stopsOnError body
      ((answers, aborted || aborts, s'), s'.session)
    let s' := { s' with session := session }
    if aborted && !catches then (none, s')
    else
      let (answer, s') := s'.answer (.region answers aborted)
      (some answer, s')
  | step =>
    let (outcome, s') := perform s step
    let (answer, s') := s'.answer outcome
    (some answer, s')

/-- Runs steps in order, up to the end, to a step that aborts or, if asked, to one that fails: the
answers, and whether a step aborted. -/
def runAll (s : State) (stopsOnError : Bool) : List Step → List Answer × Bool × State
  | [] => ([], false, s)
  | step :: steps =>
    match run s step with
    | (none, s') => ([], true, s')
    | (some answer, s') =>
      if stopsOnError && answer.outcome.isFailure then ([answer], false, s')
      else
        let (answers, aborted, s'') := runAll s' stopsOnError steps
        (answer :: answers, aborted, s'')

end

end Script
end Concolic

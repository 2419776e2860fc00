import Concolic.Session.Marking

/-! # Sessions

A session marks values over an engine. It keeps the bound on the number of elements of structures,
fixed when it is opened, and whether it is in an atomic region. -/

namespace Concolic

/-- The first positive bound, and the warnings for the ones passed over; `defaultBound` where none
is positive. -/
def firstPositive : List Int64 → Int64 × List Warning
  | [] => (defaultBound, [])
  | bound :: rest =>
    if 0 < bound then (bound, [])
    else
      let (found, warnings) := firstPositive rest
      (found, .nonPositiveBound bound :: warnings)

/-- A session of marking values. -/
structure Session where
  /-- The engine that tracks the buffers. -/
  engine : Engine
  /-- The bound below which the number of elements of structures is kept. -/
  bound : Int64
  /-- Whether an atomic region is open. -/
  inAtomic : Bool := false
deriving DecidableEq, Repr

namespace Session

/-- Opens a session: its bound is the first positive one of the configured bound, the engine's bound
and the default. -/
def start (engine : Engine) (configured : Option Int64) : Session × List Warning :=
  let (bound, warnings) := firstPositive (configured.toList ++ [engine.maxSize])
  ({ engine := engine, bound := bound }, warnings)

/-- Runs a marking over the session's engine, which has to be active, with `x` in its place: the
result, what is in the place afterwards and the session, for a failure as for a success. -/
def marking {α β : Type} (s : Session) (x : α) (m : Marking α β) :
    Except MarkError β × α × Session :=
  match s.engine with
  | .idle => (.error .engineInactive, x, s)
  | .recording r =>
    if r.active then
      match m.run (x, r) with
      | .ok result (x', r') => (.ok result, x', { s with engine := .recording r' })
      | .error error (x', r') => (.error error, x', { s with engine := .recording r' })
    else (.error .engineInactive, x, s)

/-- Makes `value` symbolic under `name` and gives the integer to go on with. -/
def markInt (s : Session) (value : Int32) (name : String) (max min : Int32) :
    Except MarkError Int32 × Session :=
  let (result, (), s') := s.marking () (Marking.int value name max min)
  (result, s')

/-- Makes `value` symbolic in place under `name`: whether it succeeds, the value afterwards and the
session. -/
def markSequence (s : Session) (memory : Allocator) (value : Value) (name : String)
    (max min : Int64) : Except MarkError Unit × Value × Session :=
  s.marking value do
    match SizePolicy.ofBounds max min with
    | .error error => throw error
    | .ok policy => Marking.sequence memory name policy s.bound

/-- Runs `body` in an atomic region. The outermost region begins and ends it, however `body` ends;
regions inside are merged into it. -/
def inAtomicRegion {α : Type} (s : Session) (body : Session → α × Session) : α × Session :=
  if s.inAtomic then body s
  else
    let (result, s') :=
      body { s with engine := s.engine.update (·.record .atomicBegin), inAtomic := true }
    (result, { s' with engine := s'.engine.update (·.record .atomicEnd), inAtomic := false })

end Session
end Concolic

import Concolic.Engine.Recorder
import Concolic.Session.MarkError

/-! # Size policies

What is asked of the size of a marked sequence: it is fixed, or at least a minimum, or within a
range. `SizePolicy.check` tests a concrete size before anything is tracked, and
`SizePolicy.assumptions` are the constraints on the size read back from the tracked word. -/

namespace Concolic

/-- What is asked of a size. -/
inductive SizePolicy where
  /-- The size stays as it is and is not symbolic. -/
  | fixed
  /-- The size is at least the minimum. -/
  | atLeast (min : Int64)
  /-- The size is in the range, ends included; an inverted range holds no size. -/
  | within (min max : Int64)
deriving DecidableEq, Repr

namespace SizePolicy

/-- The policy of `max` and `min`: a negative `max` fixes the size, and a zero one leaves it
open. -/
def ofBounds (max min : Int64) : Except MarkError SizePolicy :=
  if min < 0 then .error (.invalidSize min)
  else if max < 0 then .ok .fixed
  else if max = 0 then .ok (.atLeast min)
  else .ok (.within min max)

/-- Whether the size is symbolic. -/
def tracked : SizePolicy → Bool
  | fixed => false
  | atLeast _ => true
  | within _ _ => true

/-- Refuses a `size` outside the policy. -/
def check (p : SizePolicy) (size : Int64) : Except MarkError Unit :=
  match p with
  | fixed => .ok ()
  | atLeast min =>
    if min ≤ size then .ok () else .error (.rangeViolation .size size min none)
  | within min max =>
    if min ≤ size ∧ size ≤ max then .ok ()
    else .error (.rangeViolation .size size min (some max))

/-- The constraints on a symbolic `size`, in the order in which they are added. -/
def assumptions (p : SizePolicy) (size : Int64) : List Assumption :=
  match p with
  | fixed => []
  | atLeast min => [⟨size, .ge, min⟩]
  | within min max => [⟨size, .le, max⟩, ⟨size, .ge, min⟩]

/-- Adds the constraints on `size` to `r`. -/
def constrain (p : SizePolicy) (size : Int64) (r : Recorder) : Recorder :=
  (p.assumptions size).foldl Recorder.assume r

end SizePolicy
end Concolic

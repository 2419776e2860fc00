/-! # Assumptions

An assumption compares a value read from a tracked buffer with a bound. The engine takes it as a
constraint on the symbolic value; here it also has a truth value, for the concrete one. -/

namespace Concolic

/-- How a value is compared with a bound. -/
inductive Comparison where
  /-- At least the bound. -/
  | ge
  /-- At most the bound. -/
  | le
  /-- Below the bound. -/
  | lt
deriving DecidableEq, Repr

namespace Comparison

/-- The sign of a comparison. -/
def text : Comparison → String
  | ge => ">="
  | le => "<="
  | lt => "<"

/-- The comparison of a sign. -/
def ofText? (sign : String) : Option Comparison :=
  if sign = ge.text then some ge
  else if sign = le.text then some le
  else if sign = lt.text then some lt
  else none

end Comparison

/-- A comparison of a value with a bound. -/
structure Assumption where
  /-- The value read from the buffer. -/
  value : Int64
  /-- The comparison. -/
  op : Comparison
  /-- What the value is compared with. -/
  bound : Int64
deriving DecidableEq, Repr

namespace Assumption

/-- Whether the concrete `a.value` satisfies the assumption `a`. -/
def holds (a : Assumption) : Bool :=
  match a.op with
  | .ge => a.bound ≤ a.value
  | .le => a.value ≤ a.bound
  | .lt => a.value < a.bound

/-- The assumption in words. -/
def text (a : Assumption) : String :=
  s!"{a.value.toInt} {a.op.text} {a.bound.toInt}"

end Assumption
end Concolic

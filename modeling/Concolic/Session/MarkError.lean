import Concolic.BufferName
import Concolic.Host.Value

/-! # Errors of marking

Why a value is not made symbolic, in words, and the kind of failure that the host program is told.
-/

namespace Concolic

/-- What a bound is set on. -/
inductive Subject where
  /-- The value of an integer. -/
  | value
  /-- The size of an object. -/
  | size
deriving DecidableEq, Repr

/-- The subject in words. -/
def Subject.text : Subject → String
  | value => "value"
  | size => "size"

/-- Why a value is not made symbolic. -/
inductive MarkError where
  /-- The program does not run under the engine. -/
  | engineInactive
  /-- The value or size is outside its bounds; there may be no upper one. -/
  | rangeViolation (subject : Subject) (value min : Int64) (max : Option Int64)
  /-- The least size is negative. -/
  | invalidSize (min : Int64)
  /-- There is no value. -/
  | nullValue
  /-- Values of this kind are not marked as sequences. -/
  | unsupportedKind (kind : Kind)
  /-- There is no memory for a buffer of this many bytes. -/
  | outOfMemory (requested : Nat)
  /-- The buffer cannot be named. -/
  | name (error : NameError)
deriving DecidableEq, Repr

/-- The kinds of failure that the host program tells apart. -/
inductive Failure where
  | runtime
  | valueRange
  | type
  | outOfMemory
deriving DecidableEq, Repr

/-- The name of a kind of failure. -/
def Failure.text : Failure → String
  | runtime => "RuntimeFailure"
  | valueRange => "ValueRangeFailure"
  | type => "TypeFailure"
  | outOfMemory => "OutOfMemory"

namespace MarkError

/-- The upper end of a range in words. -/
def upperEnd : Option Int64 → String
  | some max => s!"{max.toInt}]"
  | none => "+inf)"

/-- The error in words. -/
def message : MarkError → String
  | engineInactive => "Not in symbolic mode"
  | rangeViolation subject value min max =>
    s!"Incompatible {subject.text} constraints: {value.toInt} is out of [{min.toInt}, {upperEnd max}"
  | invalidSize min => s!"Minimum size cannot be negative: {min.toInt}"
  | nullValue => "Cannot make a none value symbolic"
  | unsupportedKind kind => s!"Unsupported type: {kind.text}"
  | outOfMemory requested => s!"Failed to allocate {requested} bytes for the concolic buffer"
  | name error => error.message

/-- The kind of failure that the host program is told. -/
def failure : MarkError → Failure
  | engineInactive => .runtime
  | rangeViolation _ _ _ _ => .valueRange
  | invalidSize _ => .valueRange
  | nullValue => .valueRange
  | unsupportedKind _ => .type
  | outOfMemory _ => .outOfMemory
  | name _ => .runtime

/-- The error behind this one, in words. -/
def cause? : MarkError → Option String
  | engineInactive => none
  | rangeViolation _ _ _ _ => none
  | invalidSize _ => none
  | nullValue => none
  | unsupportedKind _ => none
  | outOfMemory _ => none
  | name error => some error.message

end MarkError
end Concolic

import Concolic.BufferValue
import Concolic.OrderedMap

/-! # Assignments

The answers found for buffers, grouped by the object they belong to and then by its parts.
Assignments are fed one answer after the other; the last answer for a part of an object stands, and
an answer that cannot be read changes nothing. -/

namespace Concolic

/-- The values of one object by its parts. -/
abbrev Fields := OrderedMap BufferValue

/-- The values of all objects by name. -/
abbrev Assignments := OrderedMap Fields

namespace Assignments

/-- The value of the part `field` of the object `key`. -/
def value? (a : Assignments) (key field : String) : Option BufferValue :=
  (a.get? key).bind (·.get? field)

/-- `a` with the part `field` of the object `key` set to `value`. -/
def assign (a : Assignments) (key field : String) (value : BufferValue) : Assignments :=
  a.insert key (((a.get? key).getD .empty).insert field value)

/-- Reads the answer `bytes` for the buffer `name`: whether it can be read, and the assignments
afterwards, which are `a` if it cannot. -/
def decode (a : Assignments) (name : String) (bytes : List UInt8) :
    Except BufferError Unit × Assignments :=
  match BufferName.decode name with
  | .error error => (.error (.name error), a)
  | .ok parts =>
    match BufferValue.ofBytes bytes parts.tag with
    | .error error => (.error error, a)
    | .ok value => (.ok (), a.assign parts.key parts.field value)

/-- Reads answers in order up to the first that cannot be read: its error, if there is one, and the
assignments afterwards. -/
def decodeAll (a : Assignments) :
    List (String × List UInt8) → Option BufferError × Assignments
  | [] => (none, a)
  | (name, bytes) :: rest =>
    match a.decode name bytes with
    | (.error error, a') => (some error, a')
    | (.ok (), a') => decodeAll a' rest

/-- Reads a batch of answers: their number, or the first error. -/
def write (a : Assignments) (answers : List (String × List UInt8)) :
    Except BufferError Nat × Assignments :=
  match a.decodeAll answers with
  | (none, a') => (.ok answers.length, a')
  | (some error, a') => (.error error, a')

/-- `(a.assign key field value).value? key field = some value`, and all other parts keep their
values. -/
theorem value?_assign (a : Assignments) (key field key' field' : String) (value : BufferValue) :
    (a.assign key field value).value? key' field'
      = if key = key' ∧ field = field' then some value else a.value? key' field' := by
  unfold value? assign
  rw [OrderedMap.get?_insert]
  by_cases hkey : key = key'
  · subst hkey
    simp only [if_true, Option.bind_some, OrderedMap.get?_insert, true_and]
    cases a.get? key <;> simp
  · simp [hkey]

end Assignments
end Concolic

import Concolic.BufferValue
import Concolic.Host.Containers
import Concolic.Session.Allocator
import Concolic.Session.SizePolicy

/-! # Marking

How a host value is made symbolic over an active recorder. The bytes of its parts are tracked under
names made from the base name, and the value goes on with what the recorder gives back. A sequence
is marked in place: what becomes of it is part of the state, next to the recorder, and both are kept
when the marking fails. Every check, every name and the memory for the copy come before the first
buffer is tracked, so that an error leaves no trace. -/

namespace Concolic

/-- A computation that may fail over a place, which holds an `α`, and a recorder; both are kept as
they were at the failure. -/
abbrev Marking (α : Type) := EStateM MarkError (α × Recorder)

namespace Marking

variable {α : Type}

/-- Changes the recorder by `f`. -/
def request (f : Recorder → Recorder) : Marking α Unit := modify fun (x, r) => (x, f r)

/-- What the place holds. -/
def held : Marking α α := return (← get).1

/-- Puts `x` into the place. -/
def replace (x : α) : Marking α Unit := modify fun (_, r) => (x, r)

/-- Goes on only if `checked` is `.ok ()`. -/
def require (checked : Except MarkError Unit) : Marking α Unit :=
  match checked with
  | .ok () => pure ()
  | .error error => throw error

/-- The composite name `base.tag#qualifier` of a buffer. -/
def nameOf (base qualifier : String) (tag : Tag) : Marking α String :=
  match BufferName.encode ⟨base, qualifier, tag⟩ with
  | .ok name => pure name
  | .error error => throw (.name error)

/-- Makes a buffer symbolic, and gives its content from then on. -/
def track (name : String) (bytes : List UInt8) : Marking α (List UInt8) :=
  modifyGet fun (x, r) =>
    let (bytes, r) := r.track name bytes
    (bytes, x, r)

/-! ## Integers -/

/-- Makes `value` symbolic and gives the integer to go on with. It is kept from `min` to `max` only
if the range is not inverted. -/
def int (value : Int32) (base : String) (max min : Int32) : Marking α Int32 := do
  if min ≤ max ∧ ¬ (min ≤ value ∧ value ≤ max) then
    throw (.rangeViolation .value value.toInt64 min.toInt64 (some max.toInt64))
  let name ← nameOf base BufferName.valueQualifier .int
  let bytes ← track name (LittleEndian.ofInt32 value)
  let result := LittleEndian.toInt32 bytes
  if min ≤ max then
    request (·.assumeRange result.toInt64 min.toInt64 max.toInt64)
  return result

/-! ## Sequences -/

/-- The name of the buffer for the size, where the policy makes the size symbolic. -/
def sizeName (base : String) (policy : SizePolicy) : Marking α (Option String) := do
  if policy.tracked then
    let name ← nameOf base BufferName.sizeQualifier .size
    return some name
  else
    return none

/-- Makes the size word `word` symbolic under `name` and gives the one read back. -/
def size (name : String) (word : Int64) : Marking α Int64 := do
  let bytes ← track name (LittleEndian.ofInt64 word)
  return LittleEndian.toInt64 bytes

/-- Makes `word` symbolic under `name`, if there is one, within `policy`. -/
def sizeWithin (name : Option String) (policy : SizePolicy) (word : Int64) : Marking α Int64 := do
  match name with
  | none => return word
  | some name =>
    let word ← size name word
    request (policy.constrain word)
    return word

/-- Makes a flat content symbolic: its bytes, copied into a buffer of their own, and then the number
of its elements, which `count` finds in the bytes read back. Each element has `width` bytes. Gives
the new size word and the new bytes. -/
def content (memory : Allocator) (base : String) (policy : SizePolicy) (tag : Tag) (width : Nat)
    (word : Int64) (bytes : List UInt8) (count : List UInt8 → Nat) :
    Marking α (Int64 × List UInt8) := do
  require (policy.check word)
  let valueName ← nameOf base BufferName.valueQualifier tag
  let sizeName ← sizeName base policy
  require (memory.reserve (Allocator.requested (count bytes) width))
  let bytes ← track valueName bytes
  let word ← sizeWithin sizeName policy (sizeWordOf (count bytes))
  return (word, bytes)

/-- Makes the number of items of the list in the place symbolic, which is the list that `rebuild`
makes of its size word; the items stay as they are. -/
def list (base : String) (policy : SizePolicy) (word : Int64) (rebuild : Int64 → α) :
    Marking α Unit := do
  require (policy.check word)
  match ← sizeName base policy with
  | none => return ()
  | some name =>
    let word ← size name word
    replace (rebuild word)
    request (policy.constrain word)

/-- Makes the number of elements of the structure in the place symbolic, which is the structure that
`rebuild` makes of its size word: at least zero, and below the bound. -/
def structureSize (base : String) (bound : Int64) (word : Int64) (rebuild : Int64 → α) :
    Marking α Unit := do
  let name ← nameOf base BufferName.sizeQualifier .size
  let count ← size name word
  replace (rebuild count)
  if bound ≤ count then
    request (·.warn (.beyondBound base count bound))
  request (·.assume ⟨count, .ge, 0⟩)
  request (·.assume ⟨count, .lt, bound⟩)

/-- Makes the sequence in the place symbolic. -/
def sequence (memory : Allocator) (base : String) (policy : SizePolicy) (bound : Int64) :
    Marking Value Unit := do
  match ← held with
  | .none => throw .nullValue
  | .str word bytes =>
    let (word, bytes) ← content memory base policy .str 1 word bytes List.length
    replace (.str word bytes)
  | .unicode word units =>
    let (word, bytes) ← content memory base policy .unicode 4 word (LittleEndian.ofUnits units)
      (fun bytes => (LittleEndian.toUnits bytes).length)
    replace (.unicode word (LittleEndian.toUnits bytes))
  | .list word items => list base policy word (.list · items)
  | .dict word entries => structureSize base bound word (.dict · entries)
  | .tuple word items => structureSize base bound word (.tuple · items)
  | .int _ => throw (.unsupportedKind .int)
  | .float _ => throw (.unsupportedKind .float)
  | .byteArray _ => throw (.unsupportedKind .byteArray)

end Marking
end Concolic

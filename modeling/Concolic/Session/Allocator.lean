import Concolic.Session.MarkError

/-! # Allocators

A flat content is copied into a buffer of its own before it becomes symbolic, and the memory for the
buffer may be refused. What the allocator answers is not for the program to know: it comes with each
request, as `Allocator`. -/

namespace Concolic

/-- What an allocator answers to a request for that many bytes. -/
abbrev Allocator := Nat → Bool

namespace Allocator

/-- The allocator that has all the memory that is asked of it. -/
def unlimited : Allocator := fun _ => true

/-- The most bytes that one buffer can have: `2 ^ 63 - 1`, the greatest signed size. -/
def capacityLimit : Nat := 0x7FFFFFFFFFFFFFFF

/-- Whether room for `bytes` bytes is given: no bytes need no memory, more than `capacityLimit` are
refused without asking, and all else is for the allocator to say. -/
def grants (a : Allocator) (bytes : Nat) : Bool :=
  bytes = 0 || (bytes ≤ capacityLimit && a bytes)

/-- Asks for room for `bytes` bytes. -/
def reserve (a : Allocator) (bytes : Nat) : Except MarkError Unit :=
  if a.grants bytes then .ok () else .error (.outOfMemory bytes)

/-- The bytes of `units` units of `width` bytes each, at most `2 ^ 64 - 1` of them: the product
saturates. -/
def requested (units width : Nat) : Nat := min (units * width) 0xFFFFFFFFFFFFFFFF

end Allocator
end Concolic

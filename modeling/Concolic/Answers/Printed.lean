import Concolic.Assignments
import Concolic.Json.Writer

/-! # Assignments as JSON

Assignments are written as an object of objects, with the members in some order: a map tells its
entries in an order of its own (`MemberOrder`). A value is an object with one member, which names
how the value was read. Text units that are no scalar values are lost. -/

namespace Concolic

/-- The order in which the maps of assignments tell their entries. Maps with the same entries need
not tell them in the same order, so that of an object may depend on where the object stands. -/
structure MemberOrder where
  /-- The objects of assignments in their order. -/
  objects (a : Assignments) : List (String × Fields)
  /-- The parts of the object at a key in their order. -/
  parts (a : Assignments) (key : String) (fields : Fields) : List (String × BufferValue)
  /-- Each object is told once. -/
  objects_perm (a : Assignments) : (objects a).Perm a.entries
  /-- Each part is told once. -/
  parts_perm (a : Assignments) (key : String) (fields : Fields) :
    (parts a key fields).Perm fields.entries

/-- The order of the keys. -/
def MemberOrder.byKey : MemberOrder where
  objects a := a.entries
  parts _ _ fields := fields.entries
  objects_perm _ := .refl _
  parts_perm _ _ _ := .refl _

/-- The order of the keys, backwards. -/
def MemberOrder.reversed : MemberOrder where
  objects a := a.entries.reverse
  parts _ _ fields := fields.entries.reverse
  objects_perm a := a.entries.reverse_perm
  parts_perm _ _ fields := fields.entries.reverse_perm

/-- Bytes as an array of numbers. -/
def bytesJson (bytes : List UInt8) : Json := .array (bytes.map fun b => .int b.toNat)

/-- A value under the name of its kind. -/
def BufferValue.json : BufferValue → Json
  | integer n => .object [("integer", .int n.toInt)]
  | sizeWord n => .object [("size_word", .int n.toInt)]
  | byteString bytes => .object [("byte_string", bytesJson bytes)]
  | wideString units => .object [("wide_string", .string (unitsText units))]
  | byteArray bytes => .object [("byte_array", bytesJson bytes)]

/-- Entries as an object whose members have the values that `f` makes of them. -/
def objectOf {α : Type} (f : String → α → Json) (entries : List (String × α)) : Json :=
  .object (entries.map fun (key, value) => (key, f key value))

/-- `a` as JSON, with the members in the order that `order` gives. -/
def Assignments.json (order : MemberOrder) (a : Assignments) : Json :=
  objectOf (fun key fields => objectOf (fun _ value => value.json) (order.parts a key fields))
    (order.objects a)

/-- The file in which `a` is written: its JSON text and a line feed. -/
def Assignments.file (order : MemberOrder) (a : Assignments) : List UInt8 :=
  Utf8.encode ((a.json order).write ++ ['\n'])

end Concolic

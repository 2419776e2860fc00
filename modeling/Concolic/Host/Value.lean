import Concolic.Binary64

/-! # Host values

The dynamically typed values that are marked. An object with a size keeps it in a word of its own,
which an engine may have replayed, so the word can disagree with the content; the constructors
`Value.ofBytes`, `Value.ofUnits`, `Value.ofItems` and `Value.tupleOf` set it to the content's size.
-/

namespace Concolic

/-- A value of the host program; the word of an object with a size comes first. -/
inductive Value where
  /-- No value. -/
  | none
  /-- A 32-bit integer. -/
  | int (n : Int32)
  /-- A floating-point number. -/
  | float (x : Binary64)
  /-- A mutable byte array. -/
  | byteArray (bytes : List UInt8)
  /-- A byte string. -/
  | str (size : Int64) (bytes : List UInt8)
  /-- A string of 32-bit text units. -/
  | unicode (size : Int64) (units : List UInt32)
  /-- A list of values. -/
  | list (size : Int64) (items : List Value)
  /-- A table of keys and values in order of their first insertion. -/
  | dict (used : Int64) (entries : List (Value × Value))
  /-- A tuple of values. -/
  | tuple (size : Int64) (items : List Value)
deriving Repr, Inhabited

/-- The kinds of host values. -/
inductive Kind where
  | none
  | int
  | float
  | byteArray
  | str
  | unicode
  | list
  | dict
  | tuple
deriving DecidableEq, Repr

namespace Kind

/-- The name of a kind. -/
def text : Kind → String
  | none => "none"
  | int => "int"
  | float => "float"
  | byteArray => "bytearray"
  | str => "str"
  | unicode => "unicode"
  | list => "list"
  | dict => "dict"
  | tuple => "tuple"

end Kind

/-- The size word of an object with `count` elements. -/
def sizeWordOf (count : Nat) : Int64 := Int64.ofNat count

namespace Value

/-- The kind of a value. -/
def kind : Value → Kind
  | none => .none
  | int _ => .int
  | float _ => .float
  | byteArray _ => .byteArray
  | str _ _ => .str
  | unicode _ _ => .unicode
  | list _ _ => .list
  | dict _ _ => .dict
  | tuple _ _ => .tuple

/-- The byte string of the given bytes. -/
def ofBytes (bytes : List UInt8) : Value := .str (sizeWordOf bytes.length) bytes

/-- The text of the given units. -/
def ofUnits (units : List UInt32) : Value := .unicode (sizeWordOf units.length) units

/-- The list of the given items. -/
def ofItems (items : List Value) : Value := .list (sizeWordOf items.length) items

/-- The tuple of the given items. -/
def tupleOf (items : List Value) : Value := .tuple (sizeWordOf items.length) items

/-- The size word of an object with a size. -/
def size? : Value → Option Int64
  | none => Option.none
  | int _ => Option.none
  | float _ => Option.none
  | byteArray _ => Option.none
  | str size _ => some size
  | unicode size _ => some size
  | list size _ => some size
  | dict used _ => some used
  | tuple size _ => some size

/-! ## Equality

Values of one kind are equal if their contents are, element by element and in order; objects with a
size also need the same word. Numbers compare as numbers, so a value that holds what is no number
does not equal itself. -/

mutual

/-- Equality of values. -/
def equal : Value → Value → Bool
  | none, none => true
  | int a, int b => a == b
  | float a, float b => a.equal b
  | byteArray a, byteArray b => a == b
  | str s a, str t b => s == t && a == b
  | unicode s a, unicode t b => s == t && a == b
  | list s a, list t b => s == t && equalItems a b
  | dict s a, dict t b => s == t && equalEntries a b
  | tuple s a, tuple t b => s == t && equalItems a b
  | _, _ => false

/-- Equality of items, place by place. -/
def equalItems : List Value → List Value → Bool
  | [], [] => true
  | a :: as, b :: bs => equal a b && equalItems as bs
  | _, _ => false

/-- Equality of entries, place by place. -/
def equalEntries : List (Value × Value) → List (Value × Value) → Bool
  | [], [] => true
  | (k, v) :: as, (l, w) :: bs => equal k l && equal v w && equalEntries as bs
  | _, _ => false

end

end Value
end Concolic

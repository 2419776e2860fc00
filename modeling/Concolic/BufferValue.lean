import Concolic.BufferName
import Concolic.LittleEndian

/-! # Values read from buffers

The bytes of a buffer become a typed value by the letter of its tag. Fixed widths must fit exactly:
bytes are never read at another width. -/

namespace Concolic

/-- A value read from the bytes of a buffer. -/
inductive BufferValue where
  /-- A 32-bit integer. -/
  | integer (n : Int32)
  /-- The size word of an object. -/
  | sizeWord (n : Int64)
  /-- A byte string. -/
  | byteString (bytes : List UInt8)
  /-- A string of text units, which need not be scalar values. -/
  | wideString (units : List UInt32)
  /-- Plain bytes. -/
  | byteArray (bytes : List UInt8)
deriving DecidableEq, Repr

/-- The number of bytes that a tag asks for. -/
inductive Width where
  /-- That many bytes. -/
  | exactly (n : Nat)
  /-- Any multiple of that many bytes. -/
  | multipleOf (n : Nat)
deriving DecidableEq, Repr

namespace Width

/-- The width in words. -/
def message : Width → String
  | exactly n => s!"exactly {n}"
  | multipleOf n => s!"a multiple of {n}"

end Width

/-- Why an answer for a buffer cannot be read. -/
inductive BufferError where
  /-- Its name cannot be taken apart. -/
  | name (error : NameError)
  /-- Its letter is no tag. -/
  | unknownTag (letter : Char)
  /-- Its bytes do not have the width of its tag. -/
  | wrongSize (tag : Tag) (required : Width) (actual : Nat)
deriving DecidableEq, Repr

namespace BufferError

/-- The error in words. -/
def message : BufferError → String
  | name error => error.message
  | unknownTag letter => s!"Invalid assignment type: `{letter}`"
  | wrongSize tag required actual =>
    s!"Invalid content size for type `{tag.text}`: expected {required.message} bytes, got {actual}"

/-- The error behind this one, in words. -/
def cause? : BufferError → Option String
  | name error => some error.message
  | unknownTag _ => none
  | wrongSize _ _ _ => none

end BufferError

namespace BufferValue

/-- The bytes of a 32-bit integer. -/
def intWidth : Nat := 4

/-- The bytes of a size word. -/
def sizeWidth : Nat := 8

/-- The bytes of a text unit. -/
def unitWidth : Nat := 4

/-- `bytes`, if they are exactly `width` many. -/
def exact (bytes : List UInt8) (width : Nat) (tag : Tag) : Except BufferError (List UInt8) :=
  if bytes.length = width then .ok bytes
  else .error (.wrongSize tag (.exactly width) bytes.length)

/-- The bytes in pieces as wide as a text unit; what is left over at the end belongs to none. -/
def unitPieces : List UInt8 → List (List UInt8)
  | a :: b :: c :: d :: bytes => [a, b, c, d] :: unitPieces bytes
  | _ => []

/-- Reads a text unit from its piece. -/
def unitOfPiece (piece : List UInt8) : Except BufferError UInt32 :=
  (exact piece unitWidth .unicode).map fun bytes => UInt32.ofNat (LittleEndian.ofBytes bytes)

/-- Reads `bytes` under `letter`. -/
def ofBytes (bytes : List UInt8) (letter : Char) : Except BufferError BufferValue :=
  match Tag.ofChar? letter with
  | none => .error (.unknownTag letter)
  | some .int => (exact bytes intWidth .int).map fun bytes => .integer (LittleEndian.toInt32 bytes)
  | some .size =>
    (exact bytes sizeWidth .size).map fun bytes => .sizeWord (LittleEndian.toInt64 bytes)
  | some .str => .ok (.byteString bytes)
  | some .unicode =>
    if bytes.length % unitWidth = 0 then ((unitPieces bytes).mapM unitOfPiece).map .wideString
    else .error (.wrongSize .unicode (.multipleOf unitWidth) bytes.length)
  | some .bytes => .ok (.byteArray bytes)

/-- `(unitPieces bytes).mapM unitOfPiece = .ok (LittleEndian.toUnits bytes)`: every piece has the
width of a unit. -/
theorem mapM_unitOfPiece (bytes : List UInt8) :
    (unitPieces bytes).mapM unitOfPiece = .ok (LittleEndian.toUnits bytes) := by
  fun_induction unitPieces bytes with
  | case1 a b c d bytes ih =>
    have hunit : unitOfPiece [a, b, c, d]
        = .ok (UInt32.ofNat (LittleEndian.ofBytes [a, b, c, d])) := rfl
    rw [List.mapM_cons, hunit, ih, LittleEndian.toUnits]
    rfl
  | case2 bytes hshort =>
    rw [LittleEndian.toUnits]
    · rfl
    · exact hshort

/-- The bytes that a value is read from: `ofBytes v.toBytes v.tag.char = .ok v`. -/
def toBytes : BufferValue → List UInt8
  | integer n => LittleEndian.ofInt32 n
  | sizeWord n => LittleEndian.ofInt64 n
  | byteString bytes => bytes
  | wideString units => LittleEndian.ofUnits units
  | byteArray bytes => bytes

/-- The tag under which a value is read. -/
def tag : BufferValue → Tag
  | integer _ => .int
  | sizeWord _ => .size
  | byteString _ => .str
  | wideString _ => .unicode
  | byteArray _ => .bytes

end BufferValue

/-! ## Text of units -/

/-- The scalar value `u`, or U+FFFD if `u` is none. -/
def unitChar (u : UInt32) : Char :=
  if u.toNat.isValidChar then Char.ofNat u.toNat else '\uFFFD'

/-- The text of units. -/
def unitsText (units : List UInt32) : String := String.ofList (units.map unitChar)

/-- The units of a text, one for each scalar value. -/
def textUnits (text : String) : List UInt32 := text.toList.map (·.val)

end Concolic

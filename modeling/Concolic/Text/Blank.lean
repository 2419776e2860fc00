/-! # Blank text

A text is blank if it holds only characters with the Unicode property `White_Space`. -/

namespace Concolic

/-- The characters with the property `White_Space`. -/
def isWhiteSpace (c : Char) : Bool :=
  let n := c.toNat
  (9 ≤ n && n ≤ 13) || n == 0x20 || n == 0x85 || n == 0xA0 || n == 0x1680 ||
    (0x2000 ≤ n && n ≤ 0x200A) || n == 0x2028 || n == 0x2029 || n == 0x202F || n == 0x205F ||
    n == 0x3000

/-- Whether a text holds white space only. -/
def isBlank (cs : List Char) : Bool := cs.all isWhiteSpace

end Concolic

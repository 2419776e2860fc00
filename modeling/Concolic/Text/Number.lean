import Concolic.Binary64

/-! # Numbers in text

The integers and doubles that texts spell. An integer is an optional sign and digits of a base; a
double is an optional sign, decimal digits with at most one point among them, and an optional
exponent. Nothing else may stand in the text. -/

namespace Concolic
namespace Number

/-! ## Digits -/

/-- The value of a letter or decimal digit as a digit. -/
def digitValue? (c : Char) : Option Nat :=
  let n := c.toNat
  if 48 ≤ n ∧ n ≤ 57 then some (n - 48)
  else if 65 ≤ n ∧ n ≤ 90 then some (n - 55)
  else if 97 ≤ n ∧ n ≤ 122 then some (n - 87)
  else none

/-- Whether a character is a digit of a base. -/
def isDigitOf (base : Nat) (c : Char) : Bool :=
  match digitValue? c with
  | some d => d < base
  | none => false

/-- Reads digits of `base` behind those that spell `value`. -/
def digitsFrom? (base value : Nat) : List Char → Option Nat
  | [] => some value
  | c :: cs =>
    match digitValue? c with
    | some d => if d < base then digitsFrom? base (base * value + d) cs else none
    | none => none

/-- The natural number that digits of `base` spell; there is at least one. -/
def natural? (base : Nat) (cs : List Char) : Option Nat :=
  if cs.isEmpty then none else digitsFrom? base 0 cs

/-! ## Integers -/

/-- Whether a text starts with a minus sign, and the text behind its sign. -/
def splitSign : List Char → Bool × List Char
  | [] => (false, [])
  | c :: cs => if c = '-' then (true, cs) else if c = '+' then (false, cs) else (false, c :: cs)

/-- `splitSign cs` leaves no more than `cs`. -/
theorem length_splitSign_le (cs : List Char) : (splitSign cs).2.length ≤ cs.length := by
  cases cs with
  | nil => exact Nat.le_refl _
  | cons c cs =>
    simp only [splitSign]
    repeat' split
    all_goals simp

/-- The integer that a text spells. -/
def integer? (base : Nat) (cs : List Char) : Option Int :=
  match natural? base (splitSign cs).2 with
  | some n => some (if (splitSign cs).1 then -(n : Int) else n)
  | none => none

/-- The 64-bit integer that an integer is. -/
def toInt64? (n : Int) : Option Int64 :=
  if Int64.minValue.toInt ≤ n ∧ n ≤ Int64.maxValue.toInt then some (Int64.ofInt n) else none

/-- The 64-bit integer that a text spells. -/
def int64? (base : Nat) (cs : List Char) : Option Int64 := (integer? base cs).bind toInt64?

/-! ## Doubles -/

/-- Splits a text at the first character with a property; that character is dropped. -/
def splitAtFirst (p : Char → Bool) : List Char → List Char × Option (List Char)
  | [] => ([], none)
  | c :: cs =>
    if p c then ([], some cs)
    else
      let (before, after) := splitAtFirst p cs
      (c :: before, after)

/-- The double nearest to the number that a text spells. -/
def real? (cs : List Char) : Option Binary64 := do
  let (negative, unsigned) := splitSign cs
  let (mantissa, power) := splitAtFirst (fun c => c == 'e' || c == 'E') unsigned
  let (whole, fraction) := splitAtFirst (· == '.') mantissa
  let digits ← natural? 10 (whole ++ fraction.getD [])
  let exponent ←
    match power with
    | some written => integer? 10 written
    | none => some 0
  return Binary64.ofDecimal negative digits (exponent - (fraction.getD []).length)

end Number
end Concolic

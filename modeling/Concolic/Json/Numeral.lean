import Concolic.Json.Basic
import Concolic.Text.Number

/-! # JSON numbers

A numeral is read by its digits. Written without point and exponent and within the range of 64-bit
words it is an integer, and a double otherwise. -/

namespace Concolic
namespace Json

/-- A number by its digits: `digits * 10 ^ exponent`, negated where `negative`. -/
structure Numeral where
  /-- Whether a minus sign is written. -/
  negative : Bool
  /-- The digits before and after the point. -/
  digits : Nat
  /-- The power of ten that goes with the last digit. -/
  exponent : Int
  /-- Whether neither point nor exponent is written. -/
  whole : Bool
deriving DecidableEq, Repr

/-- The value of a decimal digit. -/
def digitValue? (c : Char) : Option Nat :=
  let n := c.toNat
  if 48 ≤ n ∧ n ≤ 57 then some (n - 48) else none

/-- The digits at the front of a text. -/
structure Digits where
  /-- The number that they spell. -/
  value : Nat
  /-- How many there are. -/
  count : Nat
  /-- The text behind them. -/
  rest : List Char
deriving DecidableEq, Repr

/-- Reads digits onto a number of which `count` digits have been read. -/
def readDigits (value count : Nat) : List Char → Digits
  | [] => ⟨value, count, []⟩
  | c :: cs =>
    match digitValue? c with
    | some d => readDigits (10 * value + d) (count + 1) cs
    | none => ⟨value, count, c :: cs⟩

/-- The fault of a numeral that stops where a digit is needed. -/
def missingDigit (mode : Mode) (rest : List Char) : Fault :=
  if mode = .exact ∧ rest = [] then .truncated else .malformed

/-- Reads the exponent of a numeral, if one is written. -/
def readExponent (mode : Mode) (numeral : Numeral) : List Char → Read Numeral
  | [] => .ok (numeral, [])
  | c :: cs =>
    if c = 'e' ∨ c = 'E' then
      let sign := Number.splitSign cs
      let size := readDigits 0 0 sign.2
      if size.count = 0 then .error (missingDigit mode size.rest)
      else
        let shift : Int := if sign.1 then -(size.value : Int) else size.value
        .ok ({ numeral with exponent := numeral.exponent + shift, whole := false }, size.rest)
    else .ok (numeral, c :: cs)

/-- Reads the point and the digits behind it, if they are written, and the exponent. -/
def readFraction (mode : Mode) (numeral : Numeral) : List Char → Read Numeral
  | [] => .ok (numeral, [])
  | c :: cs =>
    if c = '.' then
      let ds := readDigits numeral.digits 0 cs
      if ds.count = 0 then .error (missingDigit mode ds.rest)
      else
        readExponent mode
          { numeral with digits := ds.value, exponent := -(ds.count : Int), whole := false } ds.rest
    else readExponent mode numeral (c :: cs)

/-- Reads a numeral behind its sign. A leading zero stands alone. -/
def readUnsigned (mode : Mode) (negative : Bool) (cs : List Char) : Read Numeral :=
  let ds := readDigits 0 0 cs
  if ds.count = 0 then .error (missingDigit mode ds.rest)
  else if cs.head? = some '0' ∧ ds.count ≠ 1 then .error .malformed
  else readFraction mode ⟨negative, ds.value, 0, true⟩ ds.rest

/-- Reads a numeral. -/
def readNumeral (mode : Mode) : List Char → Read Numeral
  | '-' :: cs => readUnsigned mode true cs
  | cs => readUnsigned mode false cs

/-- A numeral without a minus sign is read by `readUnsigned`. -/
theorem readNumeral_of_ne (mode : Mode) {cs : List Char} (h : cs.head? ≠ some '-') :
    readNumeral mode cs = readUnsigned mode false cs := by
  unfold readNumeral
  split
  · exact absurd rfl h
  · rfl

/-- A number is an integer within the range of words, or a double. -/
inductive Number where
  | int (n : Int)
  | float (x : Binary64)
deriving DecidableEq, Repr

/-- The number of a numeral. A whole one is an integer from the least signed to the greatest
unsigned 64-bit word, negative zero excepted; a number beyond the doubles is refused. -/
def Numeral.number (n : Numeral) : Except Fault Number :=
  if n.whole ∧ ¬ n.negative ∧ n.digits < UInt64.size then .ok (.int n.digits)
  else if n.whole ∧ n.negative ∧ 0 < n.digits ∧ Int64.minValue.toInt ≤ -(n.digits : Int) then
    .ok (.int (-(n.digits : Int)))
  else
    let x := Binary64.ofDecimal n.negative n.digits n.exponent
    if x.isInfinite then .error .malformed else .ok (.float x)

/-- Reads a number. -/
def readNumber (cs : List Char) : Read Number :=
  match readNumeral .exact cs with
  | .error fault => .error fault
  | .ok (numeral, rest) =>
    match numeral.number with
    | .error fault => .error fault
    | .ok number => .ok (number, rest)

/-! ## Reading uses text -/

theorem length_readDigits (value count : Nat) (cs : List Char) :
    (readDigits value count cs).rest.length + (readDigits value count cs).count
      = cs.length + count := by
  induction cs generalizing value count with
  | nil => simp [readDigits]
  | cons c cs ih =>
    simp only [readDigits]
    split
    · rw [ih, List.length_cons]
      omega
    · rfl

theorem length_readExponent_le {mode : Mode} {n m : Numeral} {cs rest : List Char}
    (h : readExponent mode n cs = .ok (m, rest)) : rest.length ≤ cs.length := by
  cases cs with
  | nil =>
    simp only [readExponent, Except.ok.injEq, Prod.mk.injEq] at h
    simp [← h.2]
  | cons c cs =>
    have hsign := Number.length_splitSign_le cs
    have hdigits := length_readDigits 0 0 (Number.splitSign cs).2
    simp only [readExponent] at h
    split at h
    · split at h
      · simp at h
      · simp only [Except.ok.injEq, Prod.mk.injEq] at h
        rw [← h.2, List.length_cons]
        omega
    · simp only [Except.ok.injEq, Prod.mk.injEq] at h
      simp [← h.2]

theorem length_readFraction_le {mode : Mode} {n m : Numeral} {cs rest : List Char}
    (h : readFraction mode n cs = .ok (m, rest)) : rest.length ≤ cs.length := by
  cases cs with
  | nil =>
    simp only [readFraction, Except.ok.injEq, Prod.mk.injEq] at h
    simp [← h.2]
  | cons c cs =>
    have hdigits := length_readDigits n.digits 0 cs
    simp only [readFraction] at h
    split at h
    · split at h
      · simp at h
      · have := length_readExponent_le h
        simp only [List.length_cons]
        omega
    · exact length_readExponent_le h

/-- `readNumeral` uses at least one character. -/
theorem length_readNumeral_lt {mode : Mode} {n : Numeral} {cs rest : List Char}
    (h : readNumeral mode cs = .ok (n, rest)) : rest.length < cs.length := by
  have unsigned {negative : Bool} {ds : List Char}
      (h : readUnsigned mode negative ds = .ok (n, rest)) : rest.length < ds.length := by
    have hdigits := length_readDigits 0 0 ds
    simp only [readUnsigned] at h
    split at h
    · simp at h
    · split at h
      · simp at h
      · have := length_readFraction_le h
        omega
  unfold readNumeral at h
  split at h
  · have := unsigned h
    simp only [List.length_cons]
    omega
  · exact unsigned h

/-- `readNumber` uses at least one character. -/
theorem length_readNumber_lt {x : Number} {cs rest : List Char}
    (h : readNumber cs = .ok (x, rest)) : rest.length < cs.length := by
  unfold readNumber at h
  split at h
  · simp at h
  · rename_i hnumeral
    split at h
    · simp at h
    · simp only [Except.ok.injEq, Prod.mk.injEq] at h
      exact h.2 ▸ length_readNumeral_lt hnumeral

end Json
end Concolic

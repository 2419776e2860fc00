/-! # Double-precision numbers

A double is kept as its 64 bits: sign, eleven bits of exponent, 52 bits of fraction. Here are its
numeric equality, the double nearest to a decimal, and the nearest 64-bit integer. -/

namespace Concolic

/-- A double-precision number by its bits. -/
structure Binary64 where
  /-- Sign, exponent and fraction, from the highest bit down. -/
  bits : UInt64
deriving DecidableEq, Repr

namespace Binary64

/-- Whether the sign bit is set. -/
def negative (x : Binary64) : Bool := 1 <<< 63 ≤ x.bits.toNat

/-- The exponent field. -/
def exponentField (x : Binary64) : Nat := x.bits.toNat >>> 52 % 2048

/-- The fraction field. -/
def fractionField (x : Binary64) : Nat := x.bits.toNat % 1 <<< 52

/-- Whether the bits spell NaN. -/
def isNaN (x : Binary64) : Bool := x.exponentField == 2047 && x.fractionField != 0

/-- Whether the bits spell an infinity. -/
def isInfinite (x : Binary64) : Bool := x.exponentField == 2047 && x.fractionField == 0

/-- Whether the number is zero, of either sign. -/
def isZero (x : Binary64) : Bool := x.bits.toNat % 1 <<< 63 == 0

/-! ## Equality of numbers -/

/-- Equality of numbers: the zeros are equal, and NaN equals nothing. -/
def equal (x y : Binary64) : Bool :=
  !x.isNaN && !y.isNaN && (x == y || x.isZero && y.isZero)

/-- `x.equal y` iff neither is NaN and they are the same double, or both are zeros. -/
theorem equal_iff {x y : Binary64} :
    x.equal y ↔ ¬ x.isNaN ∧ ¬ y.isNaN ∧ (x = y ∨ x.isZero ∧ y.isZero) := by
  simp [equal, and_assoc]

/-- `x.equal y = y.equal x`. -/
theorem equal_comm (x y : Binary64) : x.equal y = y.equal x := by
  unfold equal
  rw [BEq.comm (a := x)]
  cases x.isNaN <;> cases y.isNaN <;> cases x.isZero <;> cases y.isZero <;> simp

/-- `x.equal x` iff `x` is a number. -/
theorem equal_self (x : Binary64) : x.equal x = !x.isNaN := by
  cases h : x.isNaN <;> simp [equal, h]

/-- `equal` is transitive. -/
theorem equal_trans {x y z : Binary64} (hxy : x.equal y) (hyz : y.equal z) : x.equal z := by
  simp only [equal, Bool.and_eq_true, Bool.or_eq_true, Bool.not_eq_true', beq_iff_eq] at *
  obtain ⟨⟨hx, -⟩, hxy⟩ := hxy
  obtain ⟨⟨-, hz⟩, hyz⟩ := hyz
  refine ⟨⟨hx, hz⟩, ?_⟩
  rcases hxy with rfl | hxy
  · exact hyz
  · rcases hyz with rfl | hyz
    · exact .inr hxy
    · exact .inr ⟨hxy.1, hyz.2⟩

/-! ## The number spelt -/

/-- The size of a finite double is `x.significand * 2 ^ x.scale`. -/
def significand (x : Binary64) : Nat :=
  if x.exponentField = 0 then x.fractionField else 1 <<< 52 + x.fractionField

/-- The power of two that goes with `x.significand`. -/
def scale (x : Binary64) : Int :=
  if x.exponentField = 0 then -1074 else (x.exponentField : Int) - 1075

/-- The nearest integer, halves away from zero, within the 64-bit range; zero for NaN. -/
def roundToInt64 (x : Binary64) : Int64 :=
  if x.isNaN then 0
  else
    let size : Nat :=
      if x.isInfinite then 1 <<< 64
      else if 0 ≤ x.scale then x.significand <<< x.scale.toNat
      else (x.significand + 1 <<< ((-x.scale).toNat - 1)) >>> (-x.scale).toNat
    if x.negative then
      if 1 <<< 63 ≤ size then Int64.minValue else Int64.ofInt (-(size : Int))
    else if 1 <<< 63 ≤ size then Int64.maxValue else Int64.ofInt size

/-! ## The nearest double -/

/-- `n / d` rounded to the nearest natural number, a half to the even neighbour. -/
def roundDiv (n d : Nat) : Nat :=
  let q := n / d
  let r := n % d
  if 2 * r < d then q
  else if d < 2 * r then q + 1
  else q + q % 2

/-- The bits without the sign of `m` times two to the power `e`, where `m` has at most 53 bits, or
is the next power of two, and fewer only at the least scale. -/
def assemble (m : Nat) (e : Int) : Nat :=
  let field := (e + 1075).toNat
  if m < 1 <<< 52 then m
  else if m = 1 <<< 53 then (min (field + 1) 2047) <<< 52
  else if 2047 ≤ field then 2047 <<< 52
  else field <<< 52 + (m - 1 <<< 52)

/-- The bits without the sign of the double nearest to `n / d`, for positive `n` and `d`. -/
def ofRatio (n d : Nat) : Nat :=
  let estimate : Int := (n.log2 : Int) - d.log2 - 53
  let shifted (e : Int) : Nat × Nat :=
    if 0 ≤ e then (n, d <<< e.toNat) else (n <<< (-e).toNat, d)
  let (top, bottom) := shifted estimate
  let fitting := if top < bottom <<< 53 then estimate else estimate + 1
  let e := max fitting (-1074)
  let (top, bottom) := shifted e
  assemble (roundDiv top bottom) e

/-- The double nearest to `digits * 10 ^ exponent`, with a sign. -/
def ofDecimal (isNegative : Bool) (digits : Nat) (exponent : Int) : Binary64 :=
  let size : Nat :=
    if digits = 0 then 0
    else if 400 < exponent then 2047 <<< 52
    else if exponent + digits.log2 < -400 then 0
    else if 0 ≤ exponent then ofRatio (digits * Nat.pow 10 exponent.toNat) 1
    else ofRatio digits (Nat.pow 10 (-exponent).toNat)
  ⟨UInt64.ofNat (if isNegative then 1 <<< 63 + size else size)⟩

/-- The infinity of a sign. -/
def infinity (isNegative : Bool) : Binary64 :=
  ⟨UInt64.ofNat (if isNegative then 4095 <<< 52 else 2047 <<< 52)⟩

/-- The bits of NaN with a sign. -/
def nan (isNegative : Bool) : Binary64 :=
  ⟨UInt64.ofNat (if isNegative then 8191 <<< 51 else 4095 <<< 51)⟩

/-! ## The shortest decimal -/

/-- Whether the quotient `n / d` is in the interval of numbers to which `x` is nearest, ends
included where ties go to `x`. -/
def nearestIs (x : Binary64) (n d : Nat) : Bool :=
  n != 0 && ofRatio n d == x.bits.toNat % 1 <<< 63

/-- A quotient of numbers scaled by a power of ten on either side. -/
def scaled (n : Nat) (exponent : Int) : Nat × Nat :=
  if 0 ≤ exponent then (n * Nat.pow 10 exponent.toNat, 1) else (n, Nat.pow 10 (-exponent).toNat)

/-- The shortest decimal `digits · 10 ^ exponent` that reads back as a finite positive double and is
nearest to it among those, by trying coarse grids of decimals first. -/
def shortestFrom (x : Binary64) (n d : Nat) : (fuel : Nat) → (exponent : Int) → Nat × Int
  | 0, exponent => (0, exponent)
  | fuel + 1, exponent =>
    let (p, q) := scaled 1 exponent
    let low := n * q / (d * p)
    let reads (k : Nat) : Bool :=
      let (top, bottom) := scaled k exponent
      x.nearestIs top bottom
    let lowReads := reads low
    let highReads := reads (low + 1)
    if lowReads && highReads then
      let half := (2 * low + 1) * (d * p)
      let twice := 2 * (n * q)
      if twice < half then (low, exponent)
      else if half < twice then (low + 1, exponent)
      else (if low % 2 = 0 then low else low + 1, exponent)
    else if lowReads then (low, exponent)
    else if highReads then (low + 1, exponent)
    else shortestFrom x n d fuel (exponent - 1)

/-- The number of decimal digits of `n`. -/
def digitCount (n : Nat) : Nat := (Nat.toDigits 10 n).length

/-- The shortest decimal that reads back as the size of a finite double. -/
def shortest (x : Binary64) : Nat × Int :=
  if x.isZero then (0, 0)
  else
    let (n, d) :=
      if 0 ≤ x.scale then (x.significand <<< x.scale.toNat, 1)
      else (x.significand, 1 <<< (-x.scale).toNat)
    let start : Int := (digitCount n : Int) - digitCount d + 1
    shortestFrom x n d 20 start

end Binary64
end Concolic

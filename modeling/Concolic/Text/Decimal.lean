/-! # Decimal text

The shortest decimal digits of numbers. -/

namespace Concolic
namespace Decimal

/-- The character of a decimal digit. -/
def digit (n : Nat) : Char := Char.ofNat (48 + n % 10)

/-- The decimal digits of a natural number, without leading zeros. -/
def ofNat (n : Nat) : List Char :=
  if n < 10 then [digit n] else ofNat (n / 10) ++ [digit n]

/-- The decimal digits of an integer, with a sign where it is negative. -/
def ofInt : Int → List Char
  | .ofNat n => ofNat n
  | .negSucc n => '-' :: ofNat (n + 1)

end Decimal
end Concolic

import Concolic.Config.Format.Toml.Text
import Concolic.Config.Setting

/-! # Scalars of TOML

Numbers, truth values and dates are runs of characters without quotes. A date is kept as its text,
with a `T` between day and time and no zeros at the end of a fraction of a second. -/

namespace Concolic
namespace Toml

/-! ## Numbers -/

/-- Digits without the underscores between them; each underscore stands between two digits. -/
def joinDigits? (isDigit : Char → Bool) : List Char → Option (List Char)
  | [] => none
  | [c] => if isDigit c then some [c] else none
  | c :: '_' :: cs => if isDigit c then (joinDigits? isDigit cs).map (c :: ·) else none
  | c :: cs => if isDigit c then (joinDigits? isDigit cs).map (c :: ·) else none

/-- Decimal digits without a zero in front of others. -/
def wholeDigits? (cs : List Char) : Option (List Char) := do
  let digits ← joinDigits? Char.isDigit cs
  if digits.head? = some '0' ∧ digits.length ≠ 1 then none else some digits

/-- The integer of a text with a sign. -/
def signedInteger? (cs : List Char) : Option Setting := do
  let digits ← wholeDigits? (Number.splitSign cs).2
  let n ← Number.int64? 10 (if (Number.splitSign cs).1 then '-' :: digits else digits)
  return .int n

/-- The integer of digits in a base. -/
def basedInteger? (base : Nat) (cs : List Char) : Option Setting := do
  let digits ← joinDigits? (Number.isDigitOf base) cs
  let n ← Number.int64? base digits
  return .int n

/-- The double of a text with a point or an exponent. -/
def double? (cs : List Char) : Option Setting := do
  let (negative, unsigned) := Number.splitSign cs
  let (mantissa, power) := Number.splitAtFirst (fun c => c == 'e' || c == 'E') unsigned
  let (whole, fraction) := Number.splitAtFirst (· == '.') mantissa
  let wholePart ← wholeDigits? whole
  let fractionPart ←
    match fraction with
    | some digits => joinDigits? Char.isDigit digits
    | none => some []
  let exponent ←
    match power with
    | some written => do
      let digits ← joinDigits? Char.isDigit (Number.splitSign written).2
      Number.integer? 10 (if (Number.splitSign written).1 then '-' :: digits else digits)
    | none => some 0
  let digits ← Number.natural? 10 (wholePart ++ fractionPart)
  let x := Binary64.ofDecimal negative digits (exponent - fractionPart.length)
  if x.isInfinite then none else some (.float x)

/-- The number of a text. -/
def number? (cs : List Char) : Option Setting :=
  match cs with
  | '0' :: 'x' :: digits => basedInteger? 16 digits
  | '0' :: 'o' :: digits => basedInteger? 8 digits
  | '0' :: 'b' :: digits => basedInteger? 2 digits
  | _ =>
    let unsigned := (Number.splitSign cs).2
    if unsigned = ['i', 'n', 'f'] then some (.float (Binary64.infinity (Number.splitSign cs).1))
    else if unsigned = ['n', 'a', 'n'] then some (.float (Binary64.nan (Number.splitSign cs).1))
    else if cs.any fun c => c == '.' || c == 'e' || c == 'E' then double? cs
    else signedInteger? cs

/-! ## Dates -/

/-- A number of decimal digits within bounds, as they are written. -/
def field (digits low high : Nat) : Scan (List Char) := do
  let cs ← Scan.count digits Char.isDigit
  let n ← Scan.ofOption (Number.natural? 10 cs)
  if low ≤ n ∧ n ≤ high then return cs else failure

/-- The number of days of a month. -/
def daysOf (year month : Nat) : Nat :=
  if month = 2 then
    if year % 4 = 0 ∧ (year % 100 ≠ 0 ∨ year % 400 = 0) then 29 else 28
  else if month = 4 ∨ month = 6 ∨ month = 9 ∨ month = 11 then 30
  else 31

/-- A day. -/
def day : Scan (List Char) := do
  let year ← field 4 0 9999
  Scan.char '-'
  let month ← field 2 1 12
  Scan.char '-'
  let y ← Scan.ofOption (Number.natural? 10 year)
  let m ← Scan.ofOption (Number.natural? 10 month)
  let date ← field 2 1 (daysOf y m)
  return year ++ '-' :: (month ++ '-' :: date)

/-- The fraction of a second, to nine digits and without zeros at its end. -/
def secondFraction : Scan (List Char) := do
  Scan.char '.'
  let digits ← Scan.takeWhile1 Char.isDigit
  let kept := ((digits.take 9).reverse.dropWhile (· == '0')).reverse
  return if kept.isEmpty then [] else '.' :: kept

/-- A time of a day. -/
def time : Scan (List Char) := do
  let hour ← field 2 0 23
  Scan.char ':'
  let minute ← field 2 0 59
  Scan.char ':'
  let second ← field 2 0 60
  let fraction ← Scan.getD secondFraction []
  return hour ++ ':' :: (minute ++ ':' :: (second ++ fraction))

/-- The distance from universal time; none has a plus sign. -/
def offset : Scan (List Char) := do
  let sign ← Scan.next
  if sign = 'Z' ∨ sign = 'z' then return ['Z']
  else if sign = '+' ∨ sign = '-' then
    let hour ← field 2 0 23
    Scan.char ':'
    let minute ← field 2 0 59
    let zero := hour = ['0', '0'] ∧ minute = ['0', '0']
    return (if zero then '+' else sign) :: (hour ++ ':' :: minute)
  else failure

/-- A date: a day, a time, or both with or without an offset. -/
def date : Scan (List Char) :=
  (do
    let d ← day
    match ← Scan.optional (Scan.satisfy fun c => c == 'T' || c == 't' || c == ' ') with
    | none => return d
    | some _ =>
      let t ← time
      return d ++ 'T' :: (t ++ (← Scan.getD offset []))) <|> time

/-! ## Scalars without quotes -/

/-- Whether a character may stand in a scalar without quotes. -/
def isTokenChar (c : Char) : Bool :=
  c.isAlphanum || c == '+' || c == '-' || c == '.' || c == '_' || c == ':'

/-- The characters of a scalar without quotes: a time may stand behind a day and a blank. -/
def token : Scan (List Char) := do
  let first ← Scan.takeWhile1 isTokenChar
  if (day.whole first).isSome then
    let second ← Scan.optional (do
      Scan.char ' '
      let c ← Scan.satisfy Char.isDigit
      return c :: (← Scan.takeWhile isTokenChar))
    match second with
    | some more => return first ++ ' ' :: more
    | none => return first
  else return first

/-- The scalar of a text without quotes. -/
def scalar? (cs : List Char) : Option Setting :=
  if cs = ['t', 'r', 'u', 'e'] then some (.bool true)
  else if cs = ['f', 'a', 'l', 's', 'e'] then some (.bool false)
  else
    match number? cs with
    | some n => some n
    | none => (date.whole cs).map fun text => .text (String.ofList text)

/-- A scalar without quotes. -/
def bare : Scan Setting := do
  Scan.ofOption (scalar? (← token))

end Toml
end Concolic

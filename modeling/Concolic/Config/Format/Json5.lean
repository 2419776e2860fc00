import Concolic.Config.Setting
import Concolic.Json.Quoted
import Concolic.Text.Scan

/-! # Settings in JSON5

JSON5 is JSON with comments, commas behind the last items, bare keys, two kinds of quotes, and more
ways to write numbers. Whole numbers are 64-bit words, those in base sixteen unsigned 32-bit words.
-/

namespace Concolic
namespace Json5

/-! ## White space -/

/-- Whether a character ends a line. -/
def isLineEnd (c : Char) : Bool := c == '\n' || c == '\r' || c == '\u2028' || c == '\u2029'

/-- Whether a character may stand between tokens. -/
def isSpace (c : Char) : Bool :=
  let n := c.toNat
  isLineEnd c || n == 9 || n == 11 || n == 12 || n == 0x20 || n == 0xA0 || n == 0xFEFF ||
    n == 0x1680 || (0x2000 ≤ n && n ≤ 0x200A) || n == 0x202F || n == 0x205F || n == 0x3000

/-- Passes over a comment. -/
def comment : Scan Unit := do
  Scan.char '/'
  match ← Scan.next with
  | '/' => Scan.skipWhile (!isLineEnd ·)
  | '*' => Scan.skipPast ['*', '/']
  | _ => failure

/-- Passes over white space and comments. -/
def space : Scan Unit := Scan.spaceOf isSpace comment

/-- A character and the white space behind it. -/
def mark (c : Char) : Scan Unit := do
  Scan.char c
  space

/-! ## Strings and keys -/

/-- A code unit of an escape, with the second half behind it where it is half of a pair. -/
def codeUnit : Scan Char := do
  let unit ← Scan.hex 4
  if 0xDC00 ≤ unit ∧ unit ≤ 0xDFFF then failure
  else if 0xD800 ≤ unit ∧ unit ≤ 0xDBFF then
    Scan.word ['\\', 'u']
    let low ← Scan.hex 4
    if 0xDC00 ≤ low ∧ low ≤ 0xDFFF then
      return Char.ofNat (0x10000 + (unit - 0xD800) * 0x400 + (low - 0xDC00))
    else failure
  else return Char.ofNat unit

/-- What an escape stands for, behind its backslash. -/
def escape : Scan (List Char) := do
  let c ← Scan.next
  if c = 'u' then return [← codeUnit]
  else if c = 'x' then return [Char.ofNat (← Scan.hex 2)]
  else if c = '0' then return ['\x00']
  else if c.isDigit then failure
  else if c = '\r' then
    let _ ← Scan.optional (Scan.char '\n')
    return []
  else if isLineEnd c then return []
  else if c = 'v' then return ['\x0b']
  else
    match Json.escaped? c with
    | some e => return [e]
    | none => return [c]

/-- A character or an escape between quotes. -/
def quotedPart (quote : Char) : Scan (List Char) := do
  let c ← Scan.satisfy fun c => c != quote && !isLineEnd c
  if c = '\\' then escape else return [c]

/-- A text between quotes. -/
def quoted : Scan String := do
  let quote ← Scan.satisfy fun c => c == '"' || c == '\''
  let parts ← Scan.many (quotedPart quote)
  Scan.char quote
  return String.ofList parts.flatten

/-- Whether a character may start a bare key. -/
def isKeyStart (c : Char) : Bool :=
  c.isAlpha || c == '$' || c == '_' || (0x80 ≤ c.toNat && !isSpace c)

/-- A character of a bare key, or its escape. -/
def keyChar (p : Char → Bool) : Scan Char :=
  Scan.satisfy p <|> do
    Scan.word ['\\', 'u']
    return Char.ofNat (← Scan.hex 4)

/-- The key of a member. -/
def key : Scan String :=
  quoted <|> do
    let first ← keyChar isKeyStart
    let more ← Scan.many (keyChar fun c => isKeyStart c || c.isDigit)
    return String.ofList (first :: more)

/-! ## Numbers -/

/-- The digits of a whole number: a leading zero stands alone. -/
def wholeDigits : Scan (List Char) := do
  let c ← Scan.satisfy Char.isDigit
  if c = '0' then return [c] else return c :: (← Scan.takeWhile Char.isDigit)

/-- The exponent of a number. -/
def exponent : Scan (List Char) := do
  let e ← Scan.satisfy fun c => c == 'e' || c == 'E'
  let sign ← Scan.optional (Scan.satisfy fun c => c == '+' || c == '-')
  return e :: (sign.toList ++ (← Scan.takeWhile1 Char.isDigit))

/-- A point and the digits behind it, of which there are at least `least`. -/
def fraction (least : Nat) : Scan (List Char) := do
  Scan.char '.'
  let digits ← Scan.takeWhile Char.isDigit
  if digits.length < least then failure else return '.' :: digits

/-- The text of a decimal number. -/
def decimal : Scan (List Char) := do
  let mantissa ← (do
      let whole ← wholeDigits
      return whole ++ (← Scan.getD (fraction 0) [])) <|> fraction 1
  return mantissa ++ (← Scan.getD exponent [])

/-- The number that a decimal text stands for. -/
def ofDecimalText (cs : List Char) : Option Setting :=
  if cs.any fun c => c == '.' || c == 'e' || c == 'E' then
    match Number.real? cs with
    | some x => if x.isInfinite then none else some (.float x)
    | none => none
  else (Number.int64? 10 cs).map .int

/-- A number. -/
def number : Scan Setting := do
  let sign ← Scan.optional (Scan.satisfy fun c => c == '+' || c == '-')
  let negative := sign == some '-'
  if ← Scan.ahead ['I'] then
    Scan.word "Infinity".toList
    if sign = some '+' then failure else return .float (Binary64.infinity negative)
  else if ← Scan.ahead ['N'] then
    Scan.word "NaN".toList
    if sign = some '+' then failure else return .float (Binary64.nan false)
  else if (← Scan.ahead ['0', 'x']) || (← Scan.ahead ['0', 'X']) then
    let _ ← Scan.next
    let _ ← Scan.next
    let digits ← Scan.takeWhile1 (Number.isDigitOf 16)
    let n ← Scan.ofOption (Number.natural? 16 digits)
    if sign.isSome ∨ UInt32.size ≤ n then failure else return .int (Int64.ofNat n)
  else
    Scan.ofOption (ofDecimalText (sign.toList ++ (← decimal)))

/-! ## Values -/

/-- A value, with the white space behind it. -/
def value : (fuel : Nat) → Scan Setting
  | 0 => failure
  | fuel + 1 => do
    match ← Scan.peek? with
    | some '[' =>
      mark '['
      let items ← Scan.listed (value fuel) (mark ',')
      mark ']'
      return .array items
    | some '\x7b' =>
      mark '\x7b'
      let members ← Scan.listed (do
        let k ← key
        space
        mark ':'
        return (k, ← value fuel)) (mark ',')
      mark '\x7d'
      -- of members with one key the last one counts
      return .table (members.foldl (fun es m => Setting.insert m.1 m.2 es) [])
    | some c =>
      let scalar ←
        if c = '"' ∨ c = '\'' then (do return Setting.text (← quoted))
        else if c = 'n' then (do Scan.word "null".toList; return Setting.nil)
        else if c = 't' then (do Scan.word "true".toList; return Setting.bool true)
        else if c = 'f' then (do Scan.word "false".toList; return Setting.bool false)
        else number
      space
      return scalar
    | none => failure

/-- Reads a configuration in JSON5. -/
def read? (cs : List Char) : Option Setting :=
  Scan.whole (do
    space
    value cs.length) cs

end Json5
end Concolic

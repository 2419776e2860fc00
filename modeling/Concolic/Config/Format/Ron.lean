import Concolic.Config.Setting
import Concolic.Text.Scan

/-! # Settings in object notation

The object notation writes records as `Name(field: value)` or `(field: value)`, sequences between
brackets, maps between braces with any texts as keys, and `Some(value)` and `None` for what may be
absent. Commas may stand behind last items, and comments may be nested. -/

namespace Concolic
namespace Ron

/-! ## White space -/

/-- Whether a character may stand between tokens. -/
def isSpace (c : Char) : Bool :=
  let n := c.toNat
  (9 ≤ n && n ≤ 13) || n == 0x20 || n == 0x85 || n == 0x200E || n == 0x200F || n == 0x2028 ||
    n == 0x2029

/-- Passes over the rest of a comment that is open `depth + 1` times. -/
def skipNested : (depth : Nat) → Scan Unit
  | _, [] => none
  | depth, '*' :: '/' :: cs =>
    match depth with
    | 0 => some ((), cs)
    | depth + 1 => skipNested depth cs
  | depth, '/' :: '*' :: cs => skipNested (depth + 1) cs
  | depth, _ :: cs => skipNested depth cs

/-- Passes over a comment. -/
def comment : Scan Unit := do
  Scan.char '/'
  match ← Scan.next with
  | '/' => Scan.skipWhile (· != '\n')
  | '*' => skipNested 0
  | _ => failure

/-- Passes over white space and comments. -/
def space : Scan Unit := Scan.spaceOf isSpace comment

/-- A character and the white space behind it. -/
def mark (c : Char) : Scan Unit := do
  Scan.char c
  space

/-! ## Names and texts -/

/-- Whether a character may start a name. -/
def isNameStart (c : Char) : Bool := c.isAlpha || c == '_'

/-- Whether a character may stand in a name. -/
def isNameChar (c : Char) : Bool := c.isAlphanum || c == '_'

/-- Whether a character may stand in a raw name. -/
def isRawNameChar (c : Char) : Bool := isNameChar c || c == '.' || c == '+' || c == '-'

/-- A name; behind `r#` more characters may stand in it. -/
def name : Scan String :=
  (do
    Scan.word ['r', '#']
    return String.ofList (← Scan.takeWhile1 isRawNameChar)) <|> do
    let first ← Scan.satisfy isNameStart
    return String.ofList (first :: (← Scan.takeWhile isNameChar))

/-- The character of an escape behind its backslash. -/
def escape : Scan Char := do
  match ← Scan.next with
  | 'n' => return '\n'
  | 'r' => return '\r'
  | 't' => return '\t'
  | '0' => return '\x00'
  | '\\' => return '\\'
  | '\'' => return '\''
  | '"' => return '"'
  | 'x' => Scan.hexChar 2
  | 'u' =>
    Scan.char '\x7b'
    let digits ← Scan.takeWhile1 (Number.isDigitOf 16)
    Scan.char '\x7d'
    if 6 < digits.length then failure
    else Scan.charOf (← Scan.ofOption (Number.natural? 16 digits))
  | _ => failure

/-- A character or an escape of it. -/
def textChar (quote : Char) : Scan Char := do
  let c ← Scan.satisfy (· != quote)
  if c = '\\' then escape else return c

/-- A text between quotes. -/
def quoted : Scan String := do
  Scan.char '"'
  let cs ← Scan.many (textChar '"')
  Scan.char '"'
  return String.ofList cs

/-- A character between apostrophes. -/
def character : Scan Char := do
  Scan.char '\''
  let c ← textChar '\''
  Scan.char '\''
  return c

/-- The text up to a word. -/
def textUpTo (w : List Char) : Scan (List Char)
  | [] => none
  | c :: cs =>
    if w.isPrefixOf (c :: cs) then some ([], (c :: cs).drop w.length)
    else (textUpTo w cs).map fun (taken, rest) => (c :: taken, rest)

/-- A raw text: it ends at a quote with as many number signs as it starts with. -/
def rawQuoted : Scan String := do
  Scan.char 'r'
  let signs ← Scan.takeWhile (· == '#')
  Scan.char '"'
  return String.ofList (← textUpTo ('"' :: signs))

/-! ## Numbers -/

/-- The base that a number starts with. -/
def base : Scan Nat :=
  (do Scan.word ['0', 'x']; return 16) <|> (do Scan.word ['0', 'o']; return 8) <|>
    (do Scan.word ['0', 'b']; return 2) <|> pure 10

/-- Whether a character may stand in a decimal number. -/
def isDecimalChar (c : Char) : Bool := c.isDigit || c == '_' || c == '.' || c == 'e' || c == 'E'

/-- The text of a decimal number: a sign may stand behind the letter of its exponent. -/
def decimalText : (after : Option Char) → List Char → List Char × List Char
  | _, [] => ([], [])
  | after, c :: cs =>
    if isDecimalChar c || ((c == '+' || c == '-') && (after == some 'e' || after == some 'E')) then
      let (taken, rest) := decimalText (some c) cs
      (c :: taken, rest)
    else ([], c :: cs)

/-- The number of a sign and a size. -/
def signed (negative : Bool) (n : Nat) : Setting :=
  match Number.toInt64? (if negative then -(n : Int) else n) with
  | some z => .int z
  | none => .float (Binary64.ofDecimal negative n 0)

/-- A number. -/
def number : Scan Setting := do
  let sign ← Scan.optional (Scan.satisfy fun c => c == '+' || c == '-')
  let negative := sign == some '-'
  if ← Scan.ahead "inf".toList then
    Scan.word "inf".toList
    return .float (Binary64.infinity negative)
  else if ← Scan.ahead "NaN".toList then
    Scan.word "NaN".toList
    return .float (Binary64.nan negative)
  else
    let b ← base
    if b = 10 then
      let first ← Scan.peek?
      -- underscores may stand between digits, but not in front
      let written ← fun cs => some (decimalText none cs)
      let digits := written.filter (· != '_')
      if first = some '_' then failure
      else if written.any fun c => c == '.' || c == 'e' || c == 'E' then
        return .float (← Scan.ofOption (Number.real? (sign.toList ++ digits)))
      else return signed negative (← Scan.ofOption (Number.natural? 10 digits))
    else
      let digits ← Scan.takeWhile1 fun c => Number.isDigitOf b c || c == '_'
      if digits.head? = some '_' then failure
      else return signed negative (← Scan.ofOption (Number.natural? b (digits.filter (· != '_'))))

/-! ## Values -/

/-- Whether a record with named fields goes on: a name with a colon behind it, all of which stays in
place. -/
def fieldAhead : Scan Bool := fun cs =>
  match (do let _ ← name; space; Scan.char ':' : Scan Unit).run cs with
  | some _ => some (true, cs)
  | none => some (false, cs)

/-- The key of a map. -/
def keyText : Setting → Option String
  | .text s => some s
  | _ => none

/-- The table of members, the last of those with one key. -/
def tableOf (members : Settings) : Setting :=
  .table (members.foldl (fun es m => Setting.insert m.1 m.2 es) [])

mutual

/-- A value, with the white space behind it. -/
def value : (fuel : Nat) → Scan Setting
  | 0 => failure
  | fuel + 1 => do
    match ← Scan.peek? with
    | none => failure
    | some c =>
      if c = '(' then body fuel
      else if c = '[' then
        mark '['
        let items ← Scan.listed (value fuel) (mark ',')
        mark ']'
        return .array items
      else if c = '\x7b' then
        mark '\x7b'
        let members ← Scan.listed (do
          let k ← Scan.ofOption (keyText (← value fuel))
          mark ':'
          return (k, ← value fuel)) (mark ',')
        mark '\x7d'
        return tableOf members
      -- a name may start with `r` too, so that raw texts are told by what follows it
      else if c = '"' ∨ (← Scan.ahead ['r', '"']) ∨ (← Scan.ahead ['r', '#', '"']) ∨
          (← Scan.ahead ['r', '#', '#']) then
        let s ← quoted <|> rawQuoted
        space
        return .text s
      else if c = '\'' then
        let s ← character
        space
        return .text (String.ofList [s])
      else if isNameStart c then named fuel
      else
        let n ← number
        space
        return n

/-- A value that starts with a name. -/
def named : (fuel : Nat) → Scan Setting
  | 0 => failure
  | fuel + 1 => do
    let n ← name
    space
    if n = "true" then return .bool true
    else if n = "false" then return .bool false
    else if n = "None" then return .nil
    else if n = "inf" then return .float (Binary64.infinity false)
    else if n = "NaN" then return .float (Binary64.nan false)
    else if n = "Some" then
      mark '('
      let v ← value fuel
      mark ')'
      return v
    else
      -- a variant or the name of a structure: only what is in the parentheses counts
      match ← Scan.peek? with
      | some '(' => body fuel
      | _ => return .nil

/-- What stands between parentheses: nothing, fields, or items. -/
def body : (fuel : Nat) → Scan Setting
  | 0 => failure
  | fuel + 1 => do
    mark '('
    -- the unit, fields with names, or the items of a tuple
    if ← Scan.ahead [')'] then
      mark ')'
      return .nil
    else if ← fieldAhead then
      let members ← Scan.listed (do
        let k ← name
        space
        mark ':'
        return (k, ← value fuel)) (mark ',')
      mark ')'
      return tableOf members
    else
      let items ← Scan.listed (value fuel) (mark ',')
      mark ')'
      return .array items

end

/-- Passes over the extensions that a text asks for in its first lines. -/
def extensions : Scan Unit := do
  let _ ← Scan.many (do
    Scan.word ['#', '!']
    space
    mark '['
    Scan.word "enable".toList
    space
    mark '('
    let _ ← Scan.separated1 (do let _ ← name; space) (mark ',')
    let _ ← Scan.optional (mark ',')
    mark ')'
    mark ']')

/-- Reads a configuration in the object notation. -/
def read? (cs : List Char) : Option Setting :=
  Scan.whole (do
    space
    extensions
    value (3 * cs.length + 3)) cs

end Ron
end Concolic

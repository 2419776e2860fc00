import Concolic.Config.Setting
import Concolic.Text.Scan

/-! # Scalars of YAML

A plain scalar has no quotes, and what it spells decides whether it is a number, a truth value,
nothing or a text. A quoted scalar is a text; the ends of lines in it are folded. Lines end with
line feeds here. -/

namespace Concolic
namespace Yaml

/-- Whether a character is a space or a tabulator. -/
def isBlankChar (c : Char) : Bool := c == ' ' || c == '\t'

/-- Whether a character separates or closes the parts of collections between brackets. -/
def isFlowMark (c : Char) : Bool :=
  c == ',' || c == '[' || c == ']' || c == '\x7b' || c == '\x7d'

/-- Passes over blanks. -/
def blanks : Scan Unit := Scan.skipWhile isBlankChar

/-! ## What plain scalars mean -/

/-- The number of a plain scalar with a special start. -/
def specialInteger? : List Char → Option Int64
  | '0' :: 'x' :: cs => Number.int64? 16 cs
  | '0' :: 'o' :: cs => Number.int64? 8 cs
  | '+' :: cs => Number.int64? 10 cs
  | _ => none

/-- The double of a plain scalar, which has a digit. -/
def double? (cs : List Char) : Option Binary64 :=
  if cs.any Char.isDigit then Number.real? cs else none

/-- Whether a text without its sign is the name of a number that no digits spell. -/
def isNamedDouble (cs : List Char) : Bool :=
  let name := String.ofList cs
  name == ".nan" || name == ".NaN" || name == ".NAN" ||
    [".inf", ".Inf", ".INF"].contains (String.ofList (Number.splitSign cs).2)

/-- What a plain scalar means. The names of infinities and of what is no number are refused. -/
def ofPlain? (cs : List Char) : Option Setting :=
  match specialInteger? cs with
  | some n => some (.int n)
  | none =>
    if cs = [] ∨ cs = ['~'] ∨ cs = "null".toList then some .nil
    else if cs = "true".toList then some (.bool true)
    else if cs = "false".toList then some (.bool false)
    else
      match Number.int64? 10 cs with
      | some n => some (.int n)
      | none =>
        if isNamedDouble cs then none
        else
          match double? cs with
          | some x => some (.float x)
          | none => some (.text (String.ofList cs))

/-- What a plain scalar means under a tag; one that does not fit the tag is nothing. -/
def ofTagged? (tag : Option String) (cs : List Char) : Option Setting :=
  match tag with
  | none => ofPlain? cs
  | some "!!bool" =>
    if cs = "true".toList then some (.bool true)
    else if cs = "false".toList then some (.bool false)
    else some .nil
  | some "!!int" => some ((Number.int64? 10 cs).elim .nil .int)
  | some "!!float" =>
    if isNamedDouble cs then none else some ((double? cs).elim .nil .float)
  | some "!!null" => some .nil
  | some _ => some (.text (String.ofList cs))

/-- The key that a scalar is: a text or an integer. -/
def keyText? : Setting → Option String
  | .text s => some s
  | .int n => some (toString n)
  | _ => none

/-! ## Plain scalars -/

/-- Whether a plain scalar can start a text. -/
def startsPlain (inFlow : Bool) : List Char → Bool
  | [] => false
  | c :: cs =>
    if c = '-' ∨ c = '?' ∨ c = ':' then
      match cs with
      | [] => false
      | d :: _ => !isBlankChar d && d != '\n' && !(inFlow && isFlowMark d)
    else
      !isBlankChar c && c != '\n' && !isFlowMark c &&
        !(['#', '&', '*', '!', '|', '>', '\'', '"', '%', '@', '\x60'].contains c)

/-- Whether a colon with this text behind it ends a key. -/
def endsKey (inFlow : Bool) : List Char → Bool
  | [] => true
  | c :: _ => isBlankChar c || c == '\n' || (inFlow && isFlowMark c)

/-- The part of a plain scalar on one line, behind a blank or not, and the text behind it. -/
def plainSpan (inFlow : Bool) : (afterBlank : Bool) → List Char → List Char × List Char
  | _, [] => ([], [])
  | afterBlank, c :: cs =>
    if c = '\n' ∨ (c = ':' ∧ endsKey inFlow cs) ∨ (c = '#' ∧ afterBlank) ∨
        (inFlow ∧ isFlowMark c) then
      ([], c :: cs)
    else
      let (taken, rest) := plainSpan inFlow (isBlankChar c) cs
      (c :: taken, rest)

/-- A text without the blanks at its end. -/
def trimEnd (cs : List Char) : List Char := (cs.reverse.dropWhile isBlankChar).reverse

/-- A plain scalar on one line, with the blanks behind it. -/
def plainLine (inFlow : Bool) : Scan (List Char) := fun cs =>
  if startsPlain inFlow cs then
    let (taken, rest) := plainSpan inFlow false cs
    some (trimEnd taken, rest)
  else none

/-- What ends of lines in a row stand for in folded text. -/
def foldedBreaks (n : Nat) : List Char :=
  if n = 1 then [' '] else List.replicate (n - 1) '\n'

/-- Ends of lines in a row with blanks around them, in folded text. -/
def foldBreaks : Scan (List Char) := do
  blanks
  let breaks ← Scan.many1 (do
    Scan.char '\n'
    blanks)
  return foldedBreaks breaks.length

/-! ## Quoted scalars -/

/-- What an escape stands for, behind its backslash. -/
def escape : Scan (List Char) := do
  match ← Scan.next with
  | '0' => return ['\x00']
  | 'a' => return ['\x07']
  | 'b' => return ['\x08']
  | 't' => return ['\t']
  | '\t' => return ['\t']
  | 'n' => return ['\n']
  | 'v' => return ['\x0b']
  | 'f' => return ['\x0c']
  | 'r' => return ['\r']
  | 'e' => return ['\x1b']
  | ' ' => return [' ']
  | '"' => return ['"']
  | '/' => return ['/']
  | '\\' => return ['\\']
  | 'N' => return ['\u0085']
  | '_' => return ['\u00A0']
  | 'L' => return ['\u2028']
  | 'P' => return ['\u2029']
  | 'x' => return [← Scan.hexChar 2]
  | 'u' => return [← Scan.hexChar 4]
  | 'U' => return [← Scan.hexChar 8]
  | '\n' =>
    -- an escaped end of a line joins it with the next, but for the blanks there
    blanks
    return []
  | _ => failure

/-- A part of a scalar between double quotes. -/
def doublePart : Scan (List Char) :=
  foldBreaks <|> do
    let c ← Scan.satisfy fun c => c != '"' && c != '\n'
    if c = '\\' then escape else return [c]

/-- A part of a scalar between single quotes, where two quotes stand for one. -/
def singlePart : Scan (List Char) :=
  foldBreaks <|> (do
    Scan.word ['\'', '\'']
    return ['\'']) <|> do
    return [← Scan.satisfy fun c => c != '\'' && c != '\n']

/-- A quoted scalar. -/
def quoted : Scan String := do
  let quote ← Scan.satisfy fun c => c == '"' || c == '\''
  let parts ← Scan.many (if quote = '"' then doublePart else singlePart)
  Scan.char quote
  return String.ofList parts.flatten

/-! ## Names, aliases and tags -/

/-- Whether a character may stand in the name of an anchor. -/
def isNameChar (c : Char) : Bool := !isBlankChar c && c != '\n' && !isFlowMark c

/-- A name behind its mark. -/
def nameBehind (mark : Char) : Scan String := do
  Scan.char mark
  return String.ofList (← Scan.takeWhile1 isNameChar)

/-- A tag. -/
def tag : Scan String := do
  Scan.char '!'
  return String.ofList ('!' :: (← Scan.takeWhile isNameChar))

/-- The name and the tag in front of a node, in either order, with the blanks behind them. -/
def properties : Scan (Option String × Option String) := do
  let first ← Scan.optional tag
  blanks
  let name ← Scan.optional (nameBehind '&')
  blanks
  match first with
  | some t => return (name, some t)
  | none =>
    let second ← Scan.optional tag
    blanks
    return (name, second)

/-- The setting with a name. -/
def named? (names : Settings) : Scan Setting := do
  let name ← nameBehind '*'
  Scan.ofOption (Setting.lookup name names)

/-- The table of members with different keys. -/
def table? (members : List (Setting × Setting)) : Option Setting := do
  let es ← members.foldlM (fun (es : Settings) (m : Setting × Setting) => do
    let key ← keyText? m.1
    if (Setting.lookup key es).isSome then none else some (Setting.insert key m.2 es)) []
  return .table es

end Yaml
end Concolic

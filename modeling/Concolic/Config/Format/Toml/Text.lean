import Concolic.Text.Number
import Concolic.Text.Scan

/-! # Texts and keys of TOML

White space, comments, the four kinds of quoted texts, and keys. -/

namespace Concolic
namespace Toml

/-- Whether a character may stand between tokens of a line. -/
def isBlankChar (c : Char) : Bool := c == ' ' || c == '\t'

/-- Passes over blanks. -/
def blanks : Scan Unit := Scan.skipWhile isBlankChar

/-- The end of a line. -/
def newline : Scan Unit := Scan.char '\n' <|> Scan.word ['\r', '\n']

/-- Whether a character may stand in comments and quoted texts as it is. -/
def isPlain (c : Char) : Bool := c == '\t' || (0x20 ≤ c.toNat && c.toNat != 0x7F)

/-- Passes over a comment. -/
def comment : Scan Unit := do
  Scan.char '#'
  Scan.skipWhile isPlain

/-- Passes over blanks, comments and ends of lines. -/
def space : Scan Unit := Scan.spaceOf isBlankChar (comment <|> newline)

/-! ## Quoted texts -/

/-- The character of an escape behind its backslash. -/
def escape : Scan Char := do
  match ← Scan.next with
  | 'b' => return '\x08'
  | 't' => return '\t'
  | 'n' => return '\n'
  | 'f' => return '\x0c'
  | 'r' => return '\r'
  | '"' => return '"'
  | '\\' => return '\\'
  | 'u' => Scan.hexChar 4
  | 'U' => Scan.hexChar 8
  | _ => failure

/-- A character of a text on one line. -/
def lineChar (quote : Char) : Scan Char := do
  let c ← Scan.satisfy fun c => isPlain c && c != quote
  if c = '\\' ∧ quote = '"' then escape else return c

/-- A text on one line. -/
def lineText (quote : Char) : Scan String := do
  Scan.char quote
  let cs ← Scan.many (lineChar quote)
  Scan.char quote
  return String.ofList cs

/-- The end of a line behind a backslash, with all white space behind it. -/
def lineJoint : Scan Unit := do
  blanks
  newline
  Scan.spaceOf isBlankChar newline

/-- A part of a text on several lines; three quotes are none. -/
def blockPart (quote : Char) : Scan (List Char) := do
  if ← Scan.ahead [quote, quote, quote] then failure
  else if ← Scan.ahead ['\r'] then
    newline
    return ['\n']
  else
    let c ← Scan.satisfy fun c => isPlain c || c == '\n'
    if c = '\\' ∧ quote = '"' then
      (do lineJoint; return []) <|> do return [← escape]
    else return [c]

/-- A text on several lines. One or two quotes may stand before the closing ones. -/
def blockText (quote : Char) : Scan String := do
  Scan.word [quote, quote, quote]
  let _ ← Scan.optional newline
  let parts ← Scan.many (blockPart quote)
  let quotes ← Scan.takeWhile (· == quote)
  if 3 ≤ quotes.length ∧ quotes.length ≤ 5 then
    return String.ofList (parts.flatten ++ quotes.drop 3)
  else failure

/-- A quoted text. -/
def text (quote : Char) : Scan String := do
  if ← Scan.ahead [quote, quote, quote] then blockText quote else lineText quote

/-! ## Keys -/

/-- Whether a character may stand in a bare key. -/
def isKeyChar (c : Char) : Bool := c.isAlphanum || c == '_' || c == '-'

/-- A part of a key. -/
def keyPart : Scan String := do
  match ← Scan.peek? with
  | some '"' => lineText '"'
  | some '\'' => lineText '\''
  | _ => return String.ofList (← Scan.takeWhile1 isKeyChar)

/-- A key: its parts between points. -/
def key : Scan (List String) := Scan.separated1 keyPart do
  blanks
  Scan.char '.'
  blanks

end Toml
end Concolic

import Concolic.Config.Setting
import Concolic.Text.Blank
import Concolic.Text.Scan

/-! # Settings in sections

A configuration in sections has lines `key = value` or `key: value`; a line `[name]` starts a
section, which is a table. All values are texts. A comment starts at the front of a line, a key ends
at its separator only, and a section that is written again replaces the one before. -/

namespace Concolic
namespace Ini

/-- A text without the white space at both ends. -/
def trim (cs : List Char) : List Char :=
  ((cs.dropWhile isWhiteSpace).reverse.dropWhile isWhiteSpace).reverse

/-- A text without the white space at its end. -/
def trimEnd (cs : List Char) : List Char := (cs.reverse.dropWhile isWhiteSpace).reverse

/-- What an escape stands for, behind its backslash. -/
def escape : Scan (List Char) := do
  match ← Scan.next with
  | '0' => return ['\x00']
  | 'a' => return ['\x07']
  | 'b' => return ['\x08']
  | 't' => return ['\t']
  | 'r' => return ['\r']
  | 'n' => return ['\n']
  | '\n' => return []
  | 'x' => return [← Scan.hexChar 4]
  | c => return [c]

/-- A character of a text that has not ended, or an escape. -/
def part (ends : Char → Bool) : Scan (List Char) := do
  let c ← Scan.satisfy (!ends ·)
  if c = '\\' then escape else return [c]

/-- A text up to a character that ends it. -/
def textUpTo (ends : Char → Bool) : Scan (List Char) := do
  return (← Scan.many (part ends)).flatten

/-- A text up to the given character, and over it. -/
def enclosed (last : Char) : Scan (List Char) := do
  let cs ← textUpTo (· == last)
  Scan.char last
  return cs

/-- Whether a character ends a line. -/
def isLineEnd (c : Char) : Bool := c == '\n' || c == '\r'

/-- A part of a value between quotes. -/
def quoted : Scan (List Char) := do
  let quote ← Scan.satisfy fun c => c == '"' || c == '\''
  enclosed quote

/-- A value up to the end of its line. -/
def value : Scan String := do
  Scan.skipWhile fun c => isWhiteSpace c && !isLineEnd c
  let opening ← Scan.many quoted
  if (← Scan.ahead ['"']) || (← Scan.ahead ['\'']) then failure
  else
    let rest ← textUpTo isLineEnd
    if ← Scan.ahead ['\\'] then failure
    else
      let closing := if opening.isEmpty then trim rest else trimEnd rest
      return String.ofList (opening.flatten ++ closing)

/-- What a line of a configuration says. -/
inductive Item where
  /-- A section starts. -/
  | header (name : String)
  /-- A key has a value. -/
  | entry (key : String) (value : String)
  /-- Nothing. -/
  | comment
deriving DecidableEq, Repr

/-- Whether the text behind white space is at the front of a line, and that text. -/
def skipSpace (front : Bool) : List Char → Bool × List Char
  | [] => (front, [])
  | c :: cs => if isWhiteSpace c then skipSpace (c == '\n') cs else (front, c :: cs)

/-- An item, at the front of a line or not. -/
def item (front : Bool) : Scan Item := do
  match ← Scan.peek? with
  | none => failure
  | some c =>
    if c = ';' ∨ c = '#' then
      if front then
        Scan.skipWhile (· != '\n')
        return .comment
      else failure
    else if c = '[' then
      Scan.char '['
      return .header (String.ofList (trim (← enclosed ']')))
    else
      let key ← textUpTo fun c => c == '=' || c == ':'
      let _ ← Scan.satisfy fun c => c == '=' || c == ':'
      if (trim key).isEmpty then failure
      else return .entry (String.ofList (trim key)) (← value)

/-- The items of a text, each of which takes some of it. -/
def items (front : Bool) (cs : List Char) : Option (List Item) :=
  match skipSpace front cs with
  | (_, []) => some []
  | (front, text) =>
    match (item front).run text with
    | none => none
    | some (first, rest) =>
      if rest.length < cs.length then (items false rest).map (first :: ·) else none
termination_by cs.length

/-- Entries outside of sections, and sections with their entries, the last first. -/
structure Sections where
  /-- The entries before the first section. -/
  general : Settings := []
  /-- The sections, the last first. -/
  named : List (String × Settings) := []

namespace Sections

/-- Adds what an item says. -/
def add (s : Sections) : Item → Sections
  | .comment => s
  | .header name => { s with named := (name, []) :: s.named }
  | .entry key value =>
    match s.named with
    | [] => { s with general := Setting.insert key (.text value) s.general }
    | (name, es) :: rest => { s with named := (name, Setting.insert key (.text value) es) :: rest }

/-- The table of all entries and sections. -/
def table (s : Sections) : Setting :=
  .table (s.named.reverse.foldl (fun es e => Setting.insert e.1 (.table e.2) es) s.general)

end Sections

/-- Reads a configuration in sections. -/
def read? (cs : List Char) : Option Setting :=
  (items true cs).map fun all => (all.foldl Sections.add {}).table

end Ini
end Concolic

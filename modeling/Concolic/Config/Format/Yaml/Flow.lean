import Concolic.Config.Format.Yaml.Scalar

/-! # Collections of YAML between brackets

Sequences between brackets and maps between braces, over any number of lines. -/

namespace Concolic
namespace Yaml

/-- Passes over blanks, ends of lines, and comments behind them. -/
def flowSpace : Scan Unit := do
  let _ ← Scan.many (do
    let _ ← Scan.takeWhile1 fun c => isBlankChar c || c == '\n'
    let _ ← Scan.optional (do
      Scan.char '#'
      Scan.skipWhile (· != '\n')))

/-- A character between parts of a collection, with the space behind it. -/
def flowMark (c : Char) : Scan Unit := do
  Scan.char c
  flowSpace

/-- What a reader finds, with the space behind it. -/
def spaced {α : Type} (p : Scan α) : Scan α := do
  let a ← p
  flowSpace
  return a

/-- A plain scalar over any number of lines. -/
def flowPlain : Scan (List Char) := do
  let first ← plainLine true
  let more ← Scan.many (do
    let breaks ← foldBreaks
    return breaks ++ (← plainLine true))
  return first ++ more.flatten

/-- The colon behind a key, with the space behind it; a value follows unless the member ends. -/
def memberValue (value : Scan Setting) : Scan Setting := do
  flowMark ':'
  match ← Scan.peek? with
  | some ',' => return .nil
  | some ']' => return .nil
  | some '\x7d' => return .nil
  | _ => value

/-- A node in a collection. -/
def flowNode (names : Settings) : (fuel : Nat) → Scan Setting
  | 0 => failure
  | fuel + 1 => do
    let (_, tag) ← properties
    match ← Scan.peek? with
    | none => failure
    | some c =>
      if c = '[' then
        flowMark '['
        let items ← Scan.listed (do
          -- an item may be a table of one member, without braces
          let first ← spaced (flowNode names fuel)
          match ← Scan.optional (memberValue (spaced (flowNode names fuel))) with
          | none => return first
          | some second => Scan.ofOption (table? [(first, second)])) (flowMark ',')
        Scan.char ']'
        return .array items
      else if c = '\x7b' then
        flowMark '\x7b'
        let members ← Scan.listed (do
          let key ← spaced (flowNode names fuel)
          let second ← Scan.optional (memberValue (spaced (flowNode names fuel)))
          return (key, second.getD .nil)) (flowMark ',')
        Scan.char '\x7d'
        Scan.ofOption (table? members)
      else if c = '"' ∨ c = '\'' then return .text (← quoted)
      else if c = '*' then named? names
      else Scan.ofOption (ofTagged? tag (← flowPlain))

end Yaml
end Concolic

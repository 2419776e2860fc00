import Concolic.Config.Format.Toml.Scalar
import Concolic.Config.Format.Toml.Tables

/-! # Settings in TOML

A document is a list of statements on lines of their own: keys with values, and the headers of the
tables that the keys behind them belong to. -/

namespace Concolic
namespace Toml

/-! ## Values -/

/-- The table of keys with values between braces. -/
def inlineTable (members : List (List String × Setting)) : Option Setting := do
  let es ← members.foldlM (fun es m => define m.2 m.1 es) []
  return .table (Node.settings es)

/-- A value. -/
def value : (fuel : Nat) → Scan Setting
  | 0 => failure
  | fuel + 1 => do
    match ← Scan.peek? with
    | some '"' => return .text (← text '"')
    | some '\'' => return .text (← text '\'')
    | some '[' =>
      Scan.char '['
      space
      let items ← Scan.listed (do
        let v ← value fuel
        space
        return v) (do
          Scan.char ','
          space)
      Scan.char ']'
      return .array items
    | some '\x7b' =>
      Scan.char '\x7b'
      blanks
      -- an inline table has no comma at its end
      let members ← Scan.optional (Scan.separated1 (do
        let k ← key
        blanks
        Scan.char '='
        blanks
        let v ← value fuel
        blanks
        return (k, v)) (do
          Scan.char ','
          blanks))
      Scan.char '\x7d'
      Scan.ofOption (inlineTable (members.getD []))
    | _ => bare

/-! ## Documents -/

/-- What a line of a document says. -/
inductive Statement where
  /-- The keys behind belong to a table. -/
  | table (keys : List String)
  /-- The keys behind belong to the next table of an array. -/
  | item (keys : List String)
  /-- A key has a value. -/
  | entry (key : List String) (value : Setting)

/-- The keys of a header between its brackets. -/
def headerKeys : Scan (List String) := do
  blanks
  let keys ← key
  blanks
  return keys

/-- A statement. -/
def statement (fuel : Nat) : Scan Statement := do
  if ← Scan.ahead ['[', '['] then
    Scan.word ['[', '[']
    let keys ← headerKeys
    Scan.word [']', ']']
    return .item keys
  else if ← Scan.ahead ['['] then
    Scan.char '['
    let keys ← headerKeys
    Scan.char ']'
    return .table keys
  else
    let k ← key
    blanks
    Scan.char '='
    blanks
    return .entry k (← value fuel)

/-- The statement of a line, if it has one. -/
def line (fuel : Nat) : Scan (Option Statement) := do
  blanks
  let said ← Scan.optional (statement fuel)
  blanks
  let _ ← Scan.optional comment
  return said

/-- The statements of a document. -/
def statements (fuel : Nat) : Scan (List Statement) := do
  let _ ← Scan.optional (Scan.char '\uFEFF')
  return (← Scan.separated1 (line fuel) newline).filterMap id

/-- A document that is being read: its tables and the keys of the one that keys belong to. -/
structure Document where
  /-- The tables so far. -/
  root : Entries := []
  /-- The keys of the latest header. -/
  current : List String := []

/-- Adds what a statement says. -/
def Document.add (d : Document) : Statement → Option Document
  | .table keys => do
    let root ← within (openTable (keys.getLast?.getD "")) keys.dropLast d.root
    return ⟨root, keys⟩
  | .item keys => do
    let root ← within (openItem (keys.getLast?.getD "")) keys.dropLast d.root
    return ⟨root, keys⟩
  | .entry key value => do
    let root ← within (define value key) d.current d.root
    return { d with root := root }

/-- Reads a configuration in TOML. -/
def read? (cs : List Char) : Option Setting := do
  let all ← (statements (cs.length + 1)).whole cs
  let d ← all.foldlM Document.add {}
  return .table (Node.settings d.root)

end Toml
end Concolic

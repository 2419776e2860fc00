import Concolic.Config.Setting

/-! # Tables of TOML

A table may be written in several parts: by the headers of its own table and of tables inside it,
and by keys with points. No part is written twice. A `Node` keeps how each table has come about,
which says whether more may be added (`define`, `openTable`, `openItem`). -/

namespace Concolic
namespace Toml

/-- How a table has come about. -/
inductive Origin where
  /-- It is on the way to a table with a header. -/
  | implied
  /-- It has a header. -/
  | header
  /-- It is on the way of a key with points. -/
  | dotted
deriving DecidableEq, Repr

/-- What a key of a table holds while the table is written. -/
inductive Node where
  /-- A finished value. -/
  | value (s : Setting)
  /-- A table. -/
  | table (origin : Origin) (entries : List (String × Node))
  /-- An array of tables, the last first. -/
  | tables (items : List (List (String × Node)))

/-- A table that is being written. -/
abbrev Entries := List (String × Node)

namespace Node

/-- The node at a key. -/
def lookup (key : String) : Entries → Option Node
  | [] => none
  | (k, node) :: rest => if k = key then some node else lookup key rest

/-- The entries with another node at a key that is there. -/
def replace (key : String) (node : Node) (es : Entries) : Entries :=
  es.map fun e => if e.1 = key then (key, node) else e

mutual

/-- The setting of a node. -/
def setting : Node → Setting
  | value s => s
  | table _ es => .table (settings es)
  | tables is => .array (arrayOf is).reverse

/-- The settings of entries. -/
def settings : List (String × Node) → Settings
  | [] => []
  | (k, node) :: rest => (k, setting node) :: settings rest

/-- The settings of tables of an array. -/
def arrayOf : List (List (String × Node)) → List Setting
  | [] => []
  | es :: rest => .table (settings es) :: arrayOf rest

end

end Node

/-- Gives a key with points its value. A table that has a header, or is implied by one, takes no
value through points. -/
def define (value : Setting) : (key : List String) → Entries → Option Entries
  | [], _ => none
  | [key], es =>
    match Node.lookup key es with
    | some _ => none
    | none => some (es ++ [(key, .value value)])
  | key :: rest, es =>
    match Node.lookup key es with
    | none => (define value rest []).map fun inner => es ++ [(key, .table .dotted inner)]
    | some (.table origin inner) =>
      if origin = .header ∨ (origin = .implied ∧ rest.length = 1) then none
      else (define value rest inner).map fun inner => Node.replace key (.table origin inner) es
    | some _ => none

/-- Changes the table behind a header's keys; the last table of an array stands for the array. -/
def within (change : Entries → Option Entries) : (keys : List String) → Entries → Option Entries
  | [], es => change es
  | key :: rest, es =>
    match Node.lookup key es with
    | none => (within change rest []).map fun inner => es ++ [(key, .table .implied inner)]
    | some (.table origin inner) =>
      (within change rest inner).map fun inner => Node.replace key (.table origin inner) es
    | some (.tables (last :: before)) =>
      (within change rest last).map fun inner => Node.replace key (.tables (inner :: before)) es
    | some _ => none

/-- Starts the table of a header. -/
def openTable (key : String) (es : Entries) : Option Entries :=
  match Node.lookup key es with
  | none => some (es ++ [(key, .table .header [])])
  | some (.table .implied inner) => some (Node.replace key (.table .header inner) es)
  | some _ => none

/-- Starts the next table of an array. -/
def openItem (key : String) (es : Entries) : Option Entries :=
  match Node.lookup key es with
  | none => some (es ++ [(key, .tables [[]])])
  | some (.tables items) => some (Node.replace key (.tables ([] :: items)) es)
  | some _ => none

end Toml
end Concolic

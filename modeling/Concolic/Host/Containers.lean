import Concolic.Host.Value

/-! # Lists and tables of host values

Appending to a list, and looking up and inserting in a table. A table finds the first entry whose
key equals the wanted one; inserting replaces the value of that entry, and adds an entry at the end
where there is none. Appending and adding set the size word to the number of elements; replacing
leaves it. -/

namespace Concolic

/-- The list of `items` with `item` added at its end; its size word is counted anew. -/
def Value.push (items : List Value) (item : Value) : Value := .ofItems (items ++ [item])

/-- A table of keys and values in order of their first insertion. -/
structure Dict where
  /-- The size word. -/
  used : Int64 := 0
  /-- Keys with their values. -/
  entries : List (Value × Value) := []
deriving Repr, Inhabited

namespace Dict

/-- The value of the first entry whose key equals `key`. -/
def lookup (key : Value) : List (Value × Value) → Option Value
  | [] => none
  | (k, v) :: rest => if k.equal key then some v else lookup key rest

/-- The entries with `value` in the first one whose key equals `key`. -/
def replace (key value : Value) : List (Value × Value) → List (Value × Value)
  | [] => []
  | (k, v) :: rest =>
    if k.equal key then (k, value) :: rest else (k, v) :: replace key value rest

/-- The value at `key`. -/
def get? (d : Dict) (key : Value) : Option Value := lookup key d.entries

/-- `d` with `value` at `key`, and the value that was there before. Only a new key has the entries
counted anew. -/
def insert (d : Dict) (key value : Value) : Option Value × Dict :=
  match d.get? key with
  | some old => (some old, { d with entries := replace key value d.entries })
  | none => (none, ⟨sizeWordOf (d.entries.length + 1), d.entries ++ [(key, value)]⟩)

/-- The table made by inserting `entries` in order, so that later values stand. -/
def ofEntries (entries : List (Value × Value)) : Dict :=
  entries.foldl (fun d e => (d.insert e.1 e.2).2) {}

/-- The table as a host value. -/
def value (d : Dict) : Value := .dict d.used d.entries

end Dict
end Concolic

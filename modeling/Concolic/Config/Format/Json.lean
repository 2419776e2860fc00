import Concolic.Config.Setting
import Concolic.Json.Reader

/-! # Settings in JSON

A configuration in JSON is a JSON text. Integers beyond 64-bit words are doubles, and of members
with one key the last counts. -/

namespace Concolic
namespace Setting

mutual

/-- The setting that a JSON value stands for. -/
def ofJson : Json → Setting
  | .null => nil
  | .bool b => bool b
  | .int n =>
    match Number.toInt64? n with
    | some z => int z
    | none => float (Binary64.ofDecimal (n < 0) n.natAbs 0)
  | .float x => float x
  | .string s => text s
  | .array items => array (ofJsonItems items)
  | .object members => table (ofJsonMembers [] members)

/-- The settings of the items of a JSON array. -/
def ofJsonItems : List Json → List Setting
  | [] => []
  | v :: vs => ofJson v :: ofJsonItems vs

/-- The entries of the members of a JSON object behind others. -/
def ofJsonMembers (es : Settings) : List (String × Json) → Settings
  | [] => es
  | (key, v) :: rest => ofJsonMembers (insert key (ofJson v) es) rest

end

mutual

/-- The JSON value of a setting. -/
def json : Setting → Json
  | nil => .null
  | bool b => .bool b
  | int n => .int n.toInt
  | float x => .float x
  | text s => .string s
  | array is => .array (jsonItems is)
  | table es => .object (jsonMembers es)

/-- The JSON values of items. -/
def jsonItems : List Setting → List Json
  | [] => []
  | s :: rest => json s :: jsonItems rest

/-- The members of a JSON object with the given entries. -/
def jsonMembers : Settings → List (String × Json)
  | [] => []
  | (key, s) :: rest => (key, json s) :: jsonMembers rest

end

/-- Reads a configuration in JSON. -/
def readJson? (cs : List Char) : Option Setting :=
  match Json.read cs with
  | .ok v => some (ofJson v)
  | .error _ => none

end Setting
end Concolic

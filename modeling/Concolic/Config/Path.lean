import Concolic.Config.Setting
import Concolic.Text.Scan

/-! # Paths of settings

A path names a place in nested tables and arrays: a key, then keys behind points and positions
between brackets, as in `a.b[0].c`. Laying a setting over the place at a path makes the tables and
arrays on the way that are not there. -/

namespace Concolic

/-- One part of a path behind its first key. -/
inductive PathStep where
  /-- A key of a table. -/
  | key (name : String)
  /-- A position in an array; a negative one counts from the end. -/
  | index (n : Int64)
deriving DecidableEq, Repr

/-- A place in nested tables and arrays. -/
structure SettingPath where
  /-- The key in the outermost table. -/
  root : String
  /-- The way on from there. -/
  steps : List PathStep := []
deriving DecidableEq, Repr

namespace SettingPath

/-! ## Reading paths -/

/-- Whether a character may stand in a key. -/
def isKeyChar (c : Char) : Bool := c.isAlphanum || c == '_' || c == '-'

/-- Whether a character may stand beside a position. -/
def isPadding (c : Char) : Bool := c == ' ' || c == '\t'

/-- Reads a key. -/
def readKey : Scan String := do
  return String.ofList (← Scan.takeWhile1 isKeyChar)

/-- Reads a position behind its opening bracket. -/
def readIndex : Scan Int64 := do
  Scan.skipWhile isPadding
  let sign ← Scan.optional (Scan.char '-')
  let digits ← Scan.takeWhile1 Char.isDigit
  Scan.skipWhile isPadding
  Scan.char ']'
  Scan.ofOption (Number.int64? 10 (if sign.isSome then '-' :: digits else digits))

/-- Reads a part of a path behind the first key. -/
def readStep : Scan PathStep := do
  match ← Scan.next with
  | '.' => return .key (← readKey)
  | '[' => return .index (← readIndex)
  | _ => failure

/-- Reads a path. -/
def readPath : Scan SettingPath := do
  let root ← readKey
  let steps ← Scan.many readStep
  return ⟨root, steps⟩

/-- The path that `s` spells. -/
def ofText? (s : String) : Option SettingPath := readPath.whole s.toList

/-! ## Settings at places -/

/-- The item at the position `n`, from the front or, for a negative one, from the end. -/
def item? (n : Int64) (items : List Setting) : Option Setting :=
  if 0 ≤ n then items[n.toInt.toNat]?
  else items.reverse[n.toInt.natAbs - 1]?

/-- The setting at the end of a way: behind each key or position in turn. -/
def at? : List PathStep → Setting → Option Setting
  | [], s => some s
  | .key name :: steps, s => (Setting.lookup name s.entries).bind (at? steps)
  | .index n :: steps, s => (item? n s.items).bind (at? steps)

/-- The setting at the place of `p` in `es`. -/
def find? (p : SettingPath) (es : Settings) : Option Setting :=
  (Setting.lookup p.root es).bind (at? p.steps)

/-! ## Laying settings over places -/

/-- `items` with the one at the position `n` changed; they are extended with empty items as far as
needed, at the end for positions from the front and at the front for positions from the end. -/
def changeItem (change : Setting → Setting) (n : Int64) (items : List Setting) : List Setting :=
  if 0 ≤ n then
    let k := n.toInt.toNat
    let padded := items ++ List.replicate (k + 1 - items.length) .nil
    padded.modify k change
  else
    let back := n.toInt.natAbs
    let padded := List.replicate (back - items.length) .nil ++ items
    padded.modify (padded.length - back) change

/-- Changes the setting at the end of a way. -/
def changeAt (change : Setting → Setting) : List PathStep → Setting → Setting
  | [], s => change s
  | .key name :: steps, s =>
    .table (Setting.insert name (changeAt change steps (Setting.find s.entries name)) s.entries)
  | .index n :: steps, s => .array (changeItem (changeAt change steps) n s.items)

/-- `es` with `new` laid over the place at `p`. -/
def lay (p : SettingPath) (new : Setting) (es : Settings) : Settings :=
  Setting.insert p.root
    (changeAt (fun old => old.overlaid new) p.steps (Setting.find es p.root)) es

end SettingPath
end Concolic

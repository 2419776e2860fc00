import Concolic.Text.Number

/-! # Settings

The values of a configuration: nothing, scalars, arrays and tables. A setting laid over another
replaces it, but a table laid over a table leaves the keys it does not name. -/

namespace Concolic

/-- A value of a configuration. -/
inductive Setting where
  | nil
  | bool (b : Bool)
  | int (n : Int64)
  | float (x : Binary64)
  | text (s : String)
  | array (items : List Setting)
  | table (entries : List (String × Setting))
deriving Repr, Inhabited

/-- Settings by their keys; the first of those with one key counts. -/
abbrev Settings := List (String × Setting)

namespace Setting

/-- The entries of a table; what is no table has none. -/
def entries : Setting → Settings
  | table es => es
  | _ => []

/-- The items of an array; what is no array has none. -/
def items : Setting → List Setting
  | array is => is
  | _ => []

/-- Whether a setting is a scalar. -/
def isScalar : Setting → Bool
  | bool _ | int _ | float _ | text _ => true
  | _ => false

/-- The setting at `key`. -/
def lookup (key : String) : Settings → Option Setting
  | [] => none
  | (k, s) :: rest => if k = key then some s else lookup key rest

/-- The entries with `s` at `key`, in place of the one that is there. -/
def insert (key : String) (s : Setting) : Settings → Settings
  | [] => [(key, s)]
  | (k, old) :: rest => if k = key then (k, s) :: rest else (k, old) :: insert key s rest

/-- `lookup key (insert key s es) = some s`, and every other key keeps its setting. -/
theorem lookup_insert (key key' : String) (s : Setting) (es : Settings) :
    lookup key' (insert key s es) = if key = key' then some s else lookup key' es := by
  induction es with
  | nil => rfl
  | cons e rest ih =>
    obtain ⟨k, old⟩ := e
    by_cases h : k = key
    · subst h
      by_cases h' : k = key' <;> simp [insert, lookup, h']
    · by_cases h' : k = key'
      · have hne : key ≠ key' := fun heq => h (h'.trans heq.symm)
        subst h'
        simp [insert, lookup, h, hne]
      · simp [insert, lookup, h, h', ih]

/-- The setting at `key` of `es`, or `nil`. -/
def find (es : Settings) (key : String) : Setting := (lookup key es).getD nil

/-! ## Laying settings over others -/

mutual

/-- A setting laid over `old`: tables are joined key by key, and anything else is replaced. -/
def overlaid (old : Setting) : Setting → Setting
  | nil => nil
  | bool b => bool b
  | int n => int n
  | float x => float x
  | text s => text s
  | array is => array is
  | table es => table (overlaidEntries old.entries es)

/-- Entries laid over `old`, one key after the other. -/
def overlaidEntries (old : Settings) : Settings → Settings
  | [] => old
  | (key, s) :: rest => overlaidEntries (insert key (overlaid (find old key) s) old) rest

end

/-! ## Reading integers -/

/-- A text in lower case, as far as its letters are ASCII. -/
def lowerAscii (s : String) : String := String.ofList (s.toList.map Char.toLower)

/-- The integer that a text stands for: a truth value counts as one or zero. -/
def int64OfText? (s : String) : Option Int64 :=
  let word := lowerAscii s
  if word = "true" ∨ word = "on" ∨ word = "yes" then some 1
  else if word = "false" ∨ word = "off" ∨ word = "no" then some 0
  else Number.int64? 10 s.toList

/-- The integer that a setting stands for; doubles are rounded. -/
def toInt64? : Setting → Option Int64
  | nil => none
  | bool b => some (if b then 1 else 0)
  | int n => some n
  | float x => some x.roundToInt64
  | text s => int64OfText? s
  | array _ => none
  | table _ => none

end Setting
end Concolic

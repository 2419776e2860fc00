/-! # Tags of buffers

A tag is the letter in a buffer's name that says how its bytes are read. -/

namespace Concolic

/-- How the bytes of a buffer are read. -/
inductive Tag where
  /-- A 32-bit integer. -/
  | int
  /-- A 64-bit word that holds the size of an object. -/
  | size
  /-- A byte string. -/
  | str
  /-- A string of 32-bit text units. -/
  | unicode
  /-- Plain bytes; names without a tag are read so. -/
  | bytes
deriving DecidableEq, Repr

namespace Tag

/-- The letter of a tag. -/
def char : Tag → Char
  | int => 'i'
  | size => 'l'
  | str => 's'
  | unicode => 'u'
  | bytes => 'b'

/-- The tag whose letter is `c`. -/
def ofChar? (c : Char) : Option Tag :=
  if c = 'i' then some int
  else if c = 'l' then some size
  else if c = 's' then some str
  else if c = 'u' then some unicode
  else if c = 'b' then some bytes
  else none

/-- The tag of a name that has none. -/
def default : Tag := bytes

/-- The letter of a tag as text. -/
def text (t : Tag) : String := String.ofList [t.char]

/-- `ofChar? c = some t` iff `t.char = c`. -/
theorem ofChar?_eq_some_iff {c : Char} {t : Tag} : ofChar? c = some t ↔ t.char = c := by
  constructor
  · intro h
    grind [ofChar?, char]
  · rintro rfl
    cases t <;> rfl

@[simp] theorem ofChar?_char (t : Tag) : ofChar? t.char = some t := ofChar?_eq_some_iff.2 rfl

/-- `t.char` is ASCII. -/
theorem char_lt (t : Tag) : t.char.toNat < 128 := by
  cases t <;> decide

end Tag
end Concolic

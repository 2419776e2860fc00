import Concolic.Text.Number

/-! # Scanning text

Readers that take what they read from the front of a text, or refuse the text. A reader that refuses
has taken nothing, so the next alternative starts at the same place. -/

namespace Concolic

/-- A reader: from a text to what is read at its front and the text behind it. -/
abbrev Scan (α : Type) := StateT (List Char) Option α

namespace Scan

variable {α β : Type}

/-- What `p` finds in a text that it reads to the end. -/
def whole (p : Scan α) (cs : List Char) : Option α :=
  match p.run cs with
  | some (a, []) => some a
  | _ => none

/-- The next character, which stays in place. -/
def peek? : Scan (Option Char) := fun cs => some (cs.head?, cs)

/-- The next character. -/
def next : Scan Char
  | [] => none
  | c :: cs => some (c, cs)

/-- The next character, which has a property. -/
def satisfy (p : Char → Bool) : Scan Char
  | [] => none
  | c :: cs => if p c then some (c, cs) else none

/-- One given character. -/
def char (c : Char) : Scan Unit := do
  let _ ← satisfy (· == c)

/-- A given word. -/
def word : List Char → Scan Unit
  | [] => pure ()
  | c :: cs => do
    char c
    word cs

/-- Whether the text goes on with a word, which stays in place. -/
def ahead (w : List Char) : Scan Bool := fun cs => some (w.isPrefixOf cs, cs)

/-- The characters up to the first without `p`. -/
def takeWhile (p : Char → Bool) : Scan (List Char) := fun cs => some (cs.span p)

/-- The characters up to the first without `p`, of which there is at least one. -/
def takeWhile1 (p : Char → Bool) : Scan (List Char) := do
  let c ← satisfy p
  let cs ← takeWhile p
  return c :: cs

/-- Passes over the characters up to the first without a property. -/
def skipWhile (p : Char → Bool) : Scan Unit := fun cs => some ((), cs.dropWhile p)

/-- Passes over the text up to the word `w`, and over `w`. -/
def skipPast (w : List Char) : Scan Unit
  | [] => none
  | c :: cs =>
    if w.isPrefixOf (c :: cs) then some ((), (c :: cs).drop w.length) else skipPast w cs

/-- What `p` finds, or `none` where it refuses. -/
def optional (p : Scan α) : Scan (Option α) := fun cs =>
  match p.run cs with
  | some (a, rest) => some (some a, rest)
  | none => some (none, cs)

/-- What `p` finds, or `absent` where it refuses. -/
def getD (p : Scan α) (absent : α) : Scan α := do
  return (← optional p).getD absent

/-- What `p` finds in a row in a text, at most `limit` times, and the text behind. -/
def manyUpTo (p : Scan α) : (limit : Nat) → List Char → List α × List Char
  | 0, cs => ([], cs)
  | limit + 1, cs =>
    match p.run cs with
    | none => ([], cs)
    | some (a, rest) =>
      let (more, rest) := manyUpTo p limit rest
      (a :: more, rest)

/-- What `p` finds in a row. A reader that takes text each time finds no more things than the text
has characters, which is the limit here. -/
def many (p : Scan α) : Scan (List α) := fun cs =>
  match p.run cs with
  | none => some ([], cs)
  | some (a, rest) =>
    let (more, rest) := manyUpTo p rest.length rest
    some (a :: more, rest)

/-- What `p` finds in a row, at least once. -/
def many1 (p : Scan α) : Scan (List α) := do
  let first ← p
  let more ← many p
  return first :: more

/-- What `item` finds with a `separator` between each two. -/
def separated1 (item : Scan α) (separator : Scan β) : Scan (List α) := do
  let first ← item
  let more ← many (do
    let _ ← separator
    item)
  return first :: more

/-- What `item` finds with a `separator` between each two and perhaps one behind the last, or
nothing. -/
def listed (item : Scan α) (separator : Scan β) : Scan (List α) := do
  match ← optional (separated1 item separator) with
  | none => return []
  | some items =>
    let _ ← optional separator
    return items

/-- A run of a number of characters with a property. -/
def count (n : Nat) (p : Char → Bool) : Scan (List Char) :=
  match n with
  | 0 => pure []
  | n + 1 => do
    let c ← satisfy p
    let cs ← count n p
    return c :: cs

/-- Passes over white space and comments. -/
def spaceOf (isSpace : Char → Bool) (comment : Scan Unit) : Scan Unit := do
  let _ ← many ((do let _ ← takeWhile1 isSpace) <|> comment)

/-- A value that is there, or refusal. -/
def ofOption : Option α → Scan α
  | some a => pure a
  | none => failure

/-! ## Characters by their numbers -/

/-- The number written in so many hexadecimal digits. -/
def hex (digits : Nat) : Scan Nat := do
  ofOption (Number.natural? 16 (← count digits (Number.isDigitOf 16)))

/-- The character of a number, if it is one. -/
def charOf (n : Nat) : Scan Char := if n.isValidChar then pure (Char.ofNat n) else failure

/-- The character whose number is written in so many hexadecimal digits. -/
def hexChar (digits : Nat) : Scan Char := do
  charOf (← hex digits)

/-! ## Whole texts -/

/-- `p.whole cs = some a` iff `p` reads `a` from `cs` with nothing left. -/
theorem whole_eq_some_iff {p : Scan α} {cs : List Char} {a : α} :
    p.whole cs = some a ↔ p.run cs = some (a, []) := by
  unfold whole
  split
  · rename_i b h
    rw [h]
    simp
  · rename_i h
    constructor
    · intro h'
      cases h'
    · exact fun h' => absurd h' (h a)

end Scan
end Concolic

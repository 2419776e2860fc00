import Concolic.Binary64

/-! # JSON values

The values of JSON text, the faults of text that is none, and what the two readers share: white
space, words such as `null`, and the end of the text. -/

namespace Concolic

/-- A value of JSON text; an object keeps its members in the order in which they are written. -/
inductive Json where
  | null
  | bool (b : Bool)
  | int (n : Int)
  | float (x : Binary64)
  | string (text : String)
  | array (items : List Json)
  | object (members : List (String × Json))
deriving Repr, Inhabited

namespace Json

/-- Why a text is refused. -/
inductive Fault where
  /-- The text is not JSON. -/
  | malformed
  /-- The text is JSON so far but not what is asked for. -/
  | unexpected
  /-- The text ends too soon. -/
  | truncated
deriving DecidableEq, Repr

/-- What a value is read for. -/
inductive Mode where
  /-- The value is wanted. -/
  | exact
  /-- The value is passed over: only its extent matters. Escapes of lone surrogates pass, numbers
  and nesting have no limit, and a number cut short by the end of the text is malformed. -/
  | skim
deriving DecidableEq, Repr

/-- The result of reading from the front of a text: what is read and the text behind it. -/
abbrev Read (α : Type) := Except Fault (α × List Char)

/-- The white space between the tokens of JSON text. -/
def isSpace (c : Char) : Bool := c == ' ' || c == '\n' || c == '\t' || c == '\r'

/-- The text without the white space at its front. -/
def skipSpace : List Char → List Char
  | [] => []
  | c :: cs => if isSpace c then skipSpace cs else c :: cs

theorem length_skipSpace_le (cs : List Char) : (skipSpace cs).length ≤ cs.length := by
  induction cs with
  | nil => exact Nat.le_refl _
  | cons c cs ih =>
    simp only [skipSpace]
    split
    · exact Nat.le_succ_of_le ih
    · exact Nat.le_refl _

/-- If `skipSpace cs = c :: rest`, then `rest` is shorter than `cs`. -/
theorem length_lt_of_skipSpace {cs rest : List Char} {c : Char} (h : skipSpace cs = c :: rest) :
    rest.length < cs.length := by
  have hlength := length_skipSpace_le cs
  rw [h, List.length_cons] at hlength
  omega

/-- Reads the rest of a word whose first letter has been read. -/
def readWord : (word : List Char) → List Char → Except Fault (List Char)
  | [], cs => .ok cs
  | _ :: _, [] => .error .truncated
  | w :: word, c :: cs => if c = w then readWord word cs else .error .malformed

theorem length_readWord_le {word cs rest : List Char} (h : readWord word cs = .ok rest) :
    rest.length ≤ cs.length := by
  induction word generalizing cs with
  | nil =>
    simp only [readWord, Except.ok.injEq] at h
    exact h ▸ Nat.le_refl _
  | cons w word ih =>
    cases cs with
    | nil => simp [readWord] at h
    | cons c cs =>
      simp only [readWord] at h
      split at h
      · exact Nat.le_succ_of_le (ih h)
      · simp at h

/-- Accepts nothing but white space up to the end of the text. -/
def readEnd (cs : List Char) : Except Fault Unit :=
  match skipSpace cs with
  | [] => .ok ()
  | _ :: _ => .error .malformed

end Json
end Concolic

import Concolic.Tag
import Concolic.Text.Utf8

/-! # Names of buffers

A buffer is registered with the engine as `base.tag#qualifier`: the object it belongs to, how its
bytes are read, and which part of the object it holds. `BufferName.encode` refuses names that would
not read back, and `BufferName.decode` reads any text: it splits at the last separator and takes
what carries no tag as plain bytes. -/

namespace Concolic

/-- The text before and the text after the last `sep`. -/
def splitLast (sep : Char) : List Char → Option (List Char × List Char)
  | [] => none
  | c :: cs =>
    match splitLast sep cs with
    | some (before, after) => some (c :: before, after)
    | none => if c = sep then some ([], cs) else none

/-- Why a text is no name of a buffer. -/
inductive NameFault where
  /-- The qualifier has no character. -/
  | emptyQualifier
  /-- The qualifier would be cut at the separator it holds. -/
  | separatorInQualifier
  /-- The engine would end the name at the NUL. -/
  | interiorNul
  /-- Nothing follows the marker of the tag. -/
  | missingField
deriving DecidableEq, Repr

namespace NameFault

/-- The fault in words. -/
def message : NameFault → String
  | emptyQualifier => "empty qualifier"
  | separatorInQualifier => "qualifier contains the separator"
  | interiorNul => "interior NUL byte"
  | missingField => "missing field after the type tag"

end NameFault

/-- Why a name is refused. -/
inductive NameError where
  /-- The name does not fit the engine's buffer. -/
  | tooLong (length limit : Nat)
  /-- The name is not of the agreed form. -/
  | malformed (name : String) (fault : NameFault)
deriving DecidableEq, Repr

namespace NameError

/-- The error in words. -/
def message : NameError → String
  | tooLong length limit =>
    s!"Encoded name takes {length} bytes while at most {limit} bytes fit the engine buffer"
  | malformed name fault => s!"Malformed name `{name}`: {fault.message}"

end NameError

/-- The parts of a buffer's name. -/
structure BufferName where
  /-- The name of the object. -/
  base : String
  /-- The part of the object. -/
  qualifier : String
  /-- How the bytes are read. -/
  tag : Tag
deriving DecidableEq, Repr

namespace BufferName

/-- The size of the engine's buffer for a name. -/
def bufferSize : Nat := 256

/-- The greatest length of a name in bytes: the engine ends names with a NUL of one byte. -/
def byteLimit : Nat := bufferSize - 1

/-- The qualifier of the buffer that holds an object's content. -/
def valueQualifier : String := "value"

/-- The qualifier of the buffer that holds an object's size. -/
def sizeQualifier : String := "size"

/-- The character before the tag. -/
def separator : Char := '.'

/-- The character after the tag. -/
def marker : Char := '#'

/-! ## Encoding -/

/-- The characters of the composite name `base.tag#qualifier`. -/
def chars (n : BufferName) : List Char :=
  n.base.toList ++ separator :: n.tag.char :: marker :: n.qualifier.toList

/-- The composite name. -/
def text (n : BufferName) : String := String.ofList n.chars

/-- The composite name `n.text`, if it reads back as the same parts and fits the engine's buffer. -/
def encode (n : BufferName) : Except NameError String :=
  if n.qualifier.toList = [] then .error (.malformed n.text .emptyQualifier)
  else if separator ∈ n.qualifier.toList then
    .error (.malformed n.text .separatorInQualifier)
  else if '\x00' ∈ n.base.toList ∨ '\x00' ∈ n.qualifier.toList then
    .error (.malformed n.text .interiorNul)
  else if byteLimit < Utf8.length n.chars then
    .error (.tooLong (Utf8.length n.chars) byteLimit)
  else .ok n.text

/-! ## Decoding -/

/-- A name taken apart. The letter of the tag is kept as it stands, for a name may carry any. -/
structure Parts where
  /-- The name of the object. -/
  key : String
  /-- The part of the object. -/
  field : String
  /-- The letter that says how the bytes are read. -/
  tag : Char
deriving DecidableEq, Repr

/-- The parts `key` and `field` of a name without a tag. -/
def Parts.untagged (key field : List Char) : Parts :=
  ⟨String.ofList key, String.ofList field, Tag.default.char⟩

/-- Takes a name apart at its last `separator`. A single ASCII letter and the `marker` behind it are
the tag; without them the name holds plain bytes. -/
def decode (name : String) : Except NameError Parts :=
  match splitLast separator name.toList with
  | none => .ok (Parts.untagged name.toList [])
  | some (key, rest) =>
    match rest with
    | tag :: mark :: field =>
      if mark = marker ∧ tag.toNat < 128 then
        if field = [] then .error (.malformed name .missingField)
        else .ok ⟨String.ofList key, String.ofList field, tag⟩
      else .ok (Parts.untagged key rest)
    | _ => .ok (Parts.untagged key rest)

/-! ## The last separator -/

@[simp] theorem splitLast_nil (sep : Char) : splitLast sep [] = none := rfl

/-- `splitLast sep cs = none` iff `sep` does not occur in `cs`. -/
theorem splitLast_eq_none_iff {sep : Char} {cs : List Char} :
    splitLast sep cs = none ↔ sep ∉ cs := by
  induction cs with
  | nil => simp
  | cons c cs ih =>
    simp only [splitLast, List.mem_cons, not_or]
    cases h : splitLast sep cs with
    | none =>
      have := ih.1 h
      by_cases hc : c = sep <;> grind
    | some p =>
      have : ¬ (sep ∉ cs) := fun hn => by simp [ih.2 hn] at h
      simp [this]

/-- `before ++ sep :: after` is split at this `sep` if none comes after it. -/
theorem splitLast_append {sep : Char} {before after : List Char} (h : sep ∉ after) :
    splitLast sep (before ++ sep :: after) = some (before, after) := by
  induction before with
  | nil => simp [splitLast, splitLast_eq_none_iff.2 h]
  | cons c before ih => simp [splitLast, ih]

/-- If `splitLast sep cs = some (before, after)`, then `cs = before ++ sep :: after`, and `sep` does
not occur in `after`. -/
theorem eq_append_of_splitLast {sep : Char} {cs before after : List Char}
    (h : splitLast sep cs = some (before, after)) :
    cs = before ++ sep :: after ∧ sep ∉ after := by
  induction cs generalizing before with
  | nil => simp at h
  | cons c cs ih =>
    simp only [splitLast] at h
    -- the last separator is in the tail, if there is one in it at all
    cases hrest : splitLast sep cs with
    | none =>
      simp only [hrest] at h
      split at h
      · rename_i hc
        simp only [Option.some.injEq, Prod.mk.injEq] at h
        obtain ⟨rfl, rfl⟩ := h
        exact ⟨by simp [hc], splitLast_eq_none_iff.1 hrest⟩
      · simp at h
    | some p =>
      obtain ⟨b, a⟩ := p
      simp only [hrest, Option.some.injEq, Prod.mk.injEq] at h
      obtain ⟨rfl, rfl⟩ := h
      obtain ⟨hcs, hsep⟩ := ih hrest
      exact ⟨by simp [hcs], hsep⟩

end BufferName
end Concolic

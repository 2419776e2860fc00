/-! # Text as UTF-8 bytes

The bytes of a text, the number of them, and decoding of any bytes. Decoding meets a scalar value or
an ill-formed part at each place; an ill-formed part is the longest start of a well-formed sequence
that the bytes hold there, or one byte where none starts. `decode?` refuses ill-formed parts and
`decodeLossy` replaces each of them by one replacement character. -/

namespace Concolic
namespace Utf8

/-! ## Encoding -/

/-- The bytes of a text. -/
def encode (cs : List Char) : List UInt8 := cs.flatMap String.utf8EncodeChar

/-- The number of bytes of a text. -/
def length : List Char → Nat
  | [] => 0
  | c :: cs => c.utf8Size + length cs

@[simp] theorem length_nil : length [] = 0 := rfl

@[simp] theorem length_cons (c : Char) (cs : List Char) :
    length (c :: cs) = c.utf8Size + length cs := rfl

@[simp] theorem length_append (cs ds : List Char) : length (cs ++ ds) = length cs + length ds := by
  induction cs with
  | nil => simp
  | cons c cs ih => simp [ih, Nat.add_assoc]

/-- `length s.toList` is the number of bytes of `s`. -/
theorem length_toList (s : String) : length s.toList = s.utf8ByteSize := by
  have hofList (cs : List Char) : (String.ofList cs).utf8ByteSize = length cs := by
    induction cs with
    | nil => rfl
    | cons c cs ih =>
      have hsplit : String.ofList (c :: cs) = String.singleton c ++ String.ofList cs := by
        rw [String.singleton_eq_ofList, ← String.ofList_append]
        rfl
      rw [hsplit, String.utf8ByteSize_append, String.utf8ByteSize_singleton, ih, length_cons]
  rw [← hofList, String.ofList_toList]

/-- `cs.length ≤ length cs`: a character has at least one byte. -/
theorem length_le_length (cs : List Char) : cs.length ≤ length cs := by
  induction cs with
  | nil => simp
  | cons c cs ih =>
    have := c.utf8Size_pos
    simp only [List.length_cons, length_cons]
    omega

/-! ## Decoding -/

/-- What the first byte of a sequence asks for: how many bytes follow, between which bounds the
first of them lies, and the bits that the first byte itself carries. -/
structure Lead where
  /-- The number of bytes that follow. -/
  following : Nat
  /-- The least second byte. -/
  low : Nat
  /-- The greatest second byte. -/
  high : Nat
  /-- The bits of the first byte. -/
  bits : Nat

/-- The sequences that a first byte can start; the bounds on the second byte rule out overlong
forms, surrogates and numbers above the last scalar value. -/
def Lead.ofByte? (b : Nat) : Option Lead :=
  if b < 0x80 then some ⟨0, 0, 0, b⟩
  else if 0xC2 ≤ b ∧ b ≤ 0xDF then some ⟨1, 0x80, 0xBF, b - 0xC0⟩
  else if b = 0xE0 then some ⟨2, 0xA0, 0xBF, 0⟩
  else if b = 0xED then some ⟨2, 0x80, 0x9F, 0xD⟩
  else if 0xE1 ≤ b ∧ b ≤ 0xEF then some ⟨2, 0x80, 0xBF, b - 0xE0⟩
  else if b = 0xF0 then some ⟨3, 0x90, 0xBF, 0⟩
  else if 0xF1 ≤ b ∧ b ≤ 0xF3 then some ⟨3, 0x80, 0xBF, b - 0xF0⟩
  else if b = 0xF4 then some ⟨3, 0x80, 0x8F, 4⟩
  else none

/-- Reads the bytes that follow a first byte: the scalar value, or nothing where the sequence breaks
off, with the bytes not used. -/
def follow : (following low high bits : Nat) → List UInt8 → Option Char × List UInt8
  | 0, _, _, bits, rest => (some (Char.ofNat bits), rest)
  | _ + 1, _, _, _, [] => (none, [])
  | n + 1, low, high, bits, b :: rest =>
    if low ≤ b.toNat ∧ b.toNat ≤ high then
      follow n 0x80 0xBF (64 * bits + (b.toNat - 0x80)) rest
    else (none, b :: rest)

/-- The scalar value at the front of `b :: rest`, or `none` for an ill-formed part, with what
follows. -/
def first (b : UInt8) (rest : List UInt8) : Option Char × List UInt8 :=
  match Lead.ofByte? b.toNat with
  | none => (none, rest)
  | some lead => follow lead.following lead.low lead.high lead.bits rest

theorem length_follow_le (n low high bits : Nat) (rest : List UInt8) :
    (follow n low high bits rest).2.length ≤ rest.length := by
  induction n generalizing low high bits rest with
  | zero => simp [follow]
  | succ n ih =>
    cases rest with
    | nil => simp [follow]
    | cons b rest =>
      simp only [follow]
      split
      · exact Nat.le_succ_of_le (ih ..)
      · exact Nat.le_refl _

/-- `first b rest` uses at least the byte `b`. -/
theorem length_first_le (b : UInt8) (rest : List UInt8) :
    (first b rest).2.length ≤ rest.length := by
  unfold first
  split
  · exact Nat.le_refl _
  · exact length_follow_le ..

/-- The scalar values of the bytes in order, with `none` for each ill-formed part. -/
def pieces : List UInt8 → List (Option Char)
  | [] => []
  | b :: rest => (first b rest).1 :: pieces (first b rest).2
termination_by bs => bs.length
decreasing_by
  have := length_first_le b rest
  simp only [List.length_cons]
  omega

/-- The text of `bs`, if they are well-formed. -/
def decode? (bs : List UInt8) : Option (List Char) := (pieces bs).mapM id

/-- The text of `bs` with U+FFFD for each ill-formed part. -/
def decodeLossy (bs : List UInt8) : List Char := (pieces bs).map (·.getD '\uFFFD')

end Utf8
end Concolic

import Concolic.Proofs.Buffers

/-! # What buffers are read as

Bytes are read under a letter as a value exactly if they are the bytes of that value and the letter
is that of its tag (`BufferValue.ofBytes_eq_ok_iff`). So reading undoes writing and loses nothing of
the bytes. It fails under a letter of no tag, and for a number of bytes that is not of the width
that the tag asks for; a text unit is never refused by itself, for the pieces of a text of whole
units are whole (`BufferValue.ofBytes_char`). -/

namespace Concolic
namespace Tag

/-- The width that a tag asks for, if it asks for one. -/
def width? : Tag → Option Width
  | int => some (.exactly BufferValue.intWidth)
  | size => some (.exactly BufferValue.sizeWidth)
  | str => none
  | unicode => some (.multipleOf BufferValue.unitWidth)
  | bytes => none

/-- `ofChar? letter = none` iff `letter` is none of the five letters of tags. -/
theorem ofChar?_eq_none_iff {letter : Char} :
    ofChar? letter = none ↔ letter ∉ ['i', 'l', 's', 'u', 'b'] := by
  constructor
  · rintro h hmem
    simp only [List.mem_cons, List.not_mem_nil, or_false] at hmem
    rcases hmem with rfl | rfl | rfl | rfl | rfl
    all_goals cases h
  · intro h
    cases htag : ofChar? letter with
    | none => rfl
    | some t =>
      rw [← ofChar?_eq_some_iff.1 htag] at h
      cases t <;> exact absurd (by decide) h

end Tag

namespace BufferValue

variable {bytes : List UInt8} {letter : Char}

/-- `exact bytes width tag` is `.ok bytes` if `bytes.length = width`, and `.wrongSize` otherwise. -/
theorem exact_cases (bytes : List UInt8) (width : Nat) (tag : Tag) :
    (bytes.length = width ∧ exact bytes width tag = .ok bytes) ∨
      exact bytes width tag = .error (.wrongSize tag (.exactly width) bytes.length) := by
  rw [exact]
  by_cases h : bytes.length = width
  · exact .inl ⟨h, if_pos h⟩
  · exact .inr (if_neg h)

/-- `ofBytes bytes t.char` is some `v` with `v.tag = t` and `v.toBytes = bytes`, or `.wrongSize`
with the width that `t` asks for. -/
theorem ofBytes_char (bytes : List UInt8) (t : Tag) :
    (∃ v, ofBytes bytes t.char = .ok v ∧ v.tag = t ∧ v.toBytes = bytes) ∨
      ∃ w, t.width? = some w ∧ ofBytes bytes t.char = .error (.wrongSize t w bytes.length) := by
  rw [ofBytes, Tag.ofChar?_char]
  -- by the tag: a width that has to be met exactly, whole units, or any bytes
  cases t with
  | int =>
    rcases exact_cases bytes intWidth .int with ⟨hlength, hexact⟩ | hexact
    · exact .inl ⟨.integer (LittleEndian.toInt32 bytes), by rw [hexact]; rfl, rfl,
        LittleEndian.ofInt32_toInt32 hlength⟩
    · exact .inr ⟨.exactly intWidth, rfl, by rw [hexact]; rfl⟩
  | size =>
    rcases exact_cases bytes sizeWidth .size with ⟨hlength, hexact⟩ | hexact
    · exact .inl ⟨.sizeWord (LittleEndian.toInt64 bytes), by rw [hexact]; rfl, rfl,
        LittleEndian.ofInt64_toInt64 hlength⟩
    · exact .inr ⟨.exactly sizeWidth, rfl, by rw [hexact]; rfl⟩
  | str => exact .inl ⟨.byteString bytes, rfl, rfl, rfl⟩
  | unicode =>
    by_cases hlength : bytes.length % unitWidth = 0
    · -- no piece is refused, so the units are those that the bytes spell
      have hread : ((unitPieces bytes).mapM unitOfPiece).map wideString
          = .ok (.wideString (LittleEndian.toUnits bytes)) := by rw [mapM_unitOfPiece]; rfl
      exact .inl ⟨.wideString (LittleEndian.toUnits bytes), (if_pos hlength).trans hread, rfl,
        LittleEndian.ofUnits_toUnits bytes hlength⟩
    · exact .inr ⟨.multipleOf unitWidth, rfl, if_neg hlength⟩
  | bytes => exact .inl ⟨.byteArray bytes, rfl, rfl, rfl⟩

/-- `ofBytes bytes letter = .error (.unknownTag letter)` if `Tag.ofChar? letter = none`. -/
theorem ofBytes_of_none (h : Tag.ofChar? letter = none) (bytes : List UInt8) :
    ofBytes bytes letter = .error (.unknownTag letter) := by
  rw [ofBytes, h]

/-- `ofBytes bytes letter = .ok v` iff `v.tag.char = letter` and `v.toBytes = bytes`. -/
theorem ofBytes_eq_ok_iff {v : BufferValue} :
    ofBytes bytes letter = .ok v ↔ v.tag.char = letter ∧ v.toBytes = bytes := by
  constructor
  · intro h
    cases htag : Tag.ofChar? letter with
    | none =>
      rw [ofBytes_of_none htag] at h
      cases h
    | some t =>
      obtain rfl : t.char = letter := Tag.ofChar?_eq_some_iff.1 htag
      rcases ofBytes_char bytes t with ⟨v', hread, rfl, rfl⟩ | ⟨w, -, hread⟩
      · cases hread.symm.trans h
        exact ⟨rfl, rfl⟩
      · cases hread.symm.trans h
  · rintro ⟨rfl, rfl⟩
    exact ofBytes_toBytes v

/-- `ofBytes bytes letter` succeeds iff `letter` is that of a tag and `bytes` are as many as the tag
asks for. -/
theorem exists_ofBytes_iff :
    (∃ v, ofBytes bytes letter = .ok v)
      ↔ letter = 'i' ∧ bytes.length = 4 ∨ letter = 'l' ∧ bytes.length = 8 ∨ letter = 's' ∨
        letter = 'u' ∧ 4 ∣ bytes.length ∨ letter = 'b' := by
  constructor
  · rintro ⟨v, h⟩
    obtain ⟨rfl, rfl⟩ := ofBytes_eq_ok_iff.1 h
    -- a value that was read has the length of what it writes
    cases v with
    | integer n => exact .inl ⟨rfl, LittleEndian.length_ofInt32 n⟩
    | sizeWord n => exact .inr (.inl ⟨rfl, LittleEndian.length_ofInt64 n⟩)
    | byteString _ => exact .inr (.inr (.inl rfl))
    | wideString units =>
      refine .inr (.inr (.inr (.inl ⟨rfl, units.length, LittleEndian.length_ofUnits units⟩)))
    | byteArray _ => exact .inr (.inr (.inr (.inr rfl)))
  · rintro (⟨rfl, h⟩ | ⟨rfl, h⟩ | rfl | ⟨rfl, h⟩ | rfl)
    · exact ⟨.integer _, ofBytes_eq_ok_iff.2 ⟨rfl, LittleEndian.ofInt32_toInt32 h⟩⟩
    · exact ⟨.sizeWord _, ofBytes_eq_ok_iff.2 ⟨rfl, LittleEndian.ofInt64_toInt64 h⟩⟩
    · exact ⟨.byteString bytes, rfl⟩
    · have hwhole := LittleEndian.ofUnits_toUnits bytes (Nat.mod_eq_zero_of_dvd h)
      exact ⟨.wideString _, ofBytes_eq_ok_iff.2 ⟨rfl, hwhole⟩⟩
    · exact ⟨.byteArray bytes, rfl⟩

/-- If `ofBytes bytes t.char` fails, it is `.wrongSize` with the width that `t` asks for. -/
theorem eq_wrongSize_of_ofBytes {t : Tag} {error : BufferError}
    (h : ofBytes bytes t.char = .error error) :
    ∃ w, t.width? = some w ∧ error = .wrongSize t w bytes.length := by
  rcases ofBytes_char bytes t with ⟨v, hread, -⟩ | ⟨w, hwidth, hread⟩
  · cases hread.symm.trans h
  · exact ⟨w, hwidth, (Except.error.inj (hread.symm.trans h)).symm⟩

/-- **Reading inverts writing.** `ofBytes` reads the bytes of an integer, of a size word, of a byte
string, of plain bytes and of a text under the letters of their tags as what they were written for.
Conversely something is read exactly under one of these letters, from four bytes, from eight, from
any number or from a multiple of four; it is a value `v` with `v.toBytes = bytes`, and for a text
its units are those that a marking rebuilds the text from. Any other letter is refused with
`.unknownTag`, however many bytes there are, and the only other refusals are `.wrongSize` with the
width of the tag: for a text always that of the whole. -/
theorem ofBytes_inverts_writing :
    (∀ n, ofBytes (LittleEndian.ofInt32 n) 'i' = .ok (.integer n)) ∧
    (∀ word, ofBytes (LittleEndian.ofInt64 word) 'l' = .ok (.sizeWord word)) ∧
    (∀ bytes, ofBytes bytes 's' = .ok (.byteString bytes)) ∧
    (∀ bytes, ofBytes bytes 'b' = .ok (.byteArray bytes)) ∧
    (∀ units, ofBytes (LittleEndian.ofUnits units) 'u' = .ok (.wideString units)) ∧
    ∀ bytes letter,
      ((∃ v, ofBytes bytes letter = .ok v)
        ↔ letter = 'i' ∧ bytes.length = 4 ∨ letter = 'l' ∧ bytes.length = 8 ∨ letter = 's' ∨
          letter = 'u' ∧ 4 ∣ bytes.length ∨ letter = 'b') ∧
      (∀ v, ofBytes bytes letter = .ok v → v.toBytes = bytes ∧ v.tag.char = letter ∧
        (letter = 'u' → v = .wideString (LittleEndian.toUnits bytes))) ∧
      (letter ∉ ['i', 'l', 's', 'u', 'b'] → ofBytes bytes letter = .error (.unknownTag letter)) ∧
      ∀ error, letter ∈ ['i', 'l', 's', 'u', 'b'] → ofBytes bytes letter = .error error →
        ∃ t w, t.char = letter ∧ error = .wrongSize t w bytes.length ∧
          (t = .int ∧ w.message = "exactly 4" ∨ t = .size ∧ w.message = "exactly 8" ∨
            t = .unicode ∧ w.message = "a multiple of 4") := by
  refine ⟨fun n => ofBytes_toBytes (.integer n), fun word => ofBytes_toBytes (.sizeWord word),
    fun _ => rfl, fun _ => rfl,
    fun units => ofBytes_toBytes (.wideString units), fun bytes letter => ⟨exists_ofBytes_iff,
      fun v h => ?_, fun h => ofBytes_of_none (Tag.ofChar?_eq_none_iff.2 h) bytes,
      fun error hletter h => ?_⟩⟩
  · obtain ⟨hletter, rfl⟩ := ofBytes_eq_ok_iff.1 h
    refine ⟨rfl, hletter, ?_⟩
    intro hu
    rw [hu] at hletter
    cases v with
    | wideString units => rw [toBytes, LittleEndian.toUnits_ofUnits]
    | _ => simp [tag, Tag.char] at hletter
  · cases htag : Tag.ofChar? letter with
    | none => exact absurd hletter (Tag.ofChar?_eq_none_iff.1 htag)
    | some t =>
      obtain rfl : t.char = letter := Tag.ofChar?_eq_some_iff.1 htag
      -- the tag is known, so that only the size can be wrong
      obtain ⟨w, hwidth, rfl⟩ := eq_wrongSize_of_ofBytes h
      refine ⟨t, w, rfl, rfl, ?_⟩
      cases t with
      | int =>
        cases hwidth
        exact .inl ⟨rfl, rfl⟩
      | size =>
        cases hwidth
        exact .inr (.inl ⟨rfl, rfl⟩)
      | unicode =>
        cases hwidth
        exact .inr (.inr ⟨rfl, rfl⟩)
      | str => cases hwidth
      | bytes => cases hwidth

/-- The bytes of a surrogate are read as a text of that one unit, and three bytes are no text. -/
theorem ofBytes_inverts_writing_surrogate :
    ofBytes [0x00, 0xD8, 0x00, 0x00] 'u' = .ok (.wideString [0xD800]) ∧
      (wideString [0xD800]).toBytes = [0x00, 0xD8, 0x00, 0x00] ∧
      ofBytes [1, 2, 3] 'x' = .error (.unknownTag 'x') ∧
      ∃ w, ofBytes [1, 2, 3] 'u' = .error (.wrongSize .unicode w 3) ∧
        w.message = "a multiple of 4" := by
  obtain ⟨-, -, -, -, hunits, hread⟩ := ofBytes_inverts_writing
  have hsurrogate : ofBytes [0x00, 0xD8, 0x00, 0x00] 'u' = .ok (.wideString [0xD800]) :=
    hunits [0xD800]
  obtain ⟨-, hbytes, -, -⟩ := hread [0x00, 0xD8, 0x00, 0x00] 'u'
  obtain ⟨-, -, hunknown, -⟩ := hread [1, 2, 3] 'x'
  obtain ⟨-, -, -, hsize⟩ := hread [1, 2, 3] 'u'
  have hthree : ofBytes [1, 2, 3] 'u' = .error (.wrongSize .unicode (.multipleOf 4) 3) := rfl
  -- of the three forms of a wrong size only the last has this tag
  obtain ⟨t, w, -, herror, hwidth⟩ := hsize _ (by decide) hthree
  cases herror
  rcases hwidth with ⟨ht, -⟩ | ⟨ht, -⟩ | ⟨-, hmessage⟩
  · cases ht
  · cases ht
  · exact ⟨hsurrogate, (hbytes _ hsurrogate).1, hunknown (by decide), _, hthree, hmessage⟩

end BufferValue
end Concolic

import Concolic.Proofs.Buffers

/-! # Names read back

A name is given for exactly those parts that it can be taken apart into again and that fit the
engine's buffer, and what is read from it are these parts. So the names that are given tell the
parts apart (`BufferName.encode_injective`). -/

namespace Concolic
namespace BufferName

/-- `n.chars` takes the bytes of base and qualifier and three more: one each for the separator, the
tag and the marker. -/
theorem length_chars (n : BufferName) :
    Utf8.length n.chars = n.base.utf8ByteSize + n.qualifier.utf8ByteSize + 3 := by
  have htag : n.tag.char.utf8Size = 1 := by
    cases n.tag <;> rfl
  have hseparator : separator.utf8Size = 1 := rfl
  have hmarker : marker.utf8Size = 1 := rfl
  rw [chars, Utf8.length_append, Utf8.length_cons, Utf8.length_cons, Utf8.length_cons,
    Utf8.length_toList, Utf8.length_toList, htag, hseparator, hmarker]
  omega

/-- A NUL is in `n.chars` iff it is in the base or in the qualifier of `n`. -/
theorem nul_mem_chars_iff (n : BufferName) :
    '\x00' ∈ n.chars ↔ '\x00' ∈ n.base.toList ∨ '\x00' ∈ n.qualifier.toList := by
  have htag : '\x00' ≠ n.tag.char := by
    cases n.tag <;> decide
  have hseparator : '\x00' ≠ separator := by decide
  have hmarker : '\x00' ≠ marker := by decide
  simp only [chars, List.mem_append, List.mem_cons, htag, hseparator, hmarker, false_or]

/-- `BufferName.encode` is injective where it succeeds. -/
theorem encode_injective {n n' : BufferName} {name : String} (h : n.encode = .ok name)
    (h' : n'.encode = .ok name) : n = n' := by
  have hparts := Except.ok.inj ((decode_of_encode h).symm.trans (decode_of_encode h'))
  obtain ⟨hbase, hqualifier, hchar⟩ := Parts.mk.inj hparts
  -- the letter of a tag tells the tag
  have htag : n.tag = n'.tag := by
    rw [← Option.some.injEq, ← Tag.ofChar?_char n.tag, ← Tag.ofChar?_char n'.tag, hchar]
  cases n
  cases n'
  cases hbase
  cases hqualifier
  cases htag
  rfl

/-- **Names read back.** `n.encode` gives a name iff the qualifier is not empty and holds no
separator, no NUL stands in base or qualifier, and both together take at most 252 bytes. The name
then takes at most 255 bytes without a NUL, `decode name` is exactly the base, the qualifier and the
letter of the tag, which is the letter of no other tag, and `n'.encode = .ok name` only for
`n' = n`. -/
theorem encode_reads_back (n : BufferName) :
    ((∃ name, n.encode = .ok name) ↔
      n.qualifier ≠ "" ∧ '.' ∉ n.qualifier.toList ∧ '\x00' ∉ n.base.toList ∧
        '\x00' ∉ n.qualifier.toList ∧
        n.base.utf8ByteSize + n.qualifier.utf8ByteSize + 3 ≤ 255) ∧
    ∀ name, n.encode = .ok name →
      name.utf8ByteSize ≤ 255 ∧ '\x00' ∉ name.toList ∧
        decode name = .ok ⟨n.base, n.qualifier, n.tag.char⟩ ∧
        Tag.ofChar? n.tag.char = some n.tag ∧
        ∀ n' : BufferName, n'.encode = .ok name → n' = n := by
  have hempty : n.qualifier.toList ≠ [] ↔ n.qualifier ≠ "" := by
    rw [ne_eq, String.toList_eq_nil_iff]
  constructor
  · constructor
    · rintro ⟨name, h⟩
      obtain ⟨⟨hqualifier, hsep, hbase, hnul, hlength⟩, -⟩ := encode_eq_ok_iff.1 h
      rw [length_chars] at hlength
      exact ⟨hempty.1 hqualifier, hsep, hbase, hnul, hlength⟩
    · rintro ⟨hqualifier, hsep, hbase, hnul, hlength⟩
      rw [← length_chars] at hlength
      exact ⟨n.text, encode_eq_ok_iff.2
        ⟨⟨hempty.2 hqualifier, hsep, hbase, hnul, hlength⟩, rfl⟩⟩
  · -- the name is the text of `n`, and the reading inverts the writing
    intro name h
    obtain ⟨⟨-, -, hbase, hnul, hlength⟩, rfl⟩ := encode_eq_ok_iff.1 h
    have hchars : n.text.toList = n.chars := String.toList_ofList
    refine ⟨?_, ?_, decode_of_encode h, n.tag.ofChar?_char, fun n' h' => encode_injective h' h⟩
    · rw [← Utf8.length_toList, hchars]
      exact hlength
    · rw [hchars, nul_mem_chars_iff]
      exact not_or.2 ⟨hbase, hnul⟩

/-- A base that looks like a name with a tag itself, and a part with a marker: the name is split
behind the base. -/
theorem encode_reads_back_nested :
    decode "x.i#value.l#sïze#" = .ok ⟨"x.i#value", "sïze#", 'l'⟩ ∧
      ∀ n : BufferName, n.encode = .ok "x.i#value.l#sïze#" → n = ⟨"x.i#value", "sïze#", .size⟩ := by
  have hname : encode ⟨"x.i#value", "sïze#", .size⟩ = .ok "x.i#value.l#sïze#" := rfl
  obtain ⟨-, -, hdecode, -, honly⟩ := (encode_reads_back ⟨"x.i#value", "sïze#", .size⟩).2 _ hname
  exact ⟨hdecode, honly⟩

end BufferName
end Concolic

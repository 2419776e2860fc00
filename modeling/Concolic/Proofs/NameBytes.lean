import Concolic.Proofs.Names
import Concolic.Proofs.Utf8

/-! # Names by their bytes

Names come as bytes, and what stands behind the last separator of one carries a tag if its second
byte is the marker. The marker is a byte below 128, so it is a character there and the byte before
it is one, and a cut behind it falls between two characters (`BufferName.decodeBytes_eq`). So every
name is taken apart or refused, and from the parts of one that is taken apart it can be put together
again (`BufferName.decode_loses_nothing`). -/

namespace Concolic
namespace Utf8

/-- A character below 128 is its own byte in `encode (c :: cs)`. -/
theorem encode_cons_of_lt {c : Char} (hc : c.toNat < 0x80) (cs : List Char) :
    encode (c :: cs) = UInt8.ofNat c.toNat :: encode cs := by
  have hseq : String.utf8EncodeChar c = [UInt8.ofNat c.toNat] := by
    have hone := encodeChar_one hc
    rwa [Char.ofNat_toNat] at hone
  rw [encode_cons, hseq, List.singleton_append]

/-- `encode cs = []` iff `cs = []`. -/
theorem encode_eq_nil_iff {cs : List Char} : encode cs = [] ↔ cs = [] := by
  cases cs with
  | nil => simp [encode]
  | cons c cs => simp [encode_cons]

/-- If `encode cs = [b]`, then `cs` is the one character `b`, which is below 128. -/
theorem eq_singleton_of_encode {cs : List Char} {b : UInt8} (h : encode cs = [b]) :
    b.toNat < 0x80 ∧ cs = [Char.ofNat b.toNat] := by
  cases cs with
  | nil => cases h
  | cons c cs =>
    rw [encode_cons] at h
    -- one case for each number of bytes; only the first leaves one byte
    obtain ⟨v, hv, rfl⟩ | ⟨x, y, hx, hx', hy, rfl⟩ | ⟨x, y, z, hx, hy, hz, hlong, hscalar, rfl⟩ |
      ⟨x, y, z, w, hx, hy, hz, hw, hlong, hscalar, rfl⟩ := exists_bits c
    · rw [encodeChar_one hv, List.singleton_append] at h
      obtain ⟨rfl, hrest⟩ := List.cons.inj h
      have hbyte : (UInt8.ofNat v).toNat = v := UInt8.toNat_ofNat_of_lt' (show _ < 256 by omega)
      rw [hbyte, encode_eq_nil_iff.1 hrest]
      exact ⟨hv, rfl⟩
    · rw [encodeChar_two hx hx' hy] at h
      simp at h
    · rw [encodeChar_three hx hy hz hlong hscalar] at h
      simp at h
    · rw [encodeChar_four hx hy hz hw hlong hscalar] at h
      simp at h

end Utf8

namespace BufferName

/-- The byte of the marker. -/
def markerByte : UInt8 := 0x23

/-- Takes a name apart by the bytes behind its last separator: if the second of them is the marker,
the first is the tag, and the field is cut off behind the second. Nothing is given if the cut falls
inside a character, so that the bytes behind it are no text. -/
def decodeBytes (name : String) : Option (Except NameError Parts) :=
  match splitLast separator name.toList with
  | none => some (.ok (Parts.untagged name.toList []))
  | some (key, rest) =>
    match Utf8.encode rest with
    | tag :: mark :: field =>
      if mark = markerByte then
        if field = [] then some (.error (.malformed name .missingField))
        else (Utf8.decode? field).map fun field =>
          .ok ⟨String.ofList key, String.ofList field, Char.ofNat tag.toNat⟩
      else some (.ok (Parts.untagged key rest))
    | _ => some (.ok (Parts.untagged key rest))

/-! ## Behind the last separator -/

/-- The second byte of `rest` is `markerByte` iff `rest = c :: marker :: cs` with `c` below 128. -/
theorem encode_eq_cons_marker_iff {rest : List Char} {tag : UInt8} {field : List UInt8} :
    Utf8.encode rest = tag :: markerByte :: field
      ↔ ∃ c cs, rest = c :: marker :: cs ∧ c.toNat < 0x80 ∧ tag = UInt8.ofNat c.toNat ∧
        field = Utf8.encode cs := by
  constructor
  · intro h
    have hparted : Utf8.encode rest = [tag] ++ markerByte :: field := h
    obtain ⟨ds, cs, rfl, hfront, rfl⟩ := Utf8.eq_append_of_encode (by decide) hparted
    obtain ⟨htag, rfl⟩ := Utf8.eq_singleton_of_encode hfront.symm
    have hval : (Char.ofNat tag.toNat).toNat = tag.toNat := Utf8.val_ofNat (by omega)
    exact ⟨Char.ofNat tag.toNat, cs, rfl, by rwa [hval], by rw [hval, UInt8.ofNat_toNat], rfl⟩
  · rintro ⟨c, cs, rfl, hc, rfl, rfl⟩
    rw [Utf8.encode_cons_of_lt hc, Utf8.encode_cons_of_lt (c := marker) (by decide)]
    rfl

/-- `rest` is a tag, the `marker` and a field, or a tag and the `marker` only, or its second byte is
not `markerByte`. -/
theorem rest_cases (rest : List Char) :
    (∃ c cs, rest = c :: marker :: cs ∧ c.toNat < 0x80 ∧ cs ≠ []) ∨
      (∃ c, rest = [c, marker] ∧ c.toNat < 0x80) ∨
      (Utf8.encode rest)[1]? ≠ some markerByte := by
  by_cases h : (Utf8.encode rest)[1]? = some markerByte
  · obtain ⟨tag, field, hbytes⟩ : ∃ tag field, Utf8.encode rest = tag :: markerByte :: field := by
      rcases hbytes : Utf8.encode rest with _ | ⟨tag, _ | ⟨mark, field⟩⟩
      · simp [hbytes] at h
      · simp [hbytes] at h
      · rw [hbytes] at h
        obtain rfl : mark = markerByte := Option.some.inj h
        exact ⟨tag, field, rfl⟩
    obtain ⟨c, cs, rfl, hc, -, -⟩ := encode_eq_cons_marker_iff.1 hbytes
    by_cases hcs : cs = []
    · exact .inr (.inl ⟨c, by rw [hcs], hc⟩)
    · exact .inl ⟨c, cs, rfl, hc, hcs⟩
  · exact .inr (.inr h)

section Behind

variable {name : String} {key rest : List Char}

/-- A name without `separator` is the name of an object. -/
theorem decode_of_not_mem (h : separator ∉ name.toList) :
    decode name = .ok (Parts.untagged name.toList []) := by
  rw [decode, splitLast_eq_none_iff.2 h]

/-- If `name` is `key`, the last `separator`, `c`, `marker` and `field`, it decodes to these
parts. -/
theorem decode_tagged {c : Char} {field : List Char}
    (h : name.toList = key ++ separator :: c :: marker :: field)
    (hsep : separator ∉ c :: marker :: field) (hc : c.toNat < 0x80) (hfield : field ≠ []) :
    decode name = .ok ⟨String.ofList key, String.ofList field, c⟩ := by
  rw [decode, h, splitLast_append hsep]
  simp only [hc, and_self, if_true, if_neg hfield]

/-- If `name` ends with the last `separator`, `c` and `marker`, it is malformed. -/
theorem decode_unfinished {c : Char} (h : name.toList = key ++ separator :: [c, marker])
    (hsep : separator ∉ [c, marker]) (hc : c.toNat < 0x80) :
    decode name = .error (.malformed name .missingField) := by
  rw [decode, h, splitLast_append hsep]
  simp only [hc, and_self, if_true]

/-- If `name` is `key`, the last `separator` and `rest`, whose second byte is not `markerByte`, it
decodes to `Parts.untagged key rest`. -/
theorem decode_plain (h : name.toList = key ++ separator :: rest) (hsep : separator ∉ rest)
    (hplain : (Utf8.encode rest)[1]? ≠ some markerByte) :
    decode name = .ok (Parts.untagged key rest) := by
  rw [decode, h, splitLast_append hsep]
  rcases rest with _ | ⟨c, _ | ⟨mark, field⟩⟩
  · rfl
  · rfl
  · have hunmarked : ¬ (mark = marker ∧ c.toNat < 128) := by
      rintro ⟨rfl, hc⟩
      have hbytes := encode_eq_cons_marker_iff.2 ⟨c, field, rfl, hc, rfl, rfl⟩
      rw [hbytes] at hplain
      exact hplain rfl
    simp only [if_neg hunmarked]

end Behind

/-- `decodeBytes name = some (decode name)`: no cut by bytes falls inside a character. -/
theorem decodeBytes_eq (name : String) : decodeBytes name = some (decode name) := by
  cases hsplit : splitLast separator name.toList with
  | none => simp only [decodeBytes, decode, hsplit]
  | some split =>
    obtain ⟨key, rest⟩ := split
    obtain ⟨h, hsep⟩ := eq_append_of_splitLast hsplit
    simp only [decodeBytes, hsplit]
    -- behind the separator: a tag with a field, a tag without one, or no tag
    rcases rest_cases rest with ⟨c, field, rfl, hc, hfield⟩ | ⟨c, rfl, hc⟩ | hplain
    · rw [encode_eq_cons_marker_iff.2 ⟨c, field, rfl, hc, rfl, rfl⟩, decode_tagged h hsep hc hfield]
      have htag : Char.ofNat (UInt8.ofNat c.toNat).toNat = c := by
        rw [UInt8.toNat_ofNat_of_lt' (show _ < 256 by omega), Char.ofNat_toNat]
      have hbytes : Utf8.encode field ≠ [] := fun hnil => hfield (Utf8.encode_eq_nil_iff.1 hnil)
      simp only [if_true, if_neg hbytes, Utf8.decode?_encode, Option.map_some, htag]
    · rw [encode_eq_cons_marker_iff.2 ⟨c, [], rfl, hc, rfl, rfl⟩, decode_unfinished h hsep hc]
      rfl
    · rw [decode_plain h hsep hplain]
      rcases hbytes : Utf8.encode rest with _ | ⟨tag, _ | ⟨mark, field⟩⟩
      · rfl
      · rfl
      · -- a marker in the second place would make it a tag
        have hmark : mark ≠ markerByte := by
          rintro rfl
          rw [hbytes] at hplain
          exact hplain rfl
        simp only [if_neg hmark]

/-! ## Nothing is lost -/

/-- The parts `p` of a name with a tag, put together again. -/
def Parts.tagged (p : Parts) : String :=
  String.ofList (p.key.toList ++ separator :: p.tag :: marker :: p.field.toList)

/-- The parts `p` of a name without a tag, put together again. -/
def Parts.plain (p : Parts) : String := String.ofList (p.key.toList ++ separator :: p.field.toList)

/-- `name = key ++ separator :: rest` is `(Parts.untagged key rest).plain`. -/
theorem Parts.plain_untagged {name : String} {key rest : List Char}
    (h : name.toList = key ++ separator :: rest) : name = (Parts.untagged key rest).plain := by
  rw [Parts.plain, Parts.untagged, String.toList_ofList, String.toList_ofList, ← h,
    String.ofList_toList]

/-- For `name = key ++ separator :: rest`, where no separator is in `rest`: `decode name` is refused
if `rest` is a tag and the marker, or else `name` is `parts.tagged` or `parts.plain` for its
parts. -/
theorem decode_cases {name : String} {key rest : List Char}
    (h : name.toList = key ++ separator :: rest) (hsep : separator ∉ rest) :
    (decode name = .error (.malformed name .missingField) ∧
        ∃ tag, Utf8.encode rest = [tag, markerByte]) ∨
      ∃ parts, decode name = .ok parts ∧ (∀ tag, Utf8.encode rest ≠ [tag, markerByte]) ∧
        separator ∉ parts.field.toList ∧
        (name = parts.tagged ∧ parts.field ≠ "" ∧ parts.tag.toNat < 0x80 ∨
          name = parts.plain ∧ parts.tag = 'b' ∧
            (Utf8.encode parts.field.toList)[1]? ≠ some markerByte) := by
  rcases rest_cases rest with ⟨c, field, rfl, hc, hfield⟩ | ⟨c, rfl, hc⟩ | hplain
  · have hbytes := encode_eq_cons_marker_iff.2 ⟨c, field, rfl, hc, rfl, rfl⟩
    refine .inr ⟨_, decode_tagged h hsep hc hfield, ?_, ?_, .inl ⟨?_, ?_, hc⟩⟩
    · -- the field has bytes of its own
      intro tag htag
      rw [hbytes] at htag
      exact hfield (Utf8.encode_eq_nil_iff.1 (List.cons.inj (List.cons.inj htag).2).2)
    · rw [String.toList_ofList]
      exact fun hmem => hsep (by simp [hmem])
    · rw [Parts.tagged, String.toList_ofList, String.toList_ofList, ← h, String.ofList_toList]
    · rw [ne_eq, ← String.toList_eq_nil_iff, String.toList_ofList]
      exact hfield
  · exact .inl ⟨decode_unfinished h hsep hc, _,
      encode_eq_cons_marker_iff.2 ⟨c, [], rfl, hc, rfl, rfl⟩⟩
  · refine .inr ⟨_, decode_plain h hsep hplain, ?_, ?_,
      .inr ⟨Parts.plain_untagged h, rfl, ?_⟩⟩
    · intro tag htag
      rw [htag] at hplain
      exact hplain rfl
    · rw [Parts.untagged, String.toList_ofList]
      exact hsep
    · rw [Parts.untagged, String.toList_ofList]
      exact hplain

/-- If `decode name = .ok parts` and `name = parts.tagged`, the field of `parts` is not empty and
has no separator. -/
theorem field_of_tagged {name : String} {parts : Parts} (hdecode : decode name = .ok parts)
    (htagged : name = parts.tagged) : parts.field ≠ "" ∧ separator ∉ parts.field.toList := by
  have hchars : name.toList
      = parts.key.toList ++ separator :: parts.tag :: marker :: parts.field.toList := by
    rw [htagged, Parts.tagged, String.toList_ofList]
  cases hsplit : splitLast separator name.toList with
  | none =>
    -- the name has a separator
    have hnot := splitLast_eq_none_iff.1 hsplit
    rw [hchars] at hnot
    exact absurd (by simp) hnot
  | some split =>
    obtain ⟨key, rest⟩ := split
    obtain ⟨h, hsep⟩ := eq_append_of_splitLast hsplit
    rcases decode_cases h hsep with ⟨herror, -⟩ | ⟨parts', hparts, -, hfield, htag | hplain⟩
    · cases herror.symm.trans hdecode
    · cases hparts.symm.trans hdecode
      exact ⟨htag.2.1, hfield⟩
    · cases hparts.symm.trans hdecode
      -- without the tag and the marker the name is shorter
      have hlength := congrArg (·.toList.length) (htagged.symm.trans hplain.1)
      simp [Parts.tagged, Parts.plain] at hlength
      omega

/-- If `name = parts.tagged` for its parts, with the letter of `tag`, without a NUL and of at most
`byteLimit` bytes, it is encoded again from them. -/
theorem encode_of_tagged {name : String} {parts : Parts} {tag : Tag}
    (hdecode : decode name = .ok parts) (htagged : name = parts.tagged)
    (htag : Tag.ofChar? parts.tag = some tag) (hnul : '\x00' ∉ name.toList)
    (hlength : name.utf8ByteSize ≤ byteLimit) :
    encode ⟨parts.key, parts.field, tag⟩ = .ok name := by
  obtain ⟨hfield, hsep⟩ := field_of_tagged hdecode htagged
  have hchars : name.toList = chars ⟨parts.key, parts.field, tag⟩ := by
    rw [htagged, Parts.tagged, String.toList_ofList, ← Tag.ofChar?_eq_some_iff.1 htag]
    rfl
  rw [hchars, nul_mem_chars_iff, not_or] at hnul
  rw [← Utf8.length_toList, hchars] at hlength
  have hempty : parts.field.toList ≠ [] := by rwa [ne_eq, String.toList_eq_nil_iff]
  refine encode_eq_ok_iff.2 ⟨⟨hempty, hsep, hnul.1, hnul.2, hlength⟩, ?_⟩
  rw [text, ← hchars, String.ofList_toList]

/-- If `n.encode = .ok name`, then `name = parts.tagged` for its parts, with the letter of a tag,
without a NUL and of at most `byteLimit` bytes. -/
theorem tagged_of_encode {n : BufferName} {name : String} (h : n.encode = .ok name) :
    ∃ parts tag, decode name = .ok parts ∧ name = parts.tagged ∧
      Tag.ofChar? parts.tag = some tag ∧ '\x00' ∉ name.toList ∧ name.utf8ByteSize ≤ byteLimit := by
  obtain ⟨⟨-, -, hbase, hqualifier, hlength⟩, htext⟩ := encode_eq_ok_iff.1 h
  have hchars : name.toList = n.chars := by rw [← htext, text, String.toList_ofList]
  refine ⟨_, n.tag, decode_of_encode h, htext.symm, n.tag.ofChar?_char, ?_, ?_⟩
  · rw [hchars, nul_mem_chars_iff]
    exact not_or.2 ⟨hbase, hqualifier⟩
  · rw [← Utf8.length_toList, hchars]
    exact hlength

/-- **Taking a name apart loses nothing.** `decodeBytes name = some (decode name)`: the cut by bytes
never falls inside a character. A name without a separator is the name of an object. Any other is
refused, as a name without a field, exactly if behind its last separator stand two bytes of which
the second is the marker; otherwise its field has no separator, and either `name = parts.tagged`,
with an ASCII tag and a field that is there, or `name = parts.plain`, and then the second byte of
the field is not the marker. A name with the letter of a tag, without a NUL and of at most 255 bytes
is given again for its parts, and these names are all that are given for any parts. -/
theorem decode_loses_nothing (name : String) :
    decodeBytes name = some (decode name) ∧
    ('.' ∉ name.toList → decode name = .ok ⟨name, "", 'b'⟩) ∧
    (∀ key rest, name.toList = key ++ '.' :: rest → '.' ∉ rest →
      ((∃ error, decode name = .error error) ↔ ∃ tag, Utf8.encode rest = [tag, 0x23]) ∧
      (∀ error, decode name = .error error → error = .malformed name .missingField) ∧
      ∀ parts, decode name = .ok parts → '.' ∉ parts.field.toList ∧
        (name = parts.tagged ∧ parts.field ≠ "" ∧ parts.tag.toNat < 128 ∨
          name = parts.plain ∧ parts.tag = 'b' ∧
            (Utf8.encode parts.field.toList)[1]? ≠ some 0x23)) ∧
    (∀ parts tag, decode name = .ok parts → name = parts.tagged →
      Tag.ofChar? parts.tag = some tag → '\x00' ∉ name.toList → name.utf8ByteSize ≤ 255 →
      encode ⟨parts.key, parts.field, tag⟩ = .ok name) ∧
    ((∃ n : BufferName, n.encode = .ok name)
      ↔ ∃ parts tag, decode name = .ok parts ∧ name = parts.tagged ∧
        Tag.ofChar? parts.tag = some tag ∧ '\x00' ∉ name.toList ∧ name.utf8ByteSize ≤ 255) := by
  refine ⟨decodeBytes_eq name, ?_, ?_, ?_, ?_⟩
  · intro hsep
    rw [decode_of_not_mem hsep, Parts.untagged, String.ofList_toList]
    rfl
  · -- in each case of the reading the other outcome is excluded
    intro key rest h hsep
    rcases decode_cases h hsep with ⟨herror, hbytes⟩ | ⟨parts, hparts, hbytes, hfield, hform⟩
    · refine ⟨⟨fun _ => hbytes, fun _ => ⟨_, herror⟩⟩, ?_, ?_⟩
      · intro error h
        exact (Except.error.inj (herror.symm.trans h)).symm
      · intro parts h
        cases herror.symm.trans h
    · refine ⟨⟨?_, fun ⟨tag, htag⟩ => absurd htag (hbytes tag)⟩, ?_, ?_⟩
      · rintro ⟨error, herror⟩
        cases herror.symm.trans hparts
      · intro error h
        cases h.symm.trans hparts
      · intro parts' h
        cases hparts.symm.trans h
        exact ⟨hfield, hform⟩
  · exact fun parts tag hdecode htagged htag hnul hlength =>
      encode_of_tagged hdecode htagged htag hnul hlength
  · constructor
    · rintro ⟨n, h⟩
      exact tagged_of_encode h
    · rintro ⟨parts, tag, hdecode, htagged, htag, hnul, hlength⟩
      exact ⟨_, encode_of_tagged hdecode htagged htag hnul hlength⟩

/-- A name that ends behind its tag is refused, one with a character of two bytes before the marker
has no tag, and one with a tag is given again for its parts. -/
theorem decode_loses_nothing_accents :
    decode "a.i#" = .error (.malformed "a.i#" .missingField) ∧
      decode "x.é#v" = .ok ⟨"x", "é#v", 'b'⟩ ∧ "x.é#v" = (Parts.mk "x" "é#v" 'b').plain ∧
      decode "a.b.i#é" = .ok ⟨"a.b", "é", 'i'⟩ ∧ encode ⟨"a.b", "é", .int⟩ = .ok "a.b.i#é" := by
  refine ⟨?_, rfl, ?_, rfl, ?_⟩
  · obtain ⟨-, -, hbehind, -⟩ := decode_loses_nothing "a.i#"
    obtain ⟨hrefused, hfault, -⟩ := hbehind ['a'] ['i', '#'] rfl (by decide)
    obtain ⟨error, herror⟩ := hrefused.2 ⟨0x69, rfl⟩
    rw [herror, hfault error herror]
  · obtain ⟨-, -, hbehind, -⟩ := decode_loses_nothing "x.é#v"
    obtain ⟨-, -, hparts⟩ := hbehind ['x'] ['é', '#', 'v'] rfl (by decide)
    obtain ⟨-, ⟨-, -, -⟩ | ⟨hplain, -, -⟩⟩ := hparts ⟨"x", "é#v", 'b'⟩ rfl
    · rfl
    · exact hplain
  · obtain ⟨-, -, -, hagain, -⟩ := decode_loses_nothing "a.b.i#é"
    exact hagain ⟨"a.b", "é", 'i'⟩ .int rfl rfl rfl (by decide) (by decide)

end BufferName
end Concolic

import Concolic.Text.Utf8

/-! # Encoded text

Bytes are decoded to a text exactly if they are the bytes of that text (`Utf8.decode?_eq_some_iff`).
The sequence of a character carries its scalar value in groups of six bits, one in each byte behind
the first, and the bounds on the second byte are met exactly if the character needs that many bytes
and is no surrogate; so for each number of bytes there is one equation for writing, one for reading,
and the bits that both are about. A byte below 128 stands for itself wherever it is: it is in the
bytes of a text only if its character is in the text, and behind other bytes it leaves their pieces
as they are. -/

namespace Concolic
namespace Utf8

/-! ## The sequences of characters -/

/-- `c.toNat` is no surrogate and at most the last scalar value. -/
theorem toNat_scalar (c : Char) : c.toNat < 0xD800 ∨ 0xDFFF < c.toNat ∧ c.toNat < 0x110000 :=
  c.valid

/-- `(Char.ofNat v).val.toNat = v` for a scalar value `v`. -/
theorem val_ofNat {v : Nat} (h : v < 0xD800 ∨ 0xDFFF < v ∧ v < 0x110000) :
    (Char.ofNat v).val.toNat = v := by
  unfold Char.ofNat
  rw [dif_pos h]
  rfl

/-- `Char.ofNat v` with `v < 0x80` is written as the byte `v`. -/
theorem encodeChar_one {v : Nat} (hv : v < 0x80) :
    String.utf8EncodeChar (Char.ofNat v) = [UInt8.ofNat v] := by
  rw [String.utf8EncodeChar]
  simp only [val_ofNat (show v < 0xD800 ∨ _ by omega)]
  rw [if_pos (by omega)]

/-- `Char.ofNat (64 * a + b)` is written as `a + 0xC0` and `b + 0x80`, if it has eleven bits and no
fewer than eight. -/
theorem encodeChar_two {a b : Nat} (ha : 2 ≤ a) (ha' : a < 32) (hb : b < 64) :
    String.utf8EncodeChar (Char.ofNat (64 * a + b))
      = [UInt8.ofNat (a + 0xC0), UInt8.ofNat (b + 0x80)] := by
  rw [String.utf8EncodeChar]
  simp only [val_ofNat (show 64 * a + b < 0xD800 ∨ _ by omega)]
  rw [if_neg (by omega), if_pos (by omega), show (64 * a + b) / 64 % 32 = a by omega,
    show (64 * a + b) % 64 = b by omega]

/-- `Char.ofNat (64 * (64 * a + b) + c)` is written as `a + 0xE0`, `b + 0x80` and `c + 0x80`, if it
has sixteen bits, no fewer than twelve, and is no surrogate. -/
theorem encodeChar_three {a b c : Nat} (ha : a < 16) (hb : b < 64) (hc : c < 64)
    (hlong : a = 0 → 32 ≤ b) (hscalar : a = 13 → b < 32) :
    String.utf8EncodeChar (Char.ofNat (64 * (64 * a + b) + c))
      = [UInt8.ofNat (a + 0xE0), UInt8.ofNat (b + 0x80), UInt8.ofNat (c + 0x80)] := by
  generalize hv : 64 * (64 * a + b) + c = v
  have hvalid : v < 0xD800 ∨ 0xDFFF < v ∧ v < 0x110000 := by omega
  rw [String.utf8EncodeChar]
  simp only [val_ofNat hvalid]
  rw [if_neg (by omega), if_neg (by omega), if_pos (by omega), show v / 4096 % 16 = a by omega,
    show v / 64 % 64 = b by omega, show v % 64 = c by omega]

/-- `Char.ofNat (64 * (64 * (64 * a + b) + c) + d)` is written as `a + 0xF0`, `b + 0x80`, `c + 0x80`
and `d + 0x80`, if it is a character beyond sixteen bits. -/
theorem encodeChar_four {a b c d : Nat} (ha : a < 5) (hb : b < 64) (hc : c < 64) (hd : d < 64)
    (hlong : a = 0 → 16 ≤ b) (hscalar : a = 4 → b < 16) :
    String.utf8EncodeChar (Char.ofNat (64 * (64 * (64 * a + b) + c) + d))
      = [UInt8.ofNat (a + 0xF0), UInt8.ofNat (b + 0x80), UInt8.ofNat (c + 0x80),
        UInt8.ofNat (d + 0x80)] := by
  generalize hv : 64 * (64 * (64 * a + b) + c) + d = v
  have hvalid : v < 0xD800 ∨ 0xDFFF < v ∧ v < 0x110000 := by omega
  rw [String.utf8EncodeChar]
  simp only [val_ofNat hvalid]
  rw [if_neg (by omega), if_neg (by omega), if_neg (by omega), show v / 262144 % 8 = a by omega,
    show v / 4096 % 64 = b by omega, show v / 64 % 64 = c by omega, show v % 64 = d by omega]

/-- The bits of `c`, in groups of six behind the first. -/
theorem exists_bits (c : Char) :
    (∃ v < 0x80, c = Char.ofNat v) ∨
      (∃ a b, 2 ≤ a ∧ a < 32 ∧ b < 64 ∧ c = Char.ofNat (64 * a + b)) ∨
      (∃ a b d, a < 16 ∧ b < 64 ∧ d < 64 ∧ (a = 0 → 32 ≤ b) ∧ (a = 13 → b < 32) ∧
        c = Char.ofNat (64 * (64 * a + b) + d)) ∨
      ∃ a b d e, a < 5 ∧ b < 64 ∧ d < 64 ∧ e < 64 ∧ (a = 0 → 16 ≤ b) ∧ (a = 4 → b < 16) ∧
        c = Char.ofNat (64 * (64 * (64 * a + b) + d) + e) := by
  have hscalar := toNat_scalar c
  have hc {v : Nat} (hv : v = c.toNat) : c = Char.ofNat v := by rw [hv, Char.ofNat_toNat]
  generalize c.toNat = v at *
  -- the digits of the number in the base 64, as many as there are following bytes
  by_cases hone : v < 0x80
  · exact .inl ⟨v, hone, hc rfl⟩
  right
  by_cases htwo : v < 0x800
  · exact .inl ⟨v / 64, v % 64, by omega, by omega, by omega, hc (by omega)⟩
  right
  by_cases hthree : v < 0x10000
  · exact .inl ⟨v / 4096, v / 64 % 64, v % 64, by omega, by omega, by omega, by omega, by omega,
      hc (by omega)⟩
  · exact .inr ⟨v / 262144, v / 4096 % 64, v / 64 % 64, v % 64, by omega, by omega, by omega,
      by omega, by omega, by omega, hc (by omega)⟩

/-! ## Reading the bytes of texts -/

/-- `first b rest` is the character `b` if `b` is below 128. -/
theorem first_of_lt {b : UInt8} (hb : b.toNat < 0x80) (rest : List UInt8) :
    first b rest = (some (Char.ofNat b.toNat), rest) := by
  simp only [first, Lead.ofByte?, if_pos hb, follow]

/-- `follow` takes the lower six bits of a byte within the bounds. -/
theorem follow_cons {low high tail : Nat} (hlow : low ≤ tail + 0x80) (hhigh : tail + 0x80 ≤ high)
    (htail : tail < 64) (following bits : Nat) (rest : List UInt8) :
    follow (following + 1) low high bits (UInt8.ofNat (tail + 0x80) :: rest)
      = follow following 0x80 0xBF (64 * bits + tail) rest := by
  rw [follow, UInt8.toNat_ofNat_of_lt' (show _ < 256 by omega), if_pos ⟨hlow, hhigh⟩,
    Nat.add_sub_cancel]

/-- `first` reads two bytes with five and six bits, of which the first four are not all zero. -/
theorem first_two {a b : Nat} (ha : 2 ≤ a) (ha' : a < 32) (hb : b < 64) (rest : List UInt8) :
    first (UInt8.ofNat (a + 0xC0)) (UInt8.ofNat (b + 0x80) :: rest)
      = (some (Char.ofNat (64 * a + b)), rest) := by
  have hlead : Lead.ofByte? (a + 0xC0) = some ⟨1, 0x80, 0xBF, a⟩ := by
    rw [Lead.ofByte?, if_neg (by omega), if_pos (by omega), Nat.add_sub_cancel]
  rw [first, UInt8.toNat_ofNat_of_lt' (show _ < 256 by omega), hlead]
  simp only
  rw [follow_cons (by omega) (by omega) hb, follow]

/-- `first` reads three bytes with four, six and six bits; the forms of fewer bytes and the
surrogates are left out. -/
theorem first_three {a b c : Nat} (ha : a < 16) (hb : b < 64) (hc : c < 64)
    (hlong : a = 0 → 32 ≤ b) (hscalar : a = 13 → b < 32) (rest : List UInt8) :
    first (UInt8.ofNat (a + 0xE0)) (UInt8.ofNat (b + 0x80) :: UInt8.ofNat (c + 0x80) :: rest)
      = (some (Char.ofNat (64 * (64 * a + b) + c)), rest) := by
  have hlead : Lead.ofByte? (a + 0xE0)
      = some ⟨2, if a = 0 then 0xA0 else 0x80, if a = 13 then 0x9F else 0xBF, a⟩ := by
    -- the bounds of the second byte keep out long forms of short characters, and surrogates
    by_cases hzero : a = 0
    · subst hzero
      rfl
    by_cases hthirteen : a = 13
    · subst hthirteen
      rfl
    rw [Lead.ofByte?, if_neg (by omega), if_neg (by omega), if_neg (by omega), if_neg (by omega),
      if_pos (by omega), if_neg hzero, if_neg hthirteen, Nat.add_sub_cancel]
  rw [first, UInt8.toNat_ofNat_of_lt' (show _ < 256 by omega), hlead]
  simp only
  rw [follow_cons (by split <;> omega) (by split <;> omega) hb,
    follow_cons (by omega) (by omega) hc, follow]

/-- `first` reads four bytes with three, six, six and six bits, between the forms of fewer bytes and
the numbers above the last scalar value. -/
theorem first_four {a b c d : Nat} (ha : a < 5) (hb : b < 64) (hc : c < 64) (hd : d < 64)
    (hlong : a = 0 → 16 ≤ b) (hscalar : a = 4 → b < 16) (rest : List UInt8) :
    first (UInt8.ofNat (a + 0xF0))
        (UInt8.ofNat (b + 0x80) :: UInt8.ofNat (c + 0x80) :: UInt8.ofNat (d + 0x80) :: rest)
      = (some (Char.ofNat (64 * (64 * (64 * a + b) + c) + d)), rest) := by
  have hlead : Lead.ofByte? (a + 0xF0)
      = some ⟨3, if a = 0 then 0x90 else 0x80, if a = 4 then 0x8F else 0xBF, a⟩ := by
    obtain rfl | rfl | rfl | rfl | rfl : a = 0 ∨ a = 1 ∨ a = 2 ∨ a = 3 ∨ a = 4 := by omega
    all_goals rfl
  rw [first, UInt8.toNat_ofNat_of_lt' (show _ < 256 by omega), hlead]
  simp only
  rw [follow_cons (by split <;> omega) (by split <;> omega) hb,
    follow_cons (by omega) (by omega) hc, follow_cons (by omega) (by omega) hd, follow]

/-- The bytes of `c` are one piece. -/
theorem pieces_encodeChar (c : Char) (rest : List UInt8) :
    pieces (String.utf8EncodeChar c ++ rest) = some c :: pieces rest := by
  obtain ⟨v, hv, rfl⟩ | ⟨a, b, ha, ha', hb, rfl⟩ | ⟨a, b, d, ha, hb, hd, hlong, hscalar, rfl⟩ |
    ⟨a, b, d, e, ha, hb, hd, he, hlong, hscalar, rfl⟩ := exists_bits c
  · have hbyte : (UInt8.ofNat v).toNat = v := UInt8.toNat_ofNat_of_lt' (show _ < 256 by omega)
    rw [encodeChar_one hv, List.singleton_append, pieces, first_of_lt (by omega), hbyte]
  · rw [encodeChar_two ha ha' hb]
    simp only [List.cons_append, List.nil_append]
    rw [pieces, first_two ha ha' hb]
  · rw [encodeChar_three ha hb hd hlong hscalar]
    simp only [List.cons_append, List.nil_append]
    rw [pieces, first_three ha hb hd hlong hscalar]
  · rw [encodeChar_four ha hb hd he hlong hscalar]
    simp only [List.cons_append, List.nil_append]
    rw [pieces, first_four ha hb hd he hlong hscalar]

/-- `pieces (encode cs ++ rest) = cs.map some ++ pieces rest`. -/
theorem pieces_encode_append (cs : List Char) (rest : List UInt8) :
    pieces (encode cs ++ rest) = cs.map some ++ pieces rest := by
  induction cs with
  | nil => rfl
  | cons c cs ih =>
    rw [encode] at ih ⊢
    rw [List.flatMap_cons, List.append_assoc, pieces_encodeChar, ih, List.map_cons,
      List.cons_append]

/-- `(cs.map some).mapM id = some cs`. -/
theorem mapM_map_some (cs : List Char) : (cs.map some).mapM id = some cs := by
  induction cs with
  | nil => rfl
  | cons c cs ih => simp [ih]

/-- `decode? (encode cs) = some cs`. -/
theorem decode?_encode (cs : List Char) : decode? (encode cs) = some cs := by
  have hpieces := pieces_encode_append cs []
  rw [List.append_nil, pieces, List.append_nil] at hpieces
  rw [decode?, hpieces, mapM_map_some]

/-! ## Bytes that are text -/

/-- `Lead.ofByte? b = some lead` by the number of bytes that follow. -/
theorem Lead.cases {b : Nat} {lead : Lead} (h : Lead.ofByte? b = some lead) :
    (b < 0x80 ∧ lead = ⟨0, 0, 0, b⟩) ∨
      (∃ a, 2 ≤ a ∧ a < 32 ∧ b = a + 0xC0 ∧ lead = ⟨1, 0x80, 0xBF, a⟩) ∨
      (∃ a, a < 16 ∧ b = a + 0xE0 ∧
        lead = ⟨2, if a = 0 then 0xA0 else 0x80, if a = 13 then 0x9F else 0xBF, a⟩) ∨
      ∃ a, a < 5 ∧ b = a + 0xF0 ∧
        lead = ⟨3, if a = 0 then 0x90 else 0x80, if a = 4 then 0x8F else 0xBF, a⟩ := by
  unfold Lead.ofByte? at h
  -- the branches of the definition; three of them have bounds of their own for the byte behind
  split at h
  · cases h
    exact .inl ⟨by assumption, rfl⟩
  right
  split at h
  · cases h
    exact .inl ⟨b - 0xC0, by omega, by omega, by omega, rfl⟩
  right
  split at h
  · cases h
    exact .inl ⟨0, by omega, by omega, rfl⟩
  split at h
  · cases h
    exact .inl ⟨13, by omega, by omega, rfl⟩
  split at h
  · cases h
    exact .inl ⟨b - 0xE0, by omega, by omega, by rw [if_neg (by omega), if_neg (by omega)]⟩
  right
  split at h
  · cases h
    exact ⟨0, by omega, by omega, rfl⟩
  split at h
  · cases h
    exact ⟨b - 0xF0, by omega, by omega, by rw [if_neg (by omega), if_neg (by omega)]⟩
  split at h
  · cases h
    exact ⟨4, by omega, by omega, rfl⟩
  · cases h

/-- If `follow (following + 1)` gives a character, `rest` starts with a byte `tail +
0x80` from `low` to `high`, and `follow following` goes on behind it with the bits of `tail`. -/
theorem exists_of_follow_succ {following low high bits : Nat} {rest rest' : List UInt8} {c : Char}
    (hlow : 0x80 ≤ low) (hhigh : high ≤ 0xBF)
    (h : follow (following + 1) low high bits rest = (some c, rest')) :
    ∃ tail behind, low ≤ tail + 0x80 ∧ tail + 0x80 ≤ high ∧ tail < 64 ∧
      rest = UInt8.ofNat (tail + 0x80) :: behind ∧
      follow following 0x80 0xBF (64 * bits + tail) behind = (some c, rest') := by
  cases rest with
  | nil => cases h
  | cons b behind =>
    rw [follow] at h
    split at h
    · rename_i hbounds
      have hbyte : b = UInt8.ofNat (b.toNat - 0x80 + 0x80) := by
        rw [Nat.sub_add_cancel (by omega), UInt8.ofNat_toNat]
      exact ⟨b.toNat - 0x80, behind, by omega, by omega, by omega, congrArg (· :: behind) hbyte, h⟩
    · cases h

/-- If `first b rest = (some c, rest')`, then `b :: rest` are the bytes of `c` and `rest'`. -/
theorem eq_of_first {b : UInt8} {rest rest' : List UInt8} {c : Char}
    (h : first b rest = (some c, rest')) : b :: rest = String.utf8EncodeChar c ++ rest' := by
  rw [first] at h
  cases hlead : Lead.ofByte? b.toNat with
  | none =>
    rw [hlead] at h
    cases h
  | some lead =>
    rw [hlead] at h
    have hb : b = UInt8.ofNat b.toNat := UInt8.ofNat_toNat.symm
    -- one case for each number of following bytes, whose bits are those of the character
    obtain ⟨hone, rfl⟩ | ⟨a, ha, ha', hbyte, rfl⟩ | ⟨a, ha, hbyte, rfl⟩ | ⟨a, ha, hbyte, rfl⟩ :=
      Lead.cases hlead
    · cases h
      have hval : (Char.ofNat b.toNat).val.toNat = b.toNat := val_ofNat (by omega)
      rw [String.utf8EncodeChar]
      simp only [hval]
      rw [if_pos (by omega), ← hb]
      rfl
    · change follow 1 0x80 0xBF a rest = (some c, rest') at h
      obtain ⟨t, behind, -, -, ht, rfl, hend⟩ := exists_of_follow_succ (by decide) (by decide) h
      cases hend
      rw [hb, hbyte, encodeChar_two ha ha' ht]
      rfl
    · change follow 2 (if a = 0 then 0xA0 else 0x80) (if a = 13 then 0x9F else 0xBF) a rest = _ at h
      obtain ⟨t, behind, hlow, hhigh, ht, rfl, hnext⟩ :=
        exists_of_follow_succ (by split <;> decide) (by split <;> decide) h
      obtain ⟨u, behind, -, -, hu, rfl, hend⟩ :=
        exists_of_follow_succ (by decide) (by decide) hnext
      cases hend
      have hlong (hzero : a = 0) : 32 ≤ t := by
        rw [if_pos hzero] at hlow
        omega
      have hscalar (hthirteen : a = 13) : t < 32 := by
        rw [if_pos hthirteen] at hhigh
        omega
      rw [hb, hbyte, encodeChar_three ha ht hu hlong hscalar]
      rfl
    · change follow 3 (if a = 0 then 0x90 else 0x80) (if a = 4 then 0x8F else 0xBF) a rest = _ at h
      obtain ⟨t, behind, hlow, hhigh, ht, rfl, hnext⟩ :=
        exists_of_follow_succ (by split <;> decide) (by split <;> decide) h
      obtain ⟨u, behind, -, -, hu, rfl, hlast⟩ :=
        exists_of_follow_succ (by decide) (by decide) hnext
      obtain ⟨v, behind, -, -, hv, rfl, hend⟩ :=
        exists_of_follow_succ (by decide) (by decide) hlast
      cases hend
      have hlong (hzero : a = 0) : 16 ≤ t := by
        rw [if_pos hzero] at hlow
        omega
      have hscalar (hfour : a = 4) : t < 16 := by
        rw [if_pos hfour] at hhigh
        omega
      rw [hb, hbyte, encodeChar_four ha ht hu hv hlong hscalar]
      rfl

/-- `decode? bytes = some cs` iff `bytes = encode cs`. -/
theorem decode?_eq_some_iff {bytes : List UInt8} {cs : List Char} :
    decode? bytes = some cs ↔ bytes = encode cs := by
  constructor
  · intro h
    rw [decode?] at h
    -- a text has only pieces that are characters, and each of them is written as it was read
    fun_induction pieces bytes generalizing cs with
    | case1 =>
      cases h
      rfl
    | case2 b rest ih =>
      cases hfirst : first b rest with
      | mk piece rest' =>
        rw [hfirst] at h ih
        cases piece with
        | none => cases h
        | some c =>
          rw [List.mapM_cons] at h
          cases hmore : (pieces rest').mapM id with
          | none =>
            rw [hmore] at h
            cases h
          | some ds =>
            rw [hmore] at h
            cases h
            have hrest : rest' = encode ds := ih hmore
            rw [eq_of_first hfirst, hrest, encode, encode, List.flatMap_cons]
  · rintro rfl
    exact decode?_encode cs

/-! ## Bytes below 128 -/

/-- A byte below 128 among the bytes of `c` is all of them. -/
theorem eq_of_mem_encodeChar {c : Char} {b : UInt8} (hb : b.toNat < 0x80)
    (h : b ∈ String.utf8EncodeChar c) :
    String.utf8EncodeChar c = [b] ∧ c = Char.ofNat b.toNat := by
  -- the bytes of longer sequences are above
  have hhigh {n : Nat} (hn : 0x80 ≤ n) (hn' : n < 256) : b ≠ UInt8.ofNat n := by
    rintro rfl
    rw [UInt8.toNat_ofNat_of_lt' hn'] at hb
    omega
  obtain ⟨v, hv, rfl⟩ | ⟨a, x, ha, ha', hx, rfl⟩ | ⟨a, x, y, ha, hx, hy, hlong, hscalar, rfl⟩ |
    ⟨a, x, y, z, ha, hx, hy, hz, hlong, hscalar, rfl⟩ := exists_bits c
  · rw [encodeChar_one hv, List.mem_singleton] at h
    rw [encodeChar_one hv, h, UInt8.toNat_ofNat_of_lt' (show _ < 256 by omega)]
    exact ⟨rfl, rfl⟩
  all_goals exfalso
  · rw [encodeChar_two ha ha' hx] at h
    simp only [List.mem_cons, List.not_mem_nil, or_false] at h
    obtain h | h := h
    all_goals exact hhigh (by omega) (by omega) h
  · rw [encodeChar_three ha hx hy hlong hscalar] at h
    simp only [List.mem_cons, List.not_mem_nil, or_false] at h
    obtain h | h | h := h
    all_goals exact hhigh (by omega) (by omega) h
  · rw [encodeChar_four ha hx hy hz hlong hscalar] at h
    simp only [List.mem_cons, List.not_mem_nil, or_false] at h
    obtain h | h | h | h := h
    all_goals exact hhigh (by omega) (by omega) h

/-- A byte below 128 in `encode cs` is a character of `cs`. -/
theorem mem_of_mem_encode {cs : List Char} {b : UInt8} (hb : b.toNat < 0x80) (h : b ∈ encode cs) :
    Char.ofNat b.toNat ∈ cs := by
  obtain ⟨c, hc, hmem⟩ := List.mem_flatMap.1 h
  rwa [← (eq_of_mem_encodeChar hb hmem).2]

/-- `encode (c :: cs) = String.utf8EncodeChar c ++ encode cs`. -/
theorem encode_cons (c : Char) (cs : List Char) :
    encode (c :: cs) = String.utf8EncodeChar c ++ encode cs := List.flatMap_cons

/-- A byte below 128 parts `encode cs` where its character parts `cs`. -/
theorem eq_append_of_encode {cs : List Char} {front back : List UInt8} {b : UInt8}
    (hb : b.toNat < 0x80) (h : encode cs = front ++ b :: back) :
    ∃ ds es, cs = ds ++ Char.ofNat b.toNat :: es ∧ front = encode ds ∧ back = encode es := by
  induction cs generalizing front with
  | nil => simp [encode] at h
  | cons c cs ih =>
    rw [encode_cons] at h
    rcases List.append_eq_append_iff.1 h with ⟨more, rfl, hrest⟩ | ⟨more, hseq, hrest⟩
    · obtain ⟨ds, es, rfl, rfl, rfl⟩ := ih hrest
      exact ⟨c :: ds, es, rfl, (encode_cons c ds).symm, rfl⟩
    · cases more with
      | nil =>
        -- the front is the sequence of the first character
        rw [List.append_nil] at hseq
        have hothers : encode cs = [] ++ b :: back := hrest.symm
        obtain ⟨ds, es, rfl, hfront, rfl⟩ := ih hothers
        exact ⟨c :: ds, es, rfl, by rw [encode_cons, ← hfront, List.append_nil, hseq], rfl⟩
      | cons x more =>
        -- the byte is in the sequence of the first character, and so it is that sequence
        obtain ⟨rfl, rfl⟩ := List.cons.inj hrest
        obtain ⟨hone, rfl⟩ := eq_of_mem_encodeChar hb (c := c) (by simp [hseq])
        rw [hone] at hseq
        cases front with
        | nil =>
          cases hseq
          exact ⟨[], cs, rfl, rfl, rfl⟩
        | cons y front => simp at hseq

/-- A byte below 128 ends a sequence that breaks off before it: `follow` leaves it behind `rest`. -/
theorem follow_append {low : Nat} (hlow : 0x80 ≤ low) {b : UInt8} (hb : b.toNat < 0x80)
    (following high bits : Nat) (rest : List UInt8) :
    follow following low high bits (rest ++ [b])
      = ((follow following low high bits rest).1,
          (follow following low high bits rest).2 ++ [b]) := by
  induction following generalizing low high bits rest with
  | zero => rfl
  | succ following ih =>
    cases rest with
    | nil =>
      -- at the end the byte `b` is met, which is not in the bounds of following bytes
      have hbounds : ¬ (low ≤ b.toNat ∧ b.toNat ≤ high) := by omega
      simp only [List.nil_append, follow, if_neg hbounds]
    | cons x rest =>
      rw [List.cons_append, follow, follow]
      by_cases hx : low ≤ x.toNat ∧ x.toNat ≤ high
      · rw [if_pos hx, if_pos hx]
        exact ih (Nat.le_refl _) _ _ _
      · rw [if_neg hx, if_neg hx, List.cons_append]

/-- `0x80 ≤ lead.low` where a `lead` has bytes following. -/
theorem Lead.le_low {b : Nat} {lead : Lead} (h : Lead.ofByte? b = some lead)
    (hfollowing : lead.following ≠ 0) : 0x80 ≤ lead.low := by
  unfold Lead.ofByte? at h
  repeat' split at h
  all_goals cases h
  · exact absurd rfl hfollowing
  all_goals exact Nat.le_of_ble_eq_true rfl

/-- `first x (rest ++ [b])` is `first x rest` with `b` left behind, for `b` below 128. -/
theorem first_append {b : UInt8} (hb : b.toNat < 0x80) (x : UInt8) (rest : List UInt8) :
    first x (rest ++ [b]) = ((first x rest).1, (first x rest).2 ++ [b]) := by
  rw [first, first]
  cases hlead : Lead.ofByte? x.toNat with
  | none => rfl
  | some lead =>
    by_cases hfollowing : lead.following = 0
    · simp only [hfollowing, follow]
    · exact follow_append (Lead.le_low hlead hfollowing) hb _ _ _ _

/-- `pieces (bytes ++ [b])` has the piece of `b` behind those of `bytes`, for `b` below 128. -/
theorem pieces_append {b : UInt8} (hb : b.toNat < 0x80) (bytes : List UInt8) :
    pieces (bytes ++ [b]) = pieces bytes ++ [some (Char.ofNat b.toNat)] := by
  fun_induction pieces bytes with
  | case1 => simp [pieces, first_of_lt hb]
  | case2 x rest ih =>
    rw [List.cons_append, pieces, first_append hb]
    simp only [ih, List.cons_append]

/-- `decode? (bytes ++ [b])` has the character `b` behind `decode? bytes`, for `b` below 128. -/
theorem decode?_append {b : UInt8} (hb : b.toNat < 0x80) (bytes : List UInt8) :
    decode? (bytes ++ [b]) = (decode? bytes).map (· ++ [Char.ofNat b.toNat]) := by
  rw [decode?, pieces_append hb, List.mapM_append, decode?]
  cases (pieces bytes).mapM id with
  | none => rfl
  | some cs => rfl

end Utf8
end Concolic

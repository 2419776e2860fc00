import Concolic.Answers.Record
import Concolic.Proofs.Quotations
import Concolic.Text.Decimal

/-! # Renderings of answers

An answer is written on a line as a JSON object of its two members in either order, the name in any
quotation and each byte by its decimal digits, with any white space between the tokens
(`Answer.Rendered`). Reading follows the tokens: each reader takes the tokens it is for and leaves
the others, spaced as they were. So a rendering is read back as the answer
(`Answer.read_of_rendered`), and it holds no line feed. -/

namespace Concolic
namespace Json

/-! ## Tokens -/

/-- The tokens in order, with any white space but line feeds before each of them and behind the
last. -/
inductive Spaced : List (List Char) → List Char → Prop where
  /-- There is no token. -/
  | nil : Spaced [] []
  /-- White space comes first. -/
  | gap {tokens : List (List Char)} {cs : List Char} {c : Char}
      (hc : c = ' ' ∨ c = '\t' ∨ c = '\r') (h : Spaced tokens cs) : Spaced tokens (c :: cs)
  /-- A token comes first. -/
  | token {tokens : List (List Char)} {cs : List Char} (token : List Char) (h : Spaced tokens cs) :
      Spaced (token :: tokens) (token ++ cs)

/-- Tokens with white space put before each of them are `Spaced`. -/
theorem spaced_flatMap {parts : List (List Char × List Char)}
    (h : ∀ p ∈ parts, ∀ c ∈ p.1, c = ' ' ∨ c = '\t' ∨ c = '\r') :
    Spaced (parts.map Prod.snd) (parts.flatMap fun p => p.1 ++ p.2) := by
  induction parts with
  | nil => exact .nil
  | cons p parts ih =>
    obtain ⟨hgap, hparts⟩ := List.forall_mem_cons.1 h
    rw [List.map_cons, List.flatMap_cons, List.append_assoc]
    obtain ⟨gap, token⟩ := p
    induction gap with
    | nil => exact .token token (ih hparts)
    | cons c gap ihgap =>
      obtain ⟨hc, hrest⟩ := List.forall_mem_cons.1 hgap
      exact .gap hc (ihgap (List.forall_mem_cons.2 ⟨hrest, hparts⟩) hrest)

/-- `isSpace c = true` for a space, a tab and a carriage return. -/
theorem isSpace_of_gap {c : Char} (h : c = ' ' ∨ c = '\t' ∨ c = '\r') : isSpace c = true := by
  obtain rfl | rfl | rfl := h
  all_goals rfl

/-- If `Spaced ((c :: token) :: tokens) cs`, then `skipSpace cs` starts with `c :: token`. -/
theorem Spaced.skipSpace_eq {c : Char} {token : List Char} {tokens : List (List Char)}
    {cs : List Char} (h : Spaced ((c :: token) :: tokens) cs) (hc : isSpace c = false) :
    ∃ rest, Spaced tokens rest ∧ skipSpace cs = c :: (token ++ rest) := by
  generalize htokens : (c :: token) :: tokens = all at h
  induction h with
  | nil => cases htokens
  | gap hgap _ ih =>
    rw [skipSpace, if_pos (isSpace_of_gap hgap)]
    exact ih htokens
  | token _ h =>
    cases htokens
    refine ⟨_, h, ?_⟩
    rw [List.cons_append, skipSpace, if_neg (by simp [hc])]

/-- `Spaced [] cs` gives `readEnd cs = .ok ()`. -/
theorem Spaced.readEnd_eq {cs : List Char} (h : Spaced [] cs) : readEnd cs = .ok () := by
  suffices skipSpace cs = [] by rw [readEnd, this]
  generalize htokens : [] = tokens at h
  induction h with
  | nil => rfl
  | gap hc _ ih => rw [skipSpace, if_pos (isSpace_of_gap hc), ih htokens]
  | token _ _ => cases htokens

/-- If `Spaced ((c :: token) :: tokens) cs`, then `cs` starts with white space or with `c`. -/
theorem Spaced.exists_eq_cons {c : Char} {token : List Char}
    {tokens : List (List Char)} {cs : List Char}
    (h : Spaced ((c :: token) :: tokens) cs) :
    ∃ d rest, cs = d :: rest ∧ (d = c ∨ d = ' ' ∨ d = '\t' ∨ d = '\r') := by
  cases h with
  | gap hc _ => exact ⟨_, _, rfl, .inr hc⟩
  | token _ _ => exact ⟨_, _, List.cons_append, .inl rfl⟩

/-- `Spaced tokens cs` gives that no line feed is in `cs`, if none is in `tokens`. -/
theorem Spaced.lineFeed_not_mem {tokens : List (List Char)} {cs : List Char}
    (h : Spaced tokens cs) (htokens : ∀ t ∈ tokens, '\n' ∉ t) : '\n' ∉ cs := by
  induction h with
  | nil => exact List.not_mem_nil
  | @gap _ _ c hc _ ih =>
    have hgap : c ≠ '\n' := by
      rintro rfl
      exact absurd hc (by decide)
    simp [hgap.symm, ih htokens]
  | token t _ ih =>
    obtain ⟨ht, hrest⟩ := List.forall_mem_cons.1 htokens
    simp [ht, ih hrest]

/-! ## Numbers -/

/-- `Decimal.digit n` has the value `n % 10`, and is neither white space, a minus sign nor a
bracket. -/
theorem digit_facts (n : Nat) : digitValue? (Decimal.digit n) = some (n % 10) ∧
    isSpace (Decimal.digit n) = false ∧ Decimal.digit n ≠ '-' ∧ Decimal.digit n ≠ ']' ∧
    (Decimal.digit n = '0' → n % 10 = 0) := by
  have hall : ∀ i : Fin 10, digitValue? (Char.ofNat (48 + i)) = some i.val ∧
      isSpace (Char.ofNat (48 + i)) = false ∧ Char.ofNat (48 + i) ≠ '-' ∧
      Char.ofNat (48 + i) ≠ ']' ∧ (Char.ofNat (48 + i) = '0' → i.val = 0) := by decide
  exact hall ⟨n % 10, Nat.mod_lt n (by decide)⟩

/-- `readDigits` reads `n` from `Decimal.ofNat n`. -/
theorem readDigits_ofNat (n : Nat) (rest : List Char) :
    readDigits 0 0 (Decimal.ofNat n ++ rest) = readDigits n (Decimal.ofNat n).length rest := by
  fun_induction Decimal.ofNat n generalizing rest with
  | case1 n hn =>
    rw [List.singleton_append, readDigits, (digit_facts n).1]
    simp [Nat.mod_eq_of_lt hn]
  | case2 n hn ih =>
    rw [List.append_assoc, ih, List.singleton_append, readDigits, (digit_facts n).1]
    simp only [List.length_append, List.length_singleton, Nat.div_add_mod]

/-- No line feed is in `Decimal.ofNat n`. -/
theorem lineFeed_not_mem_ofNat (n : Nat) : '\n' ∉ Decimal.ofNat n := by
  have hdigit (n : Nat) : '\n' ≠ Decimal.digit n := by
    intro hdigit
    have hspace := (digit_facts n).2.1
    rw [← hdigit] at hspace
    cases hspace
  fun_induction Decimal.ofNat n with
  | case1 n _ => simp [hdigit n]
  | case2 n _ ih => simp [ih, hdigit n]

/-- `Decimal.ofNat n` starts with a digit, with zero only if that is all. -/
theorem exists_ofNat_eq_cons (n : Nat) :
    ∃ d ds, Decimal.ofNat n = Decimal.digit d :: ds ∧ (d % 10 = 0 → ds = []) := by
  suffices ∃ d ds, Decimal.ofNat n = Decimal.digit d :: ds ∧ (d % 10 = 0 → n = 0) by
    obtain ⟨d, ds, heq, hzero⟩ := this
    refine ⟨d, ds, heq, ?_⟩
    intro hd
    rw [hzero hd, Decimal.ofNat, if_pos (by decide)] at heq
    exact (List.cons.inj heq).2.symm
  fun_induction Decimal.ofNat n with
  | case1 n hn => exact ⟨n, [], rfl, fun hzero => by omega⟩
  | case2 n hn ih =>
    obtain ⟨d, ds, heq, hzero⟩ := ih
    refine ⟨d, ds ++ [Decimal.digit n], by rw [heq, List.cons_append], ?_⟩
    intro hd
    have := hzero hd
    omega

/-- `readUnsigned .exact negative` reads `n` from `Decimal.ofNat n` up to what ends it. -/
theorem readUnsigned_ofNat (negative : Bool) (n : Nat) {c : Char}
    (hc : digitValue? c = none ∧ c ≠ '.' ∧ c ≠ 'e' ∧ c ≠ 'E') (rest : List Char) :
    readUnsigned .exact negative (Decimal.ofNat n ++ c :: rest)
      = .ok (⟨negative, n, 0, true⟩, c :: rest) := by
  have hdigits : readDigits 0 0 (Decimal.ofNat n ++ c :: rest)
      = ⟨n, (Decimal.ofNat n).length, c :: rest⟩ := by
    rw [readDigits_ofNat, readDigits, hc.1]
  obtain ⟨d, ds, heq, hzero⟩ := exists_ofNat_eq_cons n
  have hcount : (Decimal.ofNat n).length ≠ 0 := by simp [heq]
  -- a zero in front of other digits is refused, and is not written
  have halone : ¬ ((Decimal.ofNat n ++ c :: rest).head? = some '0' ∧
      (Decimal.ofNat n).length ≠ 1) := by
    rintro ⟨hhead, hlength⟩
    rw [heq, List.cons_append, List.head?_cons, Option.some.injEq] at hhead
    have hds := hzero ((digit_facts d).2.2.2.2 hhead)
    exact hlength (by rw [heq, hds, List.length_singleton])
  rw [readUnsigned, hdigits]
  simp only
  rw [if_neg hcount, if_neg halone, readFraction, if_neg hc.2.1, readExponent,
    if_neg (by simp [hc])]

/-- `readNumber` reads the number of the numeral that `readNumeral .exact` reads. -/
theorem readNumber_of_readNumeral {cs rest : List Char} {numeral : Numeral} {x : Number}
    (hread : readNumeral .exact cs = .ok (numeral, rest)) (hx : numeral.number = .ok x) :
    readNumber cs = .ok (x, rest) := by
  rw [readNumber, hread]
  simp only [hx]

/-- `readNumber` reads `.int n` from `Decimal.ofNat n` up to what ends it. -/
theorem readNumber_ofNat {n : Nat} (hn : n < UInt64.size) {c : Char}
    (hc : digitValue? c = none ∧ c ≠ '.' ∧ c ≠ 'e' ∧ c ≠ 'E') (rest : List Char) :
    readNumber (Decimal.ofNat n ++ c :: rest) = .ok (.int n, c :: rest) := by
  have hnumeral : readNumeral .exact (Decimal.ofNat n ++ c :: rest)
      = .ok (⟨false, n, 0, true⟩, c :: rest) := by
    obtain ⟨d, ds, heq, -⟩ := exists_ofNat_eq_cons n
    have hminus : (Decimal.ofNat n ++ c :: rest).head? ≠ some '-' := by
      rw [heq, List.cons_append, List.head?_cons, ne_eq, Option.some.injEq]
      exact (digit_facts d).2.2.1
    rw [readNumeral_of_ne _ hminus, readUnsigned_ofNat false n hc]
  have hnumber : Numeral.number ⟨false, n, 0, true⟩ = .ok (.int n) := by
    rw [Numeral.number, if_pos ⟨rfl, Bool.false_ne_true, hn⟩]
  exact readNumber_of_readNumeral hnumeral hnumber

end Json

namespace Answer

open Json

/-- The tokens of `bytes` behind the first: each behind a comma, and the bracket that closes. -/
def moreByteTokens (bytes : List UInt8) : List (List Char) :=
  bytes.flatMap (fun b => [[','], Decimal.ofNat b.toNat]) ++ [[']']]

/-- The tokens of bytes: decimal numbers with commas between them, in brackets. -/
def byteTokens : List UInt8 → List (List Char)
  | [] => [['['], [']']]
  | b :: bytes => ['['] :: Decimal.ofNat b.toNat :: moreByteTokens bytes

/-- The tokens of an object with two members, each of them a quoted key and a value. -/
def objectTokens (key : List Char) (value : List (List Char)) (key' : List Char)
    (value' : List (List Char)) : List (List Char) :=
  ['\x7b'] :: key :: [':'] :: (value ++ [','] :: key' :: [':'] :: (value' ++ [['\x7d']]))

/-- The renderings of an answer on a line: an object of its two members, either of them first. -/
inductive Rendered (a : Answer) : List Char → Prop where
  /-- The name comes first. -/
  | nameFirst {name text bytes cs : List Char} (hname : Quotation "name".toList name)
      (htext : Quotation a.name.toList text) (hbytes : Quotation "bytes".toList bytes)
      (h : Spaced (objectTokens name [text] bytes (byteTokens a.bytes)) cs) : Rendered a cs
  /-- The bytes come first. -/
  | bytesFirst {name text bytes cs : List Char} (hname : Quotation "name".toList name)
      (htext : Quotation a.name.toList text) (hbytes : Quotation "bytes".toList bytes)
      (h : Spaced (objectTokens bytes (byteTokens a.bytes) name [text]) cs) : Rendered a cs

/-! ## Reading renderings -/

section Tokens

variable {tokens : List (List Char)} {cs : List Char}

/-- If `Spaced (q :: tokens) cs` with a `Quotation text q`, then `readQuoted .exact` reads `text`
behind the first quote of `cs`. -/
theorem readQuoted_of_spaced {text q : List Char} (hq : Quotation text q)
    (h : Spaced (q :: tokens) cs) :
    ∃ inner rest, skipSpace cs = '"' :: inner ∧ readQuoted .exact inner = .ok (text, rest) ∧
      Spaced tokens rest := by
  obtain ⟨hspelling⟩ := hq
  obtain ⟨rest, hrest, hcs⟩ := h.skipSpace_eq rfl
  rw [List.append_assoc, List.singleton_append] at hcs
  exact ⟨_, rest, hcs, readQuoted_of_spelling hspelling rest, hrest⟩

/-- If `Spaced (q :: tokens) cs` with a `Quotation text q`, then `readText` reads `text` from
`cs`. -/
theorem readText_of_spaced {text q : List Char} (hq : Quotation text q)
    (h : Spaced (q :: tokens) cs) :
    ∃ rest, Spaced tokens rest ∧ readText cs = .ok (String.ofList text, rest) := by
  obtain ⟨inner, rest, hcs, hread, hrest⟩ := readQuoted_of_spaced hq h
  refine ⟨rest, hrest, ?_⟩
  simp only [readText, hcs, if_true, hread]

/-- If `Spaced ([':'] :: tokens) cs`, then `readColon` passes over the colon. -/
theorem readColon_of_spaced (h : Spaced ([':'] :: tokens) cs) :
    ∃ rest, Spaced tokens rest ∧ readColon cs = .ok rest := by
  obtain ⟨rest, hrest, hcs⟩ := h.skipSpace_eq rfl
  refine ⟨rest, hrest, ?_⟩
  simp only [readColon, hcs, if_true, List.nil_append]

/-- If `Spaced (Decimal.ofNat n :: tokens) cs`, then `skipSpace cs` starts with the digits of
`n`. -/
theorem skipSpace_of_spaced_ofNat {n : Nat} (h : Spaced (Decimal.ofNat n :: tokens) cs) :
    ∃ d ds rest, Decimal.ofNat n = Decimal.digit d :: ds ∧ Spaced tokens rest ∧
      skipSpace cs = Decimal.digit d :: (ds ++ rest) := by
  obtain ⟨d, ds, hdigits, -⟩ := exists_ofNat_eq_cons n
  rw [hdigits] at h
  obtain ⟨rest, hrest, hcs⟩ := h.skipSpace_eq (digit_facts d).2.1
  exact ⟨d, ds, rest, hdigits, hrest, hcs⟩

/-- `readByte` reads `b` from its digits if a comma or a bracket follows. -/
theorem readByte_of_spaced {b : UInt8} {c : Char} {token : List Char} (hc : c = ',' ∨ c = ']')
    (h : Spaced (Decimal.ofNat b.toNat :: (c :: token) :: tokens) cs) :
    ∃ rest, Spaced ((c :: token) :: tokens) rest ∧ readByte cs = .ok (b, rest) := by
  have hbyte := b.toNat_lt
  obtain ⟨d, ds, rest, hdigits, hrest, hcs⟩ := skipSpace_of_spaced_ofNat h
  obtain ⟨e, rest', rfl, he⟩ := hrest.exists_eq_cons
  refine ⟨_, hrest, ?_⟩
  -- what stands behind the digits is white space, a comma or a bracket, and ends the number
  have hends : digitValue? e = none ∧ e ≠ '.' ∧ e ≠ 'e' ∧ e ≠ 'E' := by
    obtain rfl | rfl | rfl | rfl := he
    · obtain rfl | rfl := hc
      all_goals decide
    all_goals decide
  have hnumber := readNumber_ofNat (show b.toNat < UInt64.size by simp only [UInt64.size]; omega)
    hends rest'
  rw [hdigits, List.cons_append] at hnumber
  have hdigit : (digitValue? (Decimal.digit d)).isSome = true := by rw [(digit_facts d).1]; rfl
  have hrange : (0 : Int) ≤ (b.toNat : Int) ∧ (b.toNat : Int) < 256 := by omega
  simp only [readByte, hcs, hdigit, or_true, if_true, hnumber, if_pos hrange, Int.toNat_natCast,
    UInt8.ofNat_toNat]

/-- `readByte` reads `b` from its digits before `moreByteTokens bytes`. -/
theorem readByte_of_spaced_more {b : UInt8} {bytes : List UInt8}
    (h : Spaced (Decimal.ofNat b.toNat :: (moreByteTokens bytes ++ tokens)) cs) :
    ∃ rest, Spaced (moreByteTokens bytes ++ tokens) rest ∧ readByte cs = .ok (b, rest) := by
  cases bytes with
  | nil => exact readByte_of_spaced (.inr rfl) h
  | cons b' bytes => exact readByte_of_spaced (.inl rfl) h

/-- If `Spaced (moreByteTokens bytes ++ tokens) cs`, then `readMoreBytes` reads `bytes` from
`cs`. -/
theorem readMoreBytes_of_spaced {bytes : List UInt8}
    (h : Spaced (moreByteTokens bytes ++ tokens) cs) :
    ∃ rest, Spaced tokens rest ∧ readMoreBytes cs = .ok (bytes, rest) := by
  induction bytes generalizing cs with
  | nil =>
    obtain ⟨rest, hrest, hcs⟩ := h.skipSpace_eq rfl
    refine ⟨rest, hrest, ?_⟩
    rw [readMoreBytes_eq]
    simp only [hcs, if_true, List.nil_append]
  | cons b bytes ih =>
    obtain ⟨rest, hrest, hcs⟩ := h.skipSpace_eq rfl
    obtain ⟨d, ds, _, -, -, hdigit⟩ := skipSpace_of_spaced_ofNat hrest
    obtain ⟨rest', hrest', hread⟩ := readByte_of_spaced_more hrest
    obtain ⟨rest'', hrest'', hmore⟩ := ih hrest'
    refine ⟨rest'', hrest'', ?_⟩
    rw [readMoreBytes_eq]
    -- behind the comma stands a digit
    have hopen : ¬ (skipSpace rest).head? = some ']' := by
      rw [hdigit, List.head?_cons, Option.some.injEq]
      exact (digit_facts d).2.2.2.1
    simp only [hcs, List.nil_append, Char.reduceEq, if_false, if_true, if_neg hopen, hread, hmore]

/-- If `Spaced (byteTokens bytes ++ tokens) cs`, then `readBytes` reads `bytes` from `cs`. -/
theorem readBytes_of_spaced {bytes : List UInt8} (h : Spaced (byteTokens bytes ++ tokens) cs) :
    ∃ rest, Spaced tokens rest ∧ readBytes cs = .ok (bytes, rest) := by
  cases bytes with
  | nil =>
    obtain ⟨rest, hrest, hcs⟩ := h.skipSpace_eq rfl
    obtain ⟨rest', hrest', hclose⟩ := hrest.skipSpace_eq rfl
    refine ⟨rest', hrest', ?_⟩
    simp only [readBytes, hcs, List.nil_append, if_true, hclose]
  | cons b bytes =>
    obtain ⟨rest, hrest, hcs⟩ := h.skipSpace_eq rfl
    obtain ⟨d, ds, _, -, -, hdigit⟩ := skipSpace_of_spaced_ofNat hrest
    obtain ⟨rest', hrest', hread⟩ := readByte_of_spaced_more hrest
    obtain ⟨rest'', hrest'', hmore⟩ := readMoreBytes_of_spaced hrest'
    refine ⟨rest'', hrest'', ?_⟩
    simp only [readBytes, hcs, List.nil_append, if_true, hdigit, (digit_facts d).2.2.2.1, if_false,
      hread, hmore]

/-! ### Members -/

/-- `readMember` reads a quotation behind the key `name` into `m.name`. -/
theorem readMember_name {m : Members} (hm : m.name = none) {text q : List Char}
    (hq : Quotation text q) (h : Spaced ([':'] :: ([q] ++ tokens)) cs) :
    ∃ rest, Spaced tokens rest ∧
      readMember m "name".toList cs = .ok ({ m with name := some (String.ofList text) }, rest) := by
  obtain ⟨rest, hrest, hcolon⟩ := readColon_of_spaced h
  obtain ⟨rest', hrest', hread⟩ := readText_of_spaced hq hrest
  refine ⟨rest', hrest', ?_⟩
  rw [readMember, if_pos rfl, hm, if_neg (by decide)]
  simp only [hcolon, hread]

/-- `readMember` reads `byteTokens bytes` behind the key `bytes` into `m.bytes`. -/
theorem readMember_bytes {m : Members} (hm : m.bytes = none) {bytes : List UInt8}
    (h : Spaced ([':'] :: (byteTokens bytes ++ tokens)) cs) :
    ∃ rest, Spaced tokens rest ∧
      readMember m "bytes".toList cs = .ok ({ m with bytes := some bytes }, rest) := by
  obtain ⟨rest, hrest, hcolon⟩ := readColon_of_spaced h
  obtain ⟨rest', hrest', hread⟩ := readBytes_of_spaced hrest
  refine ⟨rest', hrest', ?_⟩
  rw [readMember, if_neg (by decide), if_pos rfl, hm, if_neg (by decide)]
  simp only [hcolon, hread]

/-- Behind a member and a comma `readMembers` goes on to the next key. -/
theorem readMembers_comma {m m' : Members} {key inner rest text q : List Char}
    (hkey : readQuoted .exact inner = .ok (key, rest))
    (hmember : readMember m key rest = .ok (m', cs))
    (hq : Quotation text q) (h : Spaced ([','] :: q :: tokens) cs) (fuel : Nat) :
    ∃ inner' rest', readMembers (fuel + 1) m inner = readMembers fuel m' inner' ∧
      readQuoted .exact inner' = .ok (text, rest') ∧ Spaced tokens rest' := by
  obtain ⟨behind, hbehind, hcs⟩ := h.skipSpace_eq rfl
  obtain ⟨inner', rest', hquote, hread, hrest'⟩ := readQuoted_of_spaced hq hbehind
  refine ⟨inner', rest', ?_, hread, hrest'⟩
  rw [readMembers, hkey]
  simp only [hmember, hcs, List.nil_append, if_true, hquote]

/-- Behind a member and the closing brace `readMembers` gives the answer. -/
theorem readMembers_close {m m' : Members} {a : Answer} {key inner rest : List Char}
    (hkey : readQuoted .exact inner = .ok (key, rest))
    (hmember : readMember m key rest = .ok (m', cs))
    (hanswer : m'.answer = .ok a) (h : Spaced (['\x7d'] :: tokens) cs) (fuel : Nat) :
    ∃ rest', Spaced tokens rest' ∧ readMembers (fuel + 1) m inner = .ok (a, rest') := by
  obtain ⟨rest', hrest', hcs⟩ := h.skipSpace_eq rfl
  refine ⟨rest', hrest', ?_⟩
  rw [readMembers, hkey]
  simp only [hmember, hcs, List.nil_append, Char.reduceEq, if_false, if_true, hanswer]

end Tokens

/-- `Answer.read` reads the answer of `m'` from an object of two members that `readMember` reads. -/
theorem read_of_spaced {a : Answer} {m m' : Members} {key key' q q' cs : List Char}
    {value value' : List (List Char)} (hq : Quotation key q) (hq' : Quotation key' q')
    (hread : ∀ {tokens : List (List Char)} {cs : List Char},
      Spaced ([':'] :: (value ++ tokens)) cs →
        ∃ rest, Spaced tokens rest ∧ readMember {} key cs = .ok (m, rest))
    (hread' : ∀ {tokens : List (List Char)} {cs : List Char},
      Spaced ([':'] :: (value' ++ tokens)) cs →
        ∃ rest, Spaced tokens rest ∧ readMember m key' cs = .ok (m', rest))
    (hanswer : m'.answer = .ok a)
    (h : Spaced (objectTokens q value q' value') cs) : Answer.read cs = .ok a := by
  obtain ⟨rest, hrest, hcs⟩ := h.skipSpace_eq rfl
  obtain ⟨inner, behind, hquote, hkey, hbehind⟩ := readQuoted_of_spaced hq hrest
  -- there is fuel for two members
  obtain ⟨fuel, hfuel⟩ : ∃ fuel, inner.length = fuel + 2 := by
    have hlt := length_readQuoted_lt hkey
    obtain ⟨d, ds, rfl, -⟩ := hbehind.exists_eq_cons
    rw [List.length_cons] at hlt
    exact ⟨inner.length - 2, by omega⟩
  obtain ⟨comma, hcomma, hfirst⟩ := hread hbehind
  obtain ⟨inner', behind', hstep, hkey', hbehind'⟩ :=
    readMembers_comma hkey hfirst hq' hcomma (fuel + 1)
  obtain ⟨brace, hbrace, hsecond⟩ := hread' hbehind'
  obtain ⟨rest', hrest', hclose⟩ := readMembers_close hkey' hsecond hanswer hbrace fuel
  simp only [Answer.read, hcs, List.nil_append, Char.reduceEq, if_false, if_true, readObject,
    hquote, hfuel, hstep, hclose, hrest'.readEnd_eq]

/-- `Rendered a cs` gives `Answer.read cs = .ok a`. -/
theorem read_of_rendered {a : Answer} {cs : List Char} (h : Rendered a cs) :
    Answer.read cs = .ok a := by
  have hanswer : Members.answer ⟨some (String.ofList a.name.toList), some a.bytes⟩ = .ok a := by
    rw [String.ofList_toList]
    rfl
  cases h with
  | nameFirst hname htext hbytes h =>
    exact read_of_spaced hname hbytes (readMember_name rfl htext) (readMember_bytes rfl) hanswer h
  | bytesFirst hname htext hbytes h =>
    exact read_of_spaced hbytes hname (readMember_bytes rfl) (readMember_name rfl htext) hanswer h

/-! ## Renderings are on one line -/

/-- No line feed is in `byteTokens bytes`. -/
theorem lineFeed_not_mem_byteTokens (bytes : List UInt8) : ∀ t ∈ byteTokens bytes, '\n' ∉ t := by
  have hmore (bytes : List UInt8) : ∀ t ∈ moreByteTokens bytes, '\n' ∉ t := by
    induction bytes with
    | nil => simp [moreByteTokens]
    | cons b bytes ih =>
      have hcons : moreByteTokens (b :: bytes)
          = [','] :: Decimal.ofNat b.toNat :: moreByteTokens bytes := rfl
      rw [hcons]
      simpa [lineFeed_not_mem_ofNat] using ih
  cases bytes with
  | nil => simp [byteTokens]
  | cons b bytes => simpa [byteTokens, lineFeed_not_mem_ofNat] using hmore bytes

/-- `Rendered a cs` gives that no line feed is in `cs`. -/
theorem Rendered.lineFeed_not_mem {a : Answer} {cs : List Char} (h : Rendered a cs) :
    '\n' ∉ cs := by
  -- white space in a rendering has no line feed, so the tokens are all there is to look at
  have hobject {key key' : List Char} {value value' : List (List Char)} (hkey : '\n' ∉ key)
      (hvalue : ∀ t ∈ value, '\n' ∉ t) (hkey' : '\n' ∉ key') (hvalue' : ∀ t ∈ value', '\n' ∉ t) :
      ∀ t ∈ objectTokens key value key' value', '\n' ∉ t := by
    intro t ht
    simp only [objectTokens, List.mem_cons, List.mem_append, List.not_mem_nil, or_false] at ht
    obtain rfl | rfl | rfl | ht | rfl | rfl | rfl | ht | rfl := ht
    · decide
    · exact hkey
    · decide
    · exact hvalue t ht
    · decide
    · exact hkey'
    · decide
    · exact hvalue' t ht
    · decide
  cases h with
  | nameFirst hname htext hbytes h =>
    have htokens := hobject hname.lineFeed_not_mem
      (List.forall_mem_singleton.2 htext.lineFeed_not_mem) hbytes.lineFeed_not_mem
      (lineFeed_not_mem_byteTokens a.bytes)
    exact h.lineFeed_not_mem htokens
  | bytesFirst hname htext hbytes h =>
    have htokens := hobject hbytes.lineFeed_not_mem (lineFeed_not_mem_byteTokens a.bytes)
      hname.lineFeed_not_mem (List.forall_mem_singleton.2 htext.lineFeed_not_mem)
    exact h.lineFeed_not_mem htokens

end Answer
end Concolic

import Concolic.Json.Quoted
import Concolic.Proofs.Utf8

/-! # Quotations

There are many ways to write a text between quotes: each character stands for itself, unless it is a
quote, a backslash or a control character, or is escaped by one letter, by the four hexadecimal
digits of its scalar value, or by those of a pair of surrogates (`Json.Spelled`). Each way is read
back as the text (`Json.readQuoted_of_spelling`) and holds no line feed. -/

namespace Concolic
namespace Json

/-! ## Spellings -/

/-- The letters of the short escapes and what they stand for. -/
def shortEscapes : List (Char × Char) :=
  [('"', '"'), ('\\', '\\'), ('/', '/'), ('b', '\x08'), ('f', '\x0c'), ('n', '\n'), ('r', '\r'),
    ('t', '\t')]

/-- The hexadecimal digits of `n` below sixteen: one for each case of letters. -/
inductive HexDigit (n : Nat) : Char → Prop where
  /-- The digit in lower case. -/
  | lower {c : Char} (h : "0123456789abcdef".toList[n]? = some c) : HexDigit n c
  /-- The digit in upper case. -/
  | upper {c : Char} (h : "0123456789ABCDEF".toList[n]? = some c) : HexDigit n c

/-- Four hexadecimal digits of a number. -/
inductive CodeUnit : Nat → List Char → Prop where
  /-- The digits from the highest to the lowest. -/
  | digits {a b c d : Nat} {w x y z : Char} (hw : HexDigit a w) (hx : HexDigit b x)
      (hy : HexDigit c y) (hz : HexDigit d z) :
      CodeUnit (((a * 16 + b) * 16 + c) * 16 + d) [w, x, y, z]

/-- The ways to write `c` between quotes. -/
inductive Spelled (c : Char) : List Char → Prop where
  /-- As it is; a quote, a backslash and control characters have to be escaped. -/
  | raw (hquote : c ≠ '"') (hbackslash : c ≠ '\\') (hcontrol : 0x20 ≤ c.toNat) : Spelled c [c]
  /-- By the letter of a short escape. -/
  | short {letter : Char} (h : (letter, c) ∈ shortEscapes) : Spelled c ['\\', letter]
  /-- By the digits of its scalar value. -/
  | unit {digits : List Char} (h : CodeUnit c.toNat digits) : Spelled c ('\\' :: 'u' :: digits)
  /-- By a pair of surrogates, each of which carries ten bits of what is above the first plane. -/
  | pair {hs ls : List Char} (hplane : 0x10000 ≤ c.toNat)
      (hhigh : CodeUnit (0xD800 + (c.toNat - 0x10000) / 0x400) hs)
      (hlow : CodeUnit (0xDC00 + (c.toNat - 0x10000) % 0x400) ls) :
      Spelled c ('\\' :: 'u' :: (hs ++ '\\' :: 'u' :: ls))

/-- The ways to write a text between quotes, one character after the other. -/
inductive Spelling : List Char → List Char → Prop where
  /-- There is nothing to write. -/
  | nil : Spelling [] []
  /-- The first character is written before the others. -/
  | cons {c : Char} {cs s t : List Char} (hc : Spelled c s) (h : Spelling cs t) :
      Spelling (c :: cs) (s ++ t)

/-- `cs` with its quotes, each character in any of its ways. -/
inductive Quotation (cs : List Char) : List Char → Prop where
  /-- The text is spelled between the quotes. -/
  | mk {t : List Char} (h : Spelling cs t) : Quotation cs ('"' :: (t ++ ['"']))

/-- `cs` between quotes is a `Quotation` of `cs`, if no character of it needs an escape. -/
theorem quotation_raw {cs : List Char}
    (h : ∀ c ∈ cs, c ≠ '"' ∧ c ≠ '\\' ∧ 0x20 ≤ c.toNat) : Quotation cs ('"' :: (cs ++ ['"'])) := by
  refine .mk ?_
  induction cs with
  | nil => exact .nil
  | cons c cs ih =>
    obtain ⟨⟨hquote, hbackslash, hcontrol⟩, hcs⟩ := List.forall_mem_cons.1 h
    exact .cons (.raw hquote hbackslash hcontrol) (ih hcs)

/-- `HexDigit n c` gives `hexValue? c = some n`. -/
theorem hexValue?_of_hexDigit {n : Nat} {c : Char} (h : HexDigit n c) : hexValue? c = some n := by
  have hlower : ∀ i : Fin 16, hexValue? ("0123456789abcdef".toList[i]) = some i.val := by decide
  have hupper : ∀ i : Fin 16, hexValue? ("0123456789ABCDEF".toList[i]) = some i.val := by decide
  cases h with
  | lower h =>
    obtain ⟨hn, rfl⟩ := List.getElem?_eq_some_iff.1 h
    exact hlower ⟨n, hn⟩
  | upper h =>
    obtain ⟨hn, rfl⟩ := List.getElem?_eq_some_iff.1 h
    exact hupper ⟨n, hn⟩

/-- `CodeUnit n digits` gives that `readHex` reads `n` from `digits`. -/
theorem readHex_of_codeUnit {n : Nat} {digits : List Char} (h : CodeUnit n digits)
    (rest : List Char) : readHex (digits ++ rest) = .ok (n, rest) := by
  cases h with
  | digits hw hx hy hz =>
    simp only [List.cons_append, List.nil_append, readHex_cons, hexValue4?,
      hexValue?_of_hexDigit hw, hexValue?_of_hexDigit hx, hexValue?_of_hexDigit hy,
      hexValue?_of_hexDigit hz]

/-- `(letter, c) ∈ shortEscapes` gives `escaped? letter = some c`. -/
theorem escaped?_of_mem {letter c : Char} (h : (letter, c) ∈ shortEscapes) :
    letter ≠ 'u' ∧ escaped? letter = some c := by
  have hall : ∀ x ∈ shortEscapes, x.1 ≠ 'u' ∧ escaped? x.1 = some x.2 := by decide
  exact hall _ h

/-- If `'\\' :: s` spells `c`, then `readEscape .exact` reads `c` from `s`. -/
theorem readEscape_of_spelled {c : Char} {s : List Char} (h : Spelled c ('\\' :: s))
    (rest : List Char) : readEscape .exact (s ++ rest) = .ok (c, rest) := by
  have hscalar := Utf8.toNat_scalar c
  cases h with
  | raw _ hbackslash _ => exact absurd rfl hbackslash
  | short h =>
    obtain ⟨hletter, hescaped⟩ := escaped?_of_mem h
    simp only [List.cons_append, List.nil_append, readEscape, if_neg hletter, hescaped]
  | unit h =>
    -- a character is in neither range of surrogates
    have hlow : ¬ (0xDC00 ≤ c.toNat ∧ c.toNat ≤ 0xDFFF) := by omega
    have hhigh : ¬ (0xD800 ≤ c.toNat ∧ c.toNat ≤ 0xDBFF) := by omega
    simp only [List.cons_append, readEscape, readCodeUnit, readHex_of_codeUnit h, if_true,
      reduceCtorEq, if_false, if_neg hlow, if_neg hhigh, Char.ofNat_toNat]
  | @pair hs ls hplane hhigh hlow =>
    -- the two halves are numbers, for `omega` to put together
    generalize hv : c.toNat = v at *
    generalize hu : 0xD800 + (v - 0x10000) / 0x400 = u at *
    generalize hw : 0xDC00 + (v - 0x10000) % 0x400 = w at *
    have hnotLow : ¬ (0xDC00 ≤ u ∧ u ≤ 0xDFFF) := by omega
    have hisHigh : 0xD800 ≤ u ∧ u ≤ 0xDBFF := by omega
    have hisLow : 0xDC00 ≤ w ∧ w ≤ 0xDFFF := by omega
    have hscalar : 0x10000 + (u - 0xD800) * 0x400 + (w - 0xDC00) = v := by omega
    simp only [List.cons_append, List.append_assoc, readEscape, readCodeUnit,
      readHex_of_codeUnit hhigh, if_true, reduceCtorEq, if_false, if_neg hnotLow, if_pos hisHigh,
      readLowSurrogate, readHex_of_codeUnit hlow, if_pos hisLow, hscalar, ← hv, Char.ofNat_toNat]

/-- `Spelled c s` means that `s` is `[c]` or starts with a backslash. -/
theorem Spelled.cases_backslash {c : Char} {s : List Char} (h : Spelled c s) :
    (s = [c] ∧ c ≠ '"' ∧ c ≠ '\\' ∧ 0x20 ≤ c.toNat) ∨ ∃ t, s = '\\' :: t := by
  cases h with
  | raw hquote hbackslash hcontrol => exact .inl ⟨rfl, hquote, hbackslash, hcontrol⟩
  | short h => exact .inr ⟨_, rfl⟩
  | unit h => exact .inr ⟨_, rfl⟩
  | pair _ _ _ => exact .inr ⟨_, rfl⟩

/-- `Spelling cs t` gives that `readQuoted .exact` reads `cs` from `t` and a quote. -/
theorem readQuoted_of_spelling {cs t : List Char} (h : Spelling cs t) (rest : List Char) :
    readQuoted .exact (t ++ '"' :: rest) = .ok (cs, rest) := by
  induction h with
  | nil => rw [List.nil_append, readQuoted, if_pos rfl]
  | @cons c cs s t hc _ ih =>
    rw [List.append_assoc]
    obtain ⟨rfl, hquote, hbackslash, hcontrol⟩ | ⟨s, rfl⟩ := hc.cases_backslash
    · rw [List.singleton_append, readQuoted, if_neg hquote, if_neg hbackslash,
        if_neg (by omega), ih]
    · rw [List.cons_append, readQuoted_backslash, readEscape_of_spelled hc]
      simp only [ih]

/-- `HexDigit n c` gives that `c` is no line feed. -/
theorem HexDigit.ne_lineFeed {n : Nat} {c : Char} (h : HexDigit n c) : c ≠ '\n' := by
  rintro rfl
  cases hexValue?_of_hexDigit h

/-- `CodeUnit n digits` gives that no line feed is in `digits`. -/
theorem CodeUnit.lineFeed_not_mem {n : Nat} {digits : List Char} (h : CodeUnit n digits) :
    '\n' ∉ digits := by
  cases h with
  | digits hw hx hy hz =>
    simp [hw.ne_lineFeed.symm, hx.ne_lineFeed.symm, hy.ne_lineFeed.symm, hz.ne_lineFeed.symm]

/-- `Spelled c s` gives that no line feed is in `s`. -/
theorem Spelled.lineFeed_not_mem {c : Char} {s : List Char} (h : Spelled c s) : '\n' ∉ s := by
  cases h with
  | raw _ _ hcontrol =>
    rw [List.mem_singleton]
    rintro rfl
    exact absurd hcontrol (by decide)
  | @short letter h =>
    have hletter : letter ≠ '\n' := by
      rintro rfl
      cases (escaped?_of_mem h).2
    simp [hletter.symm]
  | unit h => simp [h.lineFeed_not_mem]
  | pair _ hhigh hlow => simp [hhigh.lineFeed_not_mem, hlow.lineFeed_not_mem]

/-- `Quotation text q` gives that no line feed is in `q`. -/
theorem Quotation.lineFeed_not_mem {text q : List Char} (h : Quotation text q) : '\n' ∉ q := by
  obtain ⟨hspelling⟩ := h
  suffices '\n' ∉ _ by simpa using this
  induction hspelling with
  | nil => exact List.not_mem_nil
  | cons hc _ ih => simp [hc.lineFeed_not_mem, ih]

end Json
end Concolic

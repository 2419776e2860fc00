import Concolic.Json.Reader

/-! # Carriage returns behind JSON values

A carriage return is white space between the tokens of JSON text and nothing else: no word, number
or escape holds one, and between quotes it has to be escaped. So a carriage return at the end of a
text is not read: each reader takes the same from the front of a text with and without it, or fails
in both cases (`Json.Alike`), though not with the same fault where the text breaks off. -/

namespace Concolic
namespace Json

/-! ## Readings that are alike -/

/-- `r` and `r'` are alike if both fail, or if both succeed and `r'` gives `trail x` where `r` gives
`x`. -/
def Alike {α : Type} (trail : α → α) (r r' : Except Fault α) : Prop :=
  (∃ x, r = .ok x ∧ r' = .ok (trail x)) ∨ ∃ fault fault', r = .error fault ∧ r' = .error fault'

/-- `cs` with a carriage return behind it. -/
def withReturn (cs : List Char) : List Char := cs ++ ['\r']

/-- `withReturn (c :: cs) = c :: withReturn cs`. -/
theorem withReturn_cons (c : Char) (cs : List Char) : withReturn (c :: cs) = c :: withReturn cs :=
  rfl

/-- What is read, and what is left with a carriage return behind it. -/
def leaveReturn {α : Type} (x : α × List Char) : α × List Char := (x.1, withReturn x.2)

namespace Alike

variable {α : Type} {trail : α → α} {r r' : Except Fault α}

/-- `.ok x` and `.ok (trail x)` are `Alike trail`. -/
theorem ok (x : α) : Alike trail (.ok x) (.ok (trail x)) := .inl ⟨x, rfl, rfl⟩

/-- Both readings succeed, and `rest` and `withReturn rest` are left. -/
theorem read (x : α) (rest : List Char) :
    Alike leaveReturn (.ok (x, rest)) (.ok (x, withReturn rest)) := ok (x, rest)

/-- Any two errors are `Alike trail`. -/
theorem error (fault fault' : Fault) : Alike trail (.error fault) (.error fault') :=
  .inr ⟨fault, fault', rfl, rfl⟩

/-- What is shown of two failures and of two successes is shown of all readings that are `Alike`. -/
@[elab_as_elim]
theorem elim {motive : Except Fault α → Except Fault α → Prop} (h : Alike trail r r')
    (error : ∀ fault fault', motive (.error fault) (.error fault'))
    (ok : ∀ x, motive (.ok x) (.ok (trail x))) : motive r r' := by
  obtain ⟨x, rfl, rfl⟩ | ⟨fault, fault', rfl, rfl⟩ := h
  · exact ok x
  · exact error fault fault'

/-- `Alike trail r r'` and `r = .ok x` give `r' = .ok (trail x)`. -/
theorem of_ok (h : Alike trail r r') {x : α} (hr : r = .ok x) : r' = .ok (trail x) := by
  obtain ⟨y, hy, hy'⟩ | ⟨fault, fault', hfault, -⟩ := h
  · cases hr.symm.trans hy
    exact hy'
  · cases hr.symm.trans hfault

/-- If `Alike trail r r'` and `r` fails, so does `r'`. -/
theorem of_error (h : Alike trail r r') {fault : Fault} (hr : r = .error fault) :
    ∃ fault', r' = .error fault' := by
  obtain ⟨x, hx, -⟩ | ⟨_, fault', -, hfault'⟩ := h
  · cases hr.symm.trans hx
  · exact ⟨fault', hfault'⟩

end Alike

/-! ## White space and words -/

/-- `skipSpace` passes over as much of `withReturn cs` as of `cs`, unless there is nothing else. -/
theorem skipSpace_withReturn (cs : List Char) :
    (skipSpace cs = [] ∧ skipSpace (withReturn cs) = []) ∨
      ∃ c rest, skipSpace cs = c :: rest ∧ skipSpace (withReturn cs) = c :: withReturn rest := by
  induction cs with
  | nil => exact .inl ⟨rfl, rfl⟩
  | cons c cs ih =>
    rw [withReturn_cons, skipSpace, skipSpace]
    by_cases hc : isSpace c
    · rw [if_pos hc, if_pos hc]
      exact ih
    · rw [if_neg hc, if_neg hc]
      exact .inr ⟨c, cs, rfl, rfl⟩

/-- What is shown of two ends of the text, and of one character with less text behind it, is shown
of `skipSpace cs` and `skipSpace (withReturn cs)`. -/
@[elab_as_elim]
theorem skipSpace_elim {motive : List Char → List Char → Prop} (cs : List Char) (nil : motive [] [])
    (cons : ∀ c rest, rest.length < cs.length → motive (c :: rest) (c :: withReturn rest)) :
    motive (skipSpace cs) (skipSpace (withReturn cs)) := by
  obtain ⟨h, h'⟩ | ⟨c, rest, h, h'⟩ := skipSpace_withReturn cs
  · rw [h, h']
    exact nil
  · rw [h, h']
    exact cons c rest (length_lt_of_skipSpace h)

/-- `skipSpace (withReturn cs)` starts as `skipSpace cs` does. -/
theorem head?_skipSpace_withReturn (cs : List Char) :
    (skipSpace (withReturn cs)).head? = (skipSpace cs).head? :=
  skipSpace_elim cs rfl fun _ _ _ => rfl

/-- `readEnd` reads `cs` and `withReturn cs` alike: a carriage return is white space. -/
theorem readEnd_alike (cs : List Char) :
    Alike id (readEnd cs) (readEnd (withReturn cs)) := by
  rw [readEnd, readEnd]
  exact skipSpace_elim cs (.ok ()) fun _ _ _ => .error _ _

/-- `readWord word` reads `cs` and `withReturn cs` alike, if no carriage return is in `word`. -/
theorem readWord_alike (word : List Char) (hword : '\r' ∉ word) (cs : List Char) :
    Alike withReturn (readWord word cs) (readWord word (withReturn cs)) := by
  induction word generalizing cs with
  | nil => exact .ok cs
  | cons w word ih =>
    obtain ⟨hw, hword⟩ := not_or.1 (mt List.mem_cons.2 hword)
    cases cs with
    | nil =>
      -- at the end the return is met instead, and it is no character of a word
      have hreturn : readWord (w :: word) (withReturn []) = .error .malformed := if_neg hw
      rw [hreturn]
      exact .error _ _
    | cons c cs =>
      rw [withReturn_cons, readWord, readWord]
      by_cases hc : c = w
      · rw [if_pos hc, if_pos hc]
        exact ih hword cs
      · rw [if_neg hc, if_neg hc]
        exact .error _ _

/-! ## Strings -/

/-- `hexValue4? a b c '\r' = none`. -/
theorem hexValue4?_return (a b c : Char) : hexValue4? a b c '\r' = none := by
  have hreturn : hexValue? '\r' = none := by decide
  rw [hexValue4?, hreturn]
  cases hexValue? a <;> cases hexValue? b <;> cases hexValue? c <;> rfl

/-- `readHex cs` fails if `cs` has fewer than four characters. -/
theorem readHex_of_length_lt {cs : List Char} (h : cs.length < 4) :
    ∃ fault, readHex cs = .error fault := by
  unfold readHex
  split
  · exact ⟨_, rfl⟩
  · split
    · simp only [List.length_cons] at h
      omega
    · exact ⟨_, rfl⟩

/-- With fewer than three characters neither `cs` nor `withReturn cs` has four digits. -/
theorem readHex_alike_of_length_lt {cs : List Char} (h : cs.length < 3) :
    Alike leaveReturn (readHex cs) (readHex (withReturn cs)) := by
  have hlength : (withReturn cs).length < 4 := by
    rw [withReturn, List.length_append, List.length_singleton]
    omega
  obtain ⟨fault, hread⟩ := readHex_of_length_lt (Nat.lt_succ_of_lt h)
  obtain ⟨fault', hread'⟩ := readHex_of_length_lt hlength
  rw [hread, hread']
  exact .error _ _

/-- `readHex` reads `cs` and `withReturn cs` alike. -/
theorem readHex_alike (cs : List Char) :
    Alike leaveReturn (readHex cs) (readHex (withReturn cs)) := by
  match cs with
  | a :: b :: c :: d :: rest =>
    simp only [withReturn_cons, readHex_cons]
    cases hexValue4? a b c d with
    | none => exact .error _ _
    | some n => exact .read n rest
  | [a, b, c] =>
    -- the carriage return is in the place of the fourth digit
    have hreturn : withReturn [a, b, c] = [a, b, c, '\r'] := rfl
    obtain ⟨fault, hshort⟩ := readHex_of_length_lt (show [a, b, c].length < 4 by simp)
    rw [hshort, hreturn, readHex_cons, hexValue4?_return]
    exact .error _ _
  | [a, b] => exact readHex_alike_of_length_lt (by simp)
  | [a] => exact readHex_alike_of_length_lt (by simp)
  | [] => exact readHex_alike_of_length_lt (by simp)

/-- `readLowSurrogate high cs` fails unless `cs` starts with a backslash and `u`. -/
theorem readLowSurrogate_of_ne {cs : List Char} (h : ∀ rest, cs ≠ '\\' :: 'u' :: rest)
    (high : Nat) : ∃ fault, readLowSurrogate high cs = .error fault := by
  unfold readLowSurrogate
  split
  · exact ⟨_, rfl⟩
  · exact ⟨_, rfl⟩
  · exact absurd rfl (h _)
  · exact ⟨_, rfl⟩

/-- `readLowSurrogate high` reads `cs` and `withReturn cs` alike. -/
theorem readLowSurrogate_alike (high : Nat) (cs : List Char) :
    Alike leaveReturn (readLowSurrogate high cs) (readLowSurrogate high (withReturn cs)) := by
  by_cases hescape : ∃ rest, cs = '\\' :: 'u' :: rest
  · obtain ⟨rest, rfl⟩ := hescape
    simp only [withReturn_cons, readLowSurrogate]
    refine (readHex_alike rest).elim Alike.error ?_
    intro x
    obtain ⟨low, rest⟩ := x
    dsimp only [leaveReturn]
    split
    · exact .read _ rest
    · exact .error _ _
  · -- the return at the end does not make an escape of what is none
    have hreturn (rest : List Char) : withReturn cs ≠ '\\' :: 'u' :: rest := by
      intro h
      match cs with
      | [] => cases h
      | [c] => cases h
      | c :: d :: cs =>
        cases h
        exact hescape ⟨cs, rfl⟩
    obtain ⟨fault, h⟩ := readLowSurrogate_of_ne (not_exists.1 hescape) high
    obtain ⟨fault', h'⟩ := readLowSurrogate_of_ne hreturn high
    rw [h, h']
    exact .error _ _

/-- `readCodeUnit mode` reads `cs` and `withReturn cs` alike. -/
theorem readCodeUnit_alike (mode : Mode) (cs : List Char) :
    Alike leaveReturn (readCodeUnit mode cs) (readCodeUnit mode (withReturn cs)) := by
  rw [readCodeUnit, readCodeUnit]
  refine (readHex_alike cs).elim Alike.error ?_
  intro x
  obtain ⟨unit, rest⟩ := x
  dsimp only [leaveReturn]
  split
  · exact .read _ rest
  split
  · exact .error _ _
  split
  · exact readLowSurrogate_alike unit rest
  · exact .read _ rest

/-- `readEscape mode` reads `cs` and `withReturn cs` alike: a carriage return is no letter of an
escape. -/
theorem readEscape_alike (mode : Mode) (cs : List Char) :
    Alike leaveReturn (readEscape mode cs) (readEscape mode (withReturn cs)) := by
  cases cs with
  | nil =>
    have hreturn : readEscape mode (withReturn []) = .error .malformed := rfl
    rw [hreturn]
    exact .error _ _
  | cons c cs =>
    rw [withReturn_cons, readEscape, readEscape]
    split
    · exact readCodeUnit_alike mode cs
    · cases escaped? c with
      | none => exact .error _ _
      | some e => exact .read e cs

/-- `readQuoted mode` reads `cs` and `withReturn cs` alike: a carriage return may not stand between
quotes. -/
theorem readQuoted_alike (mode : Mode) (cs : List Char) :
    Alike leaveReturn (readQuoted mode cs) (readQuoted mode (withReturn cs)) := by
  fun_induction readQuoted mode cs with
  | case1 =>
    -- a text that does not end meets the return, which is no character of a text
    have hreturn : readQuoted mode (withReturn []) = .error .malformed := by
      rw [withReturn, List.nil_append, readQuoted, if_neg (by decide), if_neg (by decide),
        if_pos (by decide)]
    rw [hreturn]
    exact .error _ _
  | case2 cs =>
    rw [withReturn_cons, readQuoted, if_pos rfl]
    exact .read [] cs
  | case3 cs fault hread =>
    obtain ⟨fault', hread'⟩ := (readEscape_alike mode cs).of_error hread
    rw [withReturn_cons, readQuoted_backslash, hread']
    exact .error _ _
  | case4 cs e rest hread _ fault hmore _ ih =>
    have hread' := (readEscape_alike mode cs).of_ok hread
    obtain ⟨fault', hmore'⟩ := ih.of_error hmore
    rw [withReturn_cons, readQuoted_backslash, hread']
    simp only [leaveReturn, hmore']
    exact .error _ _
  | case5 cs e rest hread _ text rest' hmore _ ih =>
    have hread' := (readEscape_alike mode cs).of_ok hread
    have hmore' := ih.of_ok hmore
    rw [withReturn_cons, readQuoted_backslash, hread']
    simp only [leaveReturn, hmore']
    exact .read _ rest'
  | case6 c cs hquote hbackslash hcontrol =>
    rw [withReturn_cons, readQuoted, if_neg hquote, if_neg hbackslash, if_pos hcontrol]
    exact .error _ _
  | case7 c cs hquote hbackslash hcontrol fault hmore ih =>
    obtain ⟨fault', hmore'⟩ := ih.of_error hmore
    rw [withReturn_cons, readQuoted, if_neg hquote, if_neg hbackslash, if_neg hcontrol, hmore']
    exact .error _ _
  | case8 c cs hquote hbackslash hcontrol text rest hmore ih =>
    have hmore' := ih.of_ok hmore
    rw [withReturn_cons, readQuoted, if_neg hquote, if_neg hbackslash, if_neg hcontrol, hmore']
    exact .read _ rest

/-! ## Numbers -/

/-- `readDigits` reads the same from `withReturn cs` as from `cs`: a carriage return ends the
digits. -/
theorem readDigits_withReturn (value count : Nat) (cs : List Char) :
    readDigits value count (withReturn cs)
      = { readDigits value count cs with rest := withReturn (readDigits value count cs).rest } := by
  induction cs generalizing value count with
  | nil => rfl
  | cons c cs ih =>
    rw [withReturn_cons, readDigits, readDigits]
    cases digitValue? c with
    | none => rfl
    | some d => exact ih _ _

/-- `splitSign` splits the same sign off `withReturn cs` as off `cs`. -/
theorem splitSign_withReturn (cs : List Char) :
    Number.splitSign (withReturn cs)
      = ((Number.splitSign cs).1, withReturn (Number.splitSign cs).2) := by
  cases cs with
  | nil => rfl
  | cons c cs =>
    rw [withReturn_cons, Number.splitSign, Number.splitSign]
    split
    · rfl
    · split
      · rfl
      · rfl

/-- `readExponent mode n` reads `cs` and `withReturn cs` alike. -/
theorem readExponent_alike (mode : Mode) (n : Numeral) (cs : List Char) :
    Alike leaveReturn (readExponent mode n cs) (readExponent mode n (withReturn cs)) := by
  cases cs with
  | nil =>
    have hreturn : readExponent mode n (withReturn []) = .ok (n, withReturn []) := rfl
    rw [hreturn]
    exact .read n []
  | cons c cs =>
    rw [withReturn_cons, readExponent, readExponent]
    by_cases hc : c = 'e' ∨ c = 'E'
    · simp only [if_pos hc, splitSign_withReturn, readDigits_withReturn]
      split
      · exact .error _ _
      · exact .read _ _
    · rw [if_neg hc, if_neg hc]
      exact .read n (c :: cs)

/-- `readFraction mode n` reads `cs` and `withReturn cs` alike. -/
theorem readFraction_alike (mode : Mode) (n : Numeral) (cs : List Char) :
    Alike leaveReturn (readFraction mode n cs) (readFraction mode n (withReturn cs)) := by
  cases cs with
  | nil => exact readExponent_alike mode n []
  | cons c cs =>
    rw [withReturn_cons, readFraction, readFraction]
    by_cases hc : c = '.'
    · simp only [if_pos hc, readDigits_withReturn]
      split
      · exact .error _ _
      · exact readExponent_alike mode _ _
    · rw [if_neg hc, if_neg hc]
      exact readExponent_alike mode n (c :: cs)

/-- `withReturn cs` starts with a `c` other than a carriage return iff `cs` does. -/
theorem head?_withReturn_eq_some_iff {c : Char} (hc : c ≠ '\r') (cs : List Char) :
    (withReturn cs).head? = some c ↔ cs.head? = some c := by
  cases cs with
  | nil => simpa [withReturn] using hc.symm
  | cons d cs => rfl

/-- `readUnsigned mode negative` reads `cs` and `withReturn cs` alike. -/
theorem readUnsigned_alike (mode : Mode) (negative : Bool) (cs : List Char) :
    Alike leaveReturn (readUnsigned mode negative cs)
      (readUnsigned mode negative (withReturn cs)) := by
  have hhead := head?_withReturn_eq_some_iff (show '0' ≠ '\r' by decide) cs
  simp only [readUnsigned, readDigits_withReturn, hhead]
  split
  · exact .error _ _
  split
  · exact .error _ _
  · exact readFraction_alike mode _ _

/-- `readNumeral mode` reads `cs` and `withReturn cs` alike. -/
theorem readNumeral_alike (mode : Mode) (cs : List Char) :
    Alike leaveReturn (readNumeral mode cs) (readNumeral mode (withReturn cs)) := by
  by_cases hminus : cs.head? = some '-'
  · obtain ⟨cs, rfl⟩ := List.head?_eq_some_iff.1 hminus
    exact readUnsigned_alike mode true cs
  · have hreturn := mt (head?_withReturn_eq_some_iff (by decide) cs).1 hminus
    rw [readNumeral_of_ne mode hminus, readNumeral_of_ne mode hreturn]
    exact readUnsigned_alike mode false cs

/-- `readNumber` reads `cs` and `withReturn cs` alike. -/
theorem readNumber_alike (cs : List Char) :
    Alike leaveReturn (readNumber cs) (readNumber (withReturn cs)) := by
  rw [readNumber, readNumber]
  refine (readNumeral_alike .exact cs).elim Alike.error ?_
  intro x
  obtain ⟨numeral, rest⟩ := x
  simp only [leaveReturn]
  cases numeral.number with
  | error fault => exact .error _ _
  | ok number => exact .read number rest

/-! ## Values -/

/-- `readScalar mode c` reads `cs` and `withReturn cs` alike. -/
theorem readScalar_alike (mode : Mode) (c : Char) (cs : List Char) :
    Alike leaveReturn (readScalar mode c cs) (readScalar mode c (withReturn cs)) := by
  unfold readScalar
  -- by the first character, which is the same in both readings
  split
  · exact (readQuoted_alike mode cs).elim Alike.error fun x => .read _ x.2
  split
  · exact (readWord_alike ['u', 'l', 'l'] (by decide) cs).elim Alike.error (.read _)
  split
  · exact (readWord_alike ['r', 'u', 'e'] (by decide) cs).elim Alike.error (.read _)
  split
  · exact (readWord_alike ['a', 'l', 's', 'e'] (by decide) cs).elim Alike.error (.read _)
  split
  · cases mode with
    | skim => exact (readNumeral_alike .skim (c :: cs)).elim Alike.error fun x => .read _ x.2
    | exact =>
      refine (readNumber_alike (c :: cs)).elim Alike.error ?_
      intro x
      obtain ⟨number, rest⟩ := x
      cases number with
      | int n => exact .read _ rest
      | float x => exact .read _ rest
  · exact .error _ _

section Values

/-- `r` and `r'` are alike and leave no more text than `n` characters. -/
structure AlikeWithin {α : Type} (n : Nat) (r r' : Read α) : Prop where
  /-- The readings are alike. -/
  alike : Alike leaveReturn r r'
  /-- The first leaves no more text. -/
  length_le {x : α} {rest : List Char} (h : r = .ok (x, rest)) : rest.length ≤ n

/-- Any two errors are `AlikeWithin n`. -/
theorem AlikeWithin.error {α : Type} {n : Nat} (fault fault' : Fault) :
    AlikeWithin n (.error fault : Read α) (.error fault') :=
  ⟨.error fault fault', fun h => by cases h⟩

/-- `AlikeWithin m r r'` and `m ≤ n` give `AlikeWithin n r r'`. -/
theorem AlikeWithin.mono {α : Type} {m n : Nat} {r r' : Read α} (h : AlikeWithin m r r')
    (hmn : m ≤ n) : AlikeWithin n r r' :=
  ⟨h.alike, fun hr => Nat.le_trans (h.length_le hr) hmn⟩

/-- Readings inside of containers are alike and use up text of `cs`: of values, of members behind
the quote of their key, and of what stands behind a value. -/
structure ValuesAlike (cs : List Char) : Prop where
  /-- Values. -/
  value (mode : Mode) (frames : List Frame) :
    AlikeWithin cs.length (readValue mode frames cs) (readValue mode frames (withReturn cs))
  /-- Members. -/
  member (mode : Mode) (frames : List Frame) (members : List (String × Json)) :
    AlikeWithin cs.length (readMember mode frames members cs)
      (readMember mode frames members (withReturn cs))
  /-- What stands behind a value. -/
  behind (mode : Mode) (frames : List Frame) (v : Json) :
    AlikeWithin cs.length (finish mode frames v cs) (finish mode frames v (withReturn cs))

variable {cs : List Char} (ih : ∀ rest, rest.length < cs.length → ValuesAlike rest)
include ih

/-- `readValue` reads `cs` and `withReturn cs` alike if that holds of all shorter texts. -/
theorem readValue_alike (mode : Mode) (frames : List Frame) :
    AlikeWithin cs.length (readValue mode frames cs) (readValue mode frames (withReturn cs)) := by
  rw [readValue_eq, readValue_eq]
  refine skipSpace_elim cs (.error _ _) ?_
  intro c rest hlength
  dsimp only
  split
  -- an array: closed at once, or its first item from where the text was before the white space
  · split
    · refine skipSpace_elim rest (.error _ _) ?_
      intro d rest' hlength'
      dsimp only
      split
      · exact ((ih rest' (by omega)).behind mode frames _).mono (by omega)
      · exact ((ih rest hlength).value mode _).mono (by omega)
    · exact .error _ _
  split
  -- an object: closed at once, or its first key, or neither
  · split
    · refine skipSpace_elim rest (.error _ _) ?_
      intro d rest' hlength'
      dsimp only
      split
      · exact ((ih rest' (by omega)).behind mode frames _).mono (by omega)
      split
      · exact ((ih rest' (by omega)).member mode frames []).mono (by omega)
      · exact .error _ _
    · exact .error _ _
  · obtain ⟨⟨v, rest'⟩, hv, hv'⟩ | ⟨fault, fault', hv, hv'⟩ := readScalar_alike mode c rest
    · have hlength' := length_readScalar_le hv
      simp only [hv, hv', leaveReturn]
      exact ((ih rest' (by omega)).behind mode frames v).mono (by omega)
    · simp only [hv, hv']
      exact .error _ _

/-- `readMember` reads `cs` and `withReturn cs` alike if that holds of all shorter texts. -/
theorem readMember_alike (mode : Mode) (frames : List Frame) (members : List (String × Json)) :
    AlikeWithin cs.length (readMember mode frames members cs)
      (readMember mode frames members (withReturn cs)) := by
  rw [readMember_eq, readMember_eq]
  obtain ⟨⟨key, rest⟩, hkey, hkey'⟩ | ⟨fault, fault', hkey, hkey'⟩ := readQuoted_alike mode cs
  · have hlength := length_readQuoted_lt hkey
    simp only [hkey, hkey', leaveReturn]
    refine skipSpace_elim rest (.error _ _) ?_
    intro c rest' hlength'
    dsimp only
    split
    · exact ((ih rest' (by omega)).value mode _).mono (by omega)
    · exact .error _ _
  · simp only [hkey, hkey']
    exact .error _ _

/-- `finish` reads `cs` and `withReturn cs` alike if that holds of all shorter texts. -/
theorem finish_alike (mode : Mode) (frames : List Frame) (v : Json) :
    AlikeWithin cs.length (finish mode frames v cs) (finish mode frames v (withReturn cs)) := by
  cases frames with
  | nil =>
    rw [finish, finish]
    exact ⟨.read v cs, fun h => by cases h; exact Nat.le_refl _⟩
  | cons frame frames =>
    rw [finish_cons_eq, finish_cons_eq]
    refine skipSpace_elim cs (.error _ _) ?_
    intro c rest hlength
    dsimp only
    cases frame with
    | array items =>
      simp only
      -- a comma, the closing bracket, or neither
      split
      · exact ((ih rest hlength).value mode _).mono (by omega)
      split
      · exact ((ih rest hlength).behind mode frames _).mono (by omega)
      · exact .error _ _
    | object members key =>
      simp only
      split
      · refine skipSpace_elim rest (.error _ _) ?_
        intro d rest' hlength'
        dsimp only
        split
        · exact ((ih rest' (by omega)).member mode frames _).mono (by omega)
        · exact .error _ _
      split
      · exact ((ih rest hlength).behind mode frames _).mono (by omega)
      · exact .error _ _

end Values

/-- `ValuesAlike cs`, by induction on the length of `cs`. -/
theorem valuesAlike (cs : List Char) : ValuesAlike cs := by
  induction hn : cs.length using Nat.strongRecOn generalizing cs with
  | ind n ih =>
    have ih (rest : List Char) (h : rest.length < cs.length) : ValuesAlike rest :=
      ih rest.length (hn ▸ h) rest rfl
    exact ⟨readValue_alike ih, readMember_alike ih, finish_alike ih⟩

/-- `skipValue` reads `cs` and `withReturn cs` alike. -/
theorem skipValue_alike (cs : List Char) :
    Alike withReturn (skipValue cs) (skipValue (withReturn cs)) := by
  rw [skipValue, skipValue]
  exact ((valuesAlike cs).value .skim []).alike.elim Alike.error fun x => .ok x.2

/-- `skipValue` leaves no more text than there is. -/
theorem length_skipValue_le {cs rest : List Char} (h : skipValue cs = .ok rest) :
    rest.length ≤ cs.length := by
  rw [skipValue] at h
  split at h
  · cases h
  · rename_i hread
    cases h
    exact ((valuesAlike cs).value .skim []).length_le hread

end Json
end Concolic

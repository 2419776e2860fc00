import Concolic.Json.Basic
import Concolic.Text.Utf8

/-! # JSON strings

Writing and reading a text between quotes. The writer escapes quotes, backslashes and control
characters and nothing else; the reader takes every escape, pairs of surrogate escapes included. -/

namespace Concolic
namespace Json

/-! ## Writing -/

/-- The lower-case hexadecimal digit of a number below sixteen. -/
def hexDigit (n : Nat) : Char :=
  if n < 10 then Char.ofNat (48 + n) else Char.ofNat (87 + n)

/-- The letter of a control character's short escape. -/
def shortEscape? (c : Char) : Option Char :=
  if c = '\x08' then some 'b'
  else if c = '\t' then some 't'
  else if c = '\n' then some 'n'
  else if c = '\x0c' then some 'f'
  else if c = '\r' then some 'r'
  else none

/-- A character as it stands between quotes. -/
def quoteChar (c : Char) : List Char :=
  if c = '"' then ['\\', '"']
  else if c = '\\' then ['\\', '\\']
  else
    match shortEscape? c with
    | some letter => ['\\', letter]
    | none =>
      if c.toNat < 0x20 then
        ['\\', 'u', '0', '0', hexDigit (c.toNat / 16), hexDigit (c.toNat % 16)]
      else [c]

/-- A text between quotes. -/
def quote (cs : List Char) : List Char := '"' :: (cs.flatMap quoteChar ++ ['"'])

/-! ## Reading -/

/-- The value of a hexadecimal digit. -/
def hexValue? (c : Char) : Option Nat :=
  let n := c.toNat
  if 48 ≤ n ∧ n ≤ 57 then some (n - 48)
  else if 65 ≤ n ∧ n ≤ 70 then some (n - 55)
  else if 97 ≤ n ∧ n ≤ 102 then some (n - 87)
  else none

/-- The number of four hexadecimal digits. -/
def hexValue4? (a b c d : Char) : Option Nat :=
  match hexValue? a, hexValue? b, hexValue? c, hexValue? d with
  | some a, some b, some c, some d => some (((a * 16 + b) * 16 + c) * 16 + d)
  | _, _, _, _ => none

/-- Reads four hexadecimal digits; fewer than four bytes of text are a truncated escape. -/
def readHex (cs : List Char) : Read Nat :=
  if Utf8.length cs < 4 then .error .truncated
  else
    match cs with
    | a :: b :: c :: d :: rest =>
      match hexValue4? a b c d with
      | some n => .ok (n, rest)
      | none => .error .malformed
    | _ => .error .malformed

/-- On four characters `readHex` goes by `hexValue4?`, since they have at least four bytes. -/
theorem readHex_cons (a b c d : Char) (rest : List Char) :
    readHex (a :: b :: c :: d :: rest)
      = match hexValue4? a b c d with
        | some n => .ok (n, rest)
        | none => .error .malformed := by
  have hlength := Utf8.length_le_length (a :: b :: c :: d :: rest)
  simp only [List.length_cons] at hlength
  have hlong : ¬ Utf8.length (a :: b :: c :: d :: rest) < 4 := by omega
  simp only [readHex, if_neg hlong]

/-- Reads the escape of the second half of a surrogate pair. -/
def readLowSurrogate (high : Nat) : List Char → Read Char
  | [] => .error .truncated
  | '\\' :: [] => .error .truncated
  | '\\' :: 'u' :: cs =>
    match readHex cs with
    | .error fault => .error fault
    | .ok (low, rest) =>
      if 0xDC00 ≤ low ∧ low ≤ 0xDFFF then
        .ok (Char.ofNat (0x10000 + (high - 0xD800) * 0x400 + (low - 0xDC00)), rest)
      else .error .malformed
  | _ => .error .malformed

/-- Reads the digits of a numeric escape, and those of the second half where it is half of a
pair. -/
def readCodeUnit (mode : Mode) (cs : List Char) : Read Char :=
  match readHex cs with
  | .error fault => .error fault
  | .ok (unit, rest) =>
    if mode = .skim then .ok ('\uFFFD', rest)
    else if 0xDC00 ≤ unit ∧ unit ≤ 0xDFFF then .error .malformed
    else if 0xD800 ≤ unit ∧ unit ≤ 0xDBFF then readLowSurrogate unit rest
    else .ok (Char.ofNat unit, rest)

/-- The character of a one-letter escape. -/
def escaped? (c : Char) : Option Char :=
  if c = '"' ∨ c = '\\' ∨ c = '/' then some c
  else if c = 'b' then some '\x08'
  else if c = 'f' then some '\x0c'
  else if c = 'n' then some '\n'
  else if c = 'r' then some '\r'
  else if c = 't' then some '\t'
  else none

/-- Reads an escape behind its backslash. -/
def readEscape (mode : Mode) : List Char → Read Char
  | [] => .error .truncated
  | c :: cs =>
    if c = 'u' then readCodeUnit mode cs
    else
      match escaped? c with
      | some e => .ok (e, cs)
      | none => .error .malformed

theorem length_readHex_lt {cs rest : List Char} {n : Nat} (h : readHex cs = .ok (n, rest)) :
    rest.length < cs.length := by
  unfold readHex at h
  split at h
  · simp at h
  · split at h
    · split at h
      · simp only [Except.ok.injEq, Prod.mk.injEq] at h
        simp only [h.2, List.length_cons]
        omega
      · simp at h
    · simp at h

theorem length_readLowSurrogate_lt {high : Nat} {cs rest : List Char} {c : Char}
    (h : readLowSurrogate high cs = .ok (c, rest)) : rest.length < cs.length := by
  unfold readLowSurrogate at h
  split at h
  · simp at h
  · simp at h
  · split at h
    · simp at h
    · rename_i hhex
      have := length_readHex_lt hhex
      split at h
      · simp only [Except.ok.injEq, Prod.mk.injEq] at h
        simp only [← h.2, List.length_cons]
        omega
      · simp at h
  · simp at h

/-- `readEscape` uses at least one character. -/
theorem length_readEscape_lt {mode : Mode} {cs rest : List Char} {c : Char}
    (h : readEscape mode cs = .ok (c, rest)) : rest.length < cs.length := by
  cases cs with
  | nil => simp [readEscape] at h
  | cons d cs =>
    simp only [readEscape] at h
    split at h
    · -- `\u`: four digits, and four more where these are the first half of a pair
      unfold readCodeUnit at h
      split at h
      · simp at h
      · rename_i hhex
        have := length_readHex_lt hhex
        split at h
        · simp only [Except.ok.injEq, Prod.mk.injEq] at h
          simp only [← h.2, List.length_cons]
          omega
        · split at h
          · simp at h
          · split at h
            · have := length_readLowSurrogate_lt h
              simp only [List.length_cons]
              omega
            · simp only [Except.ok.injEq, Prod.mk.injEq] at h
              simp only [← h.2, List.length_cons]
              omega
    · split at h
      · simp only [Except.ok.injEq, Prod.mk.injEq] at h
        simp [h.2]
      · simp at h

/-- Reads a text up to the closing quote. Control characters have to be escaped. -/
def readQuoted (mode : Mode) : List Char → Read (List Char)
  | [] => .error .truncated
  | c :: cs =>
    if c = '"' then .ok ([], cs)
    else if c = '\\' then
      match h : readEscape mode cs with
      | .error fault => .error fault
      | .ok (e, rest) =>
        have := length_readEscape_lt h
        match readQuoted mode rest with
        | .error fault => .error fault
        | .ok (text, rest) => .ok (e :: text, rest)
    else if c.toNat < 0x20 then .error .malformed
    else
      match readQuoted mode cs with
      | .error fault => .error fault
      | .ok (text, rest) => .ok (c :: text, rest)
termination_by cs => cs.length
decreasing_by all_goals (simp only [List.length_cons]; omega)

/-- What `readQuoted` does at a backslash, without the bound by which it ends. -/
theorem readQuoted_backslash (mode : Mode) (cs : List Char) :
    readQuoted mode ('\\' :: cs)
      = match readEscape mode cs with
        | .error fault => .error fault
        | .ok (e, rest) =>
          match readQuoted mode rest with
          | .error fault => .error fault
          | .ok (text, rest) => .ok (e :: text, rest) := by
  rw [readQuoted, if_neg (by decide), if_pos rfl]
  split
  · rename_i hescape
    simp only [hescape]
  · rename_i hescape
    simp only [hescape]

/-- `readQuoted` leaves a shorter text. -/
theorem length_readQuoted_lt {mode : Mode} {cs rest text : List Char}
    (h : readQuoted mode cs = .ok (text, rest)) : rest.length < cs.length := by
  -- only the end, an escape and a plain character give a text; the last two leave less by `ih`
  fun_induction readQuoted mode cs generalizing text rest with
  | case1 => simp at h
  | case2 cs =>
    simp only [Except.ok.injEq, Prod.mk.injEq] at h
    simp [h.2]
  | case3 => simp at h
  | case4 => simp at h
  | case5 =>
    rename_i hlt _ _ hread _ ih
    simp only [Except.ok.injEq, Prod.mk.injEq] at h
    have := ih hread
    simp only [← h.2, List.length_cons]
    omega
  | case6 => simp at h
  | case7 => simp at h
  | case8 =>
    rename_i hread ih
    simp only [Except.ok.injEq, Prod.mk.injEq] at h
    have := ih hread
    simp only [← h.2, List.length_cons]
    omega

end Json
end Concolic

import Concolic.Text.Lines

/-! # Files as lines

A file is its lines put together again, each with its ending (`joinLines_splitLines`). Lines that
hold no line feed, and of which only the last may lack its ending, are the lines of the file that
they make, but for an empty last one without an ending, which makes no line
(`splitLines_joinLines`). `emptied` takes the content of some lines of a file away and leaves their
endings. -/

namespace Concolic

/-- The bytes of `lines`, with a line feed behind those that it follows. -/
def joinLines (lines : List (List UInt8 × Bool)) : List UInt8 :=
  lines.flatMap fun line => line.1 ++ if line.2 then [lineFeed] else []

/-- Lines of a file: none holds a line feed, and one follows all but the last. -/
inductive Lined : List (List UInt8 × Bool) → Prop where
  /-- There is no line. -/
  | nil : Lined []
  /-- No line feed follows the last line. -/
  | last {line : List UInt8} (h : lineFeed ∉ line) : Lined [(line, false)]
  /-- A line feed follows a line. -/
  | cons {line : List UInt8} {rest : List (List UInt8 × Bool)} (h : lineFeed ∉ line)
      (hrest : Lined rest) : Lined ((line, true) :: rest)

/-! ## Splitting and joining -/

/-- If `b` is no line feed, `splitLines (b :: bytes)` has it in front of the first line of
`bytes`. -/
theorem splitLines_cons {b : UInt8} (hb : b ≠ lineFeed) (bytes : List UInt8) :
    splitLines (b :: bytes)
      = match splitLines bytes with
        | [] => [([b], false)]
        | (line, ended) :: rest => (b :: line, ended) :: rest := by
  rw [splitLines]
  exact if_neg hb

/-- `Lined (splitLines bytes)`. -/
theorem lined_splitLines (bytes : List UInt8) : Lined (splitLines bytes) := by
  induction bytes with
  | nil => exact .nil
  | cons b bytes ih =>
    by_cases hb : b = lineFeed
    · rw [splitLines, if_pos hb]
      exact .cons (by simp) ih
    · rw [splitLines_cons hb]
      -- the byte goes in front of the first line
      cases hlines : splitLines bytes with
      | nil => exact .last (by simpa using Ne.symm hb)
      | cons first rest =>
        rw [hlines] at ih
        cases ih with
        | last h => exact .last (by simp [Ne.symm hb, h])
        | cons h hrest => exact .cons (by simp [Ne.symm hb, h]) hrest

/-- `splitLines line = [(line, false)]` if `line` is not empty and has no line feed. -/
theorem splitLines_of_not_mem {line : List UInt8} (h : lineFeed ∉ line) (hne : line ≠ []) :
    splitLines line = [(line, false)] := by
  induction line with
  | nil => exact absurd rfl hne
  | cons b line ih =>
    obtain ⟨hb, hline⟩ := not_or.1 (mt List.mem_cons.2 h)
    rw [splitLines_cons (Ne.symm hb)]
    cases line with
    | nil => rfl
    | cons b' line => rw [ih hline (by simp)]

/-- `splitLines (line ++ lineFeed :: rest) = (line, true) :: splitLines rest` if `line` has no line
feed. -/
theorem splitLines_append_lineFeed {line : List UInt8} (h : lineFeed ∉ line) (rest : List UInt8) :
    splitLines (line ++ lineFeed :: rest) = (line, true) :: splitLines rest := by
  induction line with
  | nil => rw [List.nil_append, splitLines, if_pos rfl]
  | cons b line ih =>
    obtain ⟨hb, hline⟩ := not_or.1 (mt List.mem_cons.2 h)
    rw [List.cons_append, splitLines_cons (Ne.symm hb), ih hline]

/-- If `Lined lines`, then `splitLines (joinLines lines)` is `lines` without an empty one that has
no ending. -/
theorem splitLines_joinLines {lines : List (List UInt8 × Bool)} (h : Lined lines) :
    splitLines (joinLines lines) = lines.filter (· ≠ ([], false)) := by
  induction h with
  | nil => rfl
  | @last line h =>
    have hjoin : joinLines [(line, false)] = line := by simp [joinLines]
    rw [hjoin]
    by_cases hne : line = []
    · simp [hne, splitLines]
    · simp [splitLines_of_not_mem h hne, hne]
  | @cons line rest h _ ih =>
    have hjoin : joinLines ((line, true) :: rest) = line ++ lineFeed :: joinLines rest := by
      simp [joinLines]
    rw [hjoin, splitLines_append_lineFeed h, ih]
    simp

/-! ## Emptied lines -/

/-- A line without its content; its ending stays. -/
def emptyLine (line : List UInt8 × Bool) : List UInt8 × Bool :=
  (if line.2 ∧ line.1.getLast? = some carriageReturn then [carriageReturn] else [], line.2)

/-- `trimEnding (emptyLine line) = []`. -/
theorem trimEnding_emptyLine (line : List UInt8 × Bool) : trimEnding (emptyLine line) = [] := by
  rw [emptyLine, trimEnding]
  by_cases hending : line.2 ∧ line.1.getLast? = some carriageReturn
  · simp [hending]
  · simp [hending]

/-- `lines` with those emptied whose numbers are among `numbers`; the first line has `number`. -/
def emptyLines (numbers : List Nat) (number : Nat) (lines : List (List UInt8 × Bool)) :
    List (List UInt8 × Bool) :=
  (lines.zipIdx number).map fun x => if x.2 ∈ numbers then emptyLine x.1 else x.1

/-- The file `bytes` without the content of the lines whose numbers, from one on, are among
`numbers`. -/
def emptied (numbers : List Nat) (bytes : List UInt8) : List UInt8 :=
  joinLines (emptyLines numbers 1 (splitLines bytes))

/-- `emptyLine line` has no line feed. -/
theorem lineFeed_not_mem_emptyLine (line : List UInt8 × Bool) : lineFeed ∉ (emptyLine line).1 := by
  have hreturn : lineFeed ∉ [carriageReturn] := by decide
  rw [emptyLine]
  split
  · exact hreturn
  · exact List.not_mem_nil

/-- `Lined lines` gives `Lined (emptyLines numbers number lines)`. -/
theorem Lined.emptyLines {lines : List (List UInt8 × Bool)} (h : Lined lines) (numbers : List Nat)
    (number : Nat) : Lined (emptyLines numbers number lines) := by
  induction h generalizing number with
  | nil => exact .nil
  | @last line h =>
    simp only [Concolic.emptyLines, List.zipIdx_cons, List.zipIdx_nil, List.map_cons, List.map_nil]
    split
    · exact .last (lineFeed_not_mem_emptyLine (line, false))
    · exact .last h
  | @cons line rest h _ ih =>
    simp only [Concolic.emptyLines, List.zipIdx_cons, List.map_cons]
    split
    · exact .cons (lineFeed_not_mem_emptyLine (line, true)) (ih (number + 1))
    · exact .cons h (ih (number + 1))

/-- `splitLines (emptied numbers bytes)` is `emptyLines numbers 1 (splitLines bytes)` without a last
one of which nothing is left. -/
theorem splitLines_emptied (numbers : List Nat) (bytes : List UInt8) :
    splitLines (emptied numbers bytes)
      = (emptyLines numbers 1 (splitLines bytes)).filter (· ≠ ([], false)) :=
  splitLines_joinLines ((lined_splitLines bytes).emptyLines numbers 1)

/-- `lists` with those replaced by `[]` whose numbers are among `numbers`; the first one has
`number`. -/
def cleared {α : Type} (numbers : List Nat) (number : Nat) (lists : List (List α)) :
    List (List α) :=
  (lists.zipIdx number).map fun x => if x.2 ∈ numbers then [] else x.1

/-- The contents of `emptyLines numbers number lines` are those of `lines`, `cleared`. -/
theorem map_trimEnding_emptyLines (numbers : List Nat) (number : Nat)
    (lines : List (List UInt8 × Bool)) :
    (emptyLines numbers number lines).map trimEnding
      = cleared numbers number (lines.map trimEnding) := by
  rw [emptyLines, cleared, List.zipIdx_map, List.map_map, List.map_map]
  apply List.map_congr_left
  rintro ⟨line, index⟩ -
  by_cases hindex : index ∈ numbers
  · simp [hindex, trimEnding_emptyLine]
  · simp [hindex]

end Concolic

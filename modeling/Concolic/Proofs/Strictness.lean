import Concolic.Proofs.Lines
import Concolic.Proofs.Reports

/-! # Strict and lenient reports agree

A strict report collects the answers of all lines before it reads the first, and a lenient one reads
them line by line. The strict report is there exactly if the lenient one is and skips no line, and
then they are the same (`Report.strict_eq_ok_iff`). Taking the content of the skipped lines away
changes no verdict on the other lines, so that a file becomes one on which both agree. -/

namespace Concolic

namespace Report

/-! ## Strict reports -/

/-- `r.addLines items` keeps `r.skipped` at the front. -/
theorem skipped_addLines {items : List (Nat × Except LineError Answer)} {r r' : Report}
    (h : (r.addLines items).1 = .ok r') : r.skipped <+: r'.skipped := by
  induction items generalizing r with
  | nil =>
    cases h
    exact List.prefix_rfl
  | cons item items ih =>
    -- a line that is skipped is put behind those before
    have hskip (number : Nat) (h : ((r.skip number).addLines items).1 = .ok r') :
        r.skipped <+: r'.skipped :=
      (List.prefix_append r.skipped [number]).trans (ih h)
    obtain ⟨number, outcome⟩ := item
    cases outcome with
    | error error =>
      cases error with
      | notText => cases h
      | notRecord fault => exact hskip number h
    | ok answer =>
      simp only [addLines] at h
      cases hdecode : r.tree.decode answer.name answer.bytes with
      | mk outcome tree =>
        rw [hdecode] at h
        cases outcome with
        | error error =>
          exact (List.prefix_append r.skipped [number]).trans
            (ih (r := { r with tree := tree }.skip number) h)
        | ok _ => exact ih (r := { r with tree := tree }) h

/-- `(r.skip number).addLines items` does not come to `r.skipped`. -/
theorem addLines_skip_ne {items : List (Nat × Except LineError Answer)} {r : Report} {number : Nat}
    {tree : Assignments} : ((r.skip number).addLines items).1 ≠ .ok ⟨tree, r.skipped⟩ := by
  intro h
  have hlength := (skipped_addLines h).length_le
  rw [skip, List.length_append, List.length_singleton] at hlength
  exact Nat.not_succ_le_self _ hlength

/-- `r.addLines items` skips no line iff `answersOf items = .ok answers` and all of `answers` can be
decoded into `r.tree`. -/
theorem addLines_eq_ok_iff {items : List (Nat × Except LineError Answer)} {r : Report}
    {tree : Assignments} :
    (r.addLines items).1 = .ok ⟨tree, r.skipped⟩ ↔
      ∃ answers, answersOf items = .ok answers ∧
        r.tree.decodeAll (answers.map fun a => (a.name, a.bytes)) = (none, tree) := by
  -- a line that is no text, no record or unreadable fails both sides
  induction items generalizing r with
  | nil =>
    have hreport : r = ⟨tree, r.skipped⟩ ↔ r.tree = tree := by
      cases r
      simp
    simp [addLines, answersOf, Assignments.decodeAll, hreport]
  | cons item items ih =>
    obtain ⟨number, outcome⟩ := item
    cases outcome with
    | error error =>
      cases error with
      | notText => simp [addLines, answersOf]
      | notRecord fault => simpa [addLines, answersOf] using addLines_skip_ne
    | ok answer =>
      have hanswers : (∃ answers, answersOf ((number, .ok answer) :: items) = .ok answers ∧
            r.tree.decodeAll (answers.map fun a => (a.name, a.bytes)) = (none, tree)) ↔
          ∃ answers, answersOf items = .ok answers ∧
            r.tree.decodeAll ((answer :: answers).map fun a => (a.name, a.bytes))
              = (none, tree) := by
        rw [answersOf]
        cases answersOf items with
        | error error => simp
        | ok answers => simp
      rw [hanswers]
      simp only [addLines, List.map_cons, Assignments.decodeAll]
      cases r.tree.decode answer.name answer.bytes with
      | mk outcome tree' =>
        cases outcome with
        | error error => simpa using addLines_skip_ne (r := { r with tree := tree' })
        | ok _ => exact ih (r := { r with tree := tree' })

/-- `strict bytes = .ok r` iff `(lenient bytes).1 = .ok r` and `r.skipped = []`. -/
theorem strict_eq_ok_iff {bytes : List UInt8} {r : Report} :
    strict bytes = .ok r ↔ (lenient bytes).1 = .ok r ∧ r.skipped = [] := by
  obtain ⟨tree, skipped⟩ := r
  constructor
  · intro h
    rw [strict] at h
    -- a strict report has all records, and every one of them decoded
    cases hanswers : answersOf (readRecords bytes) with
    | error error =>
      rw [hanswers] at h
      cases h
    | ok answers =>
      simp only [hanswers, Assignments.write] at h
      cases hread : Assignments.decodeAll .empty (answers.map fun a => (a.name, a.bytes)) with
      | mk fault tree' =>
        rw [hread] at h
        cases fault with
        | some error => cases h
        | none =>
          cases h
          exact ⟨addLines_eq_ok_iff.2 ⟨answers, hanswers, hread⟩, rfl⟩
  · rintro ⟨h, rfl⟩
    obtain ⟨answers, hanswers, hread⟩ := addLines_eq_ok_iff.1 h
    rw [strict, hanswers]
    simp only [Assignments.write]
    rw [hread]

/-! ## Skipped lines taken away -/

/-- `text`, or `[]` in place of one that is skipped. -/
def soundText (text : List Char) : List Char :=
  if (Verdict.ofText text).isSkipped then [] else text

/-- `soundText text` is not skipped. -/
theorem isSkipped_soundText (text : List Char) :
    (Verdict.ofText (soundText text)).isSkipped = false := by
  rw [soundText]
  split
  · rfl
  · rename_i hskipped
    exact Bool.eq_false_iff.2 hskipped

/-- `soundText text` has the answer of `text`, if that is not skipped. -/
theorem answer?_soundText (text : List Char) :
    (Verdict.ofText (soundText text)).answer? = (Verdict.ofText text).answer? := by
  rw [soundText]
  cases hverdict : Verdict.ofText text with
  | blank => simp [Verdict.isSkipped, hverdict]
  | notRecord fault => rfl
  | unreadable answer error => rfl
  | sound answer => simp [Verdict.isSkipped, hverdict]

/-- `cleared (skippedFrom 1 texts) 1 texts = texts.map soundText`. -/
theorem cleared_skippedFrom (texts : List (List Char)) :
    cleared (skippedFrom 1 texts) 1 texts = texts.map soundText := by
  have hfst : texts.map soundText = (texts.zipIdx 1).map fun x => soundText x.1 := by
    rw [← Function.comp_def, ← List.map_map, List.zipIdx_map_fst]
  rw [hfst, cleared]
  apply List.map_congr_left
  rintro ⟨text, number⟩ hx
  obtain ⟨hnumber, hget⟩ := List.mk_mem_zipIdx_iff_le_and_getElem?_sub.1 hx
  -- the number of a text tells the text
  have hmem : number ∈ skippedFrom 1 texts ↔ (Verdict.ofText text).isSkipped = true := by
    rw [mem_skippedFrom_iff]
    constructor
    · rintro ⟨index, text', rfl, hget', hskipped⟩
      rw [Nat.add_sub_cancel, hget'] at hget
      cases hget
      exact hskipped
    · intro hskipped
      exact ⟨number - 1, text, by omega, hget, hskipped⟩
  simp only [hmem, soundText]

/-- `soundAnswers (texts.map soundText) = soundAnswers texts`. -/
theorem soundAnswers_map_soundText (texts : List (List Char)) :
    soundAnswers (texts.map soundText) = soundAnswers texts := by
  rw [soundAnswers, List.filterMap_map, soundAnswers]
  congr 1
  funext text
  exact answer?_soundText text

/-- `skippedFrom number (texts.map soundText) = []`. -/
theorem skippedFrom_map_soundText (number : Nat) (texts : List (List Char)) :
    skippedFrom number (texts.map soundText) = [] := by
  rw [skippedFrom, List.map_eq_nil_iff, List.filter_eq_nil_iff, List.zipIdx_map]
  intro x hx
  obtain ⟨y, -, rfl⟩ := List.mem_map.1 hx
  rw [Prod.map_fst, isSkipped_soundText]
  exact Bool.false_ne_true

/-- `readLines` gives the same without a last line of which nothing is left and that has no
ending. -/
theorem readLines_filter {lines : List (List UInt8 × Bool)} (h : Lined lines) (number : Nat) :
    readLines number ((lines.filter (· ≠ ([], false))).map trimEnding)
      = readLines number (lines.map trimEnding) := by
  have hblank : readLine [] = none := by
    simp [readLine, Utf8.decode?, Utf8.pieces, isBlank]
  induction h generalizing number with
  | nil => rfl
  | @last line h =>
    by_cases hne : line = []
    · subst hne
      simp [trimEnding, readLines, hblank]
    · simp [hne]
  | @cons line rest h _ ih =>
    simp only [ne_eq, Prod.mk.injEq, Bool.true_eq_false, and_false, not_false_eq_true,
      decide_true, List.filter_cons_of_pos, List.map_cons, readLines, ih]

/-- `readRecords (emptied numbers bytes)` are the records of the lines, `cleared`. -/
theorem readRecords_emptied (numbers : List Nat) (bytes : List UInt8) :
    readRecords (emptied numbers bytes) = readLines 1 (cleared numbers 1 (linesOf bytes)) := by
  rw [readRecords, linesOf, splitLines_emptied,
    readLines_filter ((lined_splitLines bytes).emptyLines numbers 1), map_trimEnding_emptyLines,
    linesOf]

/-- The texts of `cleared` lines are the texts of the lines, `cleared`. -/
theorem map_decode?_cleared {lines : List (List UInt8)} {texts : List (List Char)}
    (h : lines.map Utf8.decode? = texts.map some) (numbers : List Nat) (number : Nat) :
    (cleared numbers number lines).map Utf8.decode?
      = (cleared numbers number texts).map some := by
  have hblank : Utf8.decode? [] = some [] := by
    simp [Utf8.decode?, Utf8.pieces]
  -- to empty a line and to empty its text is the same
  have hlines : (cleared numbers number lines).map Utf8.decode?
      = ((lines.map Utf8.decode?).zipIdx number).map fun x =>
          if x.2 ∈ numbers then some [] else x.1 := by
    rw [cleared, List.zipIdx_map, List.map_map, List.map_map]
    apply List.map_congr_left
    rintro ⟨line, index⟩ -
    by_cases hindex : index ∈ numbers
    · simp [hindex, hblank]
    · simp [hindex]
  rw [hlines, h, cleared, List.zipIdx_map, List.map_map, List.map_map]
  apply List.map_congr_left
  rintro ⟨text, index⟩ -
  by_cases hindex : index ∈ numbers
  · simp [hindex]
  · simp [hindex]

/-- If `none ∉ lines.map Utf8.decode?`, there are `texts` with `lines.map Utf8.decode? = texts.map
some`. -/
theorem exists_texts {lines : List (List UInt8)} (h : none ∉ lines.map Utf8.decode?) :
    ∃ texts : List (List Char), lines.map Utf8.decode? = texts.map some := by
  induction lines with
  | nil => exact ⟨[], rfl⟩
  | cons line lines ih =>
    rw [List.map_cons, List.mem_cons, not_or] at h
    obtain ⟨text, htext⟩ := Option.ne_none_iff_exists'.1 (Ne.symm h.1)
    obtain ⟨texts, htexts⟩ := ih h.2
    exact ⟨text :: texts, by rw [List.map_cons, htext, htexts, List.map_cons]⟩

/-- If `(lenient bytes).1 = .ok r`, the lenient report of `emptied r.skipped bytes` is
`⟨r.tree, []⟩`. -/
theorem lenient_emptied {bytes : List UInt8} {r : Report} (h : (lenient bytes).1 = .ok r) :
    (lenient (emptied r.skipped bytes)).1 = .ok ⟨r.tree, []⟩ := by
  by_cases hnone : none ∈ (linesOf bytes).map Utf8.decode?
  · -- a line that is no text leaves no report
    have hfails := addLines_of_not_text hnone 1 {}
    rw [lenient, readRecords, hfails] at h
    cases h
  · obtain ⟨texts, htexts⟩ := exists_texts hnone
    obtain ⟨tree, htree, hadd⟩ := addLines_readLines htexts 1 {}
    rw [lenient, readRecords, hadd] at h
    cases h
    -- the emptied lines leave the sound answers, and none of them is skipped
    have hcleared := map_decode?_cleared htexts (skippedFrom 1 texts) 1
    rw [cleared_skippedFrom] at hcleared
    obtain ⟨tree', htree', hadd'⟩ := addLines_readLines hcleared 1 {}
    rw [soundAnswers_map_soundText, htree] at htree'
    cases htree'
    rw [skippedFrom_map_soundText] at hadd'
    rw [lenient, List.nil_append, readRecords_emptied, hadd']
    rfl

/-- **Strict and lenient reports agree.** `(build true bytes).1 = .ok r` iff
`(build false bytes).1 = .ok r` and `r.skipped = []`. And whenever there is a lenient report `r`,
taking the content of the lines that it skipped away, with their endings left, gives a file on which
both reports are `⟨r.tree, []⟩`. -/
theorem strict_agrees_lenient (bytes : List UInt8) :
    (∀ r, (build true bytes).1 = .ok r ↔ (build false bytes).1 = .ok r ∧ r.skipped = []) ∧
      ∀ r, (build false bytes).1 = .ok r →
        ∀ strict, (build strict (emptied r.skipped bytes)).1 = .ok ⟨r.tree, []⟩ := by
  refine ⟨fun r => strict_eq_ok_iff, ?_⟩
  intro r h strict
  have hlenient := lenient_emptied h
  cases strict with
  | false => exact hlenient
  | true => exact strict_eq_ok_iff.2 ⟨hlenient, rfl⟩

/-- A file with a blank line, a text that is no record before a carriage return, and an answer that
cannot be read on a line without an ending. It has no strict report; without the two lines it has,
and of the two answers for one part the later one stands. -/
theorem strict_agrees_lenient_answers :
    let bytes := Utf8.encode
      "[\"x.value\",[5]]\n \nno\r\n[\"x.value\",[6]]\n[\"x.i#value\",[1]]".toList
    ∃ r, (build false bytes).1 = .ok r ∧ r.skipped = [3, 5] ∧
      r.tree.value? "x" "value" = some (.byteArray [6]) ∧
      (∀ r', (build true bytes).1 ≠ .ok r') ∧
      emptied [3, 5] bytes
        = Utf8.encode "[\"x.value\",[5]]\n \n\r\n[\"x.value\",[6]]\n".toList ∧
      (build true (emptied [3, 5] bytes)).1 = .ok ⟨r.tree, []⟩ := by
  intro bytes
  let texts := ["[\"x.value\",[5]]", " ", "no", "[\"x.value\",[6]]", "[\"x.i#value\",[1]]"].map
    String.toList
  have htexts : (linesOf bytes).map Utf8.decode? = texts.map some := by decide +kernel
  have hskipped : skippedFrom 1 texts = [3, 5] := by decide +kernel
  have hanswers : soundAnswers texts = [("x.value", [5]), ("x.value", [6])] := by decide +kernel
  obtain ⟨tree, htree, hadd⟩ := addLines_readLines htexts 1 {}
  rw [hskipped] at hadd
  have hlenient : (build false bytes).1 = .ok ⟨tree, [3, 5]⟩ := congrArg Prod.fst hadd
  -- the lenient report is computed; what the strict one is follows from it
  obtain ⟨hagree, hemptied⟩ := strict_agrees_lenient bytes
  refine ⟨⟨tree, [3, 5]⟩, hlenient, rfl, ?_, ?_, by decide +kernel,
    hemptied _ hlenient true⟩
  · rw [hanswers, Assignments.decodeAll_eq] at htree
    obtain ⟨-, rfl⟩ := Prod.mk.inj htree
    decide +kernel
  · intro r' hr'
    obtain ⟨hr', hnil⟩ := (hagree r').1 hr'
    rw [hlenient] at hr'
    cases hr'
    cases hnil

end Report
end Concolic

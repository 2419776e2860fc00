import Concolic.Answers.Report
import Concolic.Proofs.Assignments

/-! # Lenient reports partition the lines

A lenient report looks at every line of a file on its own: the text of the line is blank, it is no
record, its answer cannot be read whatever was read before, or its answer is sound (`Verdict`). The
lines of the second and third kind are skipped, each with one notice, and the answers of the fourth
kind are read in order; so the report is known from the verdicts (`Report.addLines_readLines`). A
line that is not UTF-8 leaves no report. -/

namespace Concolic

/-! ## Answers that can be read -/

namespace Assignments

/-- If `decode name bytes` fails for some `a`, it fails with the same error for every `a'`, and
leaves `a'`. -/
theorem decode_eq_error {a : Assignments} {name : String} {bytes : List UInt8} {error : BufferError}
    (h : (a.decode name bytes).1 = .error error) (a' : Assignments) :
    a'.decode name bytes = (.error error, a') := by
  rw [decode_eq _ (name, bytes)] at h ⊢
  cases hread : readAnswer (name, bytes) with
  | error error' =>
    rw [hread] at h
    cases h
    rfl
  | ok x =>
    rw [hread] at h
    cases h

/-- If `decode name bytes` succeeds for some `a`, it succeeds for every `a'`. -/
theorem exists_decode_eq_ok {a : Assignments} {name : String} {bytes : List UInt8}
    (h : (a.decode name bytes).1 = .ok ()) (a' : Assignments) :
    ∃ b, a'.decode name bytes = (.ok (), b) := by
  rw [decode_eq _ (name, bytes)] at h ⊢
  cases hread : readAnswer (name, bytes) with
  | error error =>
    rw [hread] at h
    cases h
  | ok x => exact ⟨_, rfl⟩

end Assignments

/-! ## Verdicts -/

/-- The line that a notice is for, if it is for one. -/
def Notice.line? : Notice → Option Nat
  | skippedLine line _ => some line
  | skippedAnswer _ line _ => some line
  | skippedLines _ => none

/-- What the text of a line comes to. -/
inductive Verdict where
  /-- The text is blank. -/
  | blank
  /-- The text is no record. -/
  | notRecord (fault : Json.Fault)
  /-- The text is a record of an answer that cannot be read. -/
  | unreadable (answer : Answer) (error : BufferError)
  /-- The text is a record of an answer that can be read. -/
  | sound (answer : Answer)

namespace Verdict

/-- The verdict on `text`. -/
def ofText (text : List Char) : Verdict :=
  if isBlank text then .blank
  else
    match Answer.read text with
    | .error fault => .notRecord fault
    | .ok answer =>
      match (Assignments.decode .empty answer.name answer.bytes).1 with
      | .error error => .unreadable answer error
      | .ok () => .sound answer

/-- Whether the line is skipped. -/
def isSkipped : Verdict → Bool
  | blank => false
  | notRecord _ => true
  | unreadable _ _ => true
  | sound _ => false

/-- The notice for a line under `number`. -/
def notice? (number : Nat) : Verdict → Option Notice
  | blank => none
  | notRecord fault => some (.skippedLine number fault)
  | unreadable answer error => some (.skippedAnswer answer.name number error)
  | sound _ => none

/-- The answer that the line adds. -/
def answer? : Verdict → Option (String × List UInt8)
  | blank => none
  | notRecord _ => none
  | unreadable _ _ => none
  | sound answer => some (answer.name, answer.bytes)

/-- `(ofText text).isSkipped` iff `text` is not blank and no answer on it can be decoded. -/
theorem isSkipped_ofText_iff (text : List Char) :
    (ofText text).isSkipped = true ↔ isBlank text = false ∧
      ∀ answer, Answer.read text = .ok answer →
        ∃ error, ∀ a : Assignments, a.decode answer.name answer.bytes = (.error error, a) := by
  rw [ofText]
  cases hblank : isBlank text with
  | true => simp [isSkipped]
  | false =>
    rw [if_neg (by simp)]
    cases hread : Answer.read text with
    | error fault => simp [isSkipped]
    | ok answer =>
      simp only [Except.ok.injEq, forall_eq', true_and]
      -- whether an answer decodes does not depend on the tree
      cases hdecode : (Assignments.decode .empty answer.name answer.bytes).1 with
      | error error =>
        simp only [isSkipped, true_iff]
        exact ⟨error, Assignments.decode_eq_error hdecode⟩
      | ok _ =>
        simp only [isSkipped, Bool.false_eq_true, false_iff, not_exists]
        intro error herror
        rw [herror .empty] at hdecode
        cases hdecode

/-- `readLine line` goes by the verdict `ofText text` on the text of `line`. -/
theorem readLine_eq {line : List UInt8} {text : List Char} (h : Utf8.decode? line = some text) :
    readLine line
      = match ofText text with
        | .blank => none
        | .notRecord fault => some (.error (.notRecord fault))
        | .unreadable answer _ => some (.ok answer)
        | .sound answer => some (.ok answer) := by
  simp only [readLine, h, ofText]
  cases isBlank text with
  | true => rfl
  | false =>
    simp only [Bool.false_eq_true, if_false]
    cases Answer.read text with
    | error fault => rfl
    | ok answer =>
      simp only
      cases (Assignments.decode .empty answer.name answer.bytes).1 with
      | error error => rfl
      | ok _ => rfl

/-- `ofText text = .unreadable answer error` gives that `answer` is refused with `error` by all
assignments. -/
theorem decode_of_unreadable {text : List Char} {answer : Answer} {error : BufferError}
    (h : ofText text = .unreadable answer error) (a : Assignments) :
    a.decode answer.name answer.bytes = (.error error, a) := by
  unfold ofText at h
  repeat' split at h
  all_goals cases h
  rename_i hdecode
  exact Assignments.decode_eq_error hdecode a

/-- `ofText text = .sound answer` gives that `answer` is decoded into all assignments. -/
theorem decode_of_sound {text : List Char} {answer : Answer} (h : ofText text = .sound answer)
    (a : Assignments) : ∃ a', a.decode answer.name answer.bytes = (.ok (), a') := by
  unfold ofText at h
  repeat' split at h
  all_goals cases h
  rename_i hdecode
  exact Assignments.exists_decode_eq_ok hdecode a

end Verdict

namespace Report

/-! ## What the texts of the lines come to -/

/-- The numbers of the `texts` that are skipped; the first one has `number`. -/
def skippedFrom (number : Nat) (texts : List (List Char)) : List Nat :=
  ((texts.zipIdx number).filter fun x => (Verdict.ofText x.1).isSkipped).map Prod.snd

/-- The notices of the `texts`; the first one has `number`. -/
def noticesFrom (number : Nat) (texts : List (List Char)) : List Notice :=
  (texts.zipIdx number).filterMap fun x => (Verdict.ofText x.1).notice? x.2

/-- The answers of the `texts` that can be read. -/
def soundAnswers (texts : List (List Char)) : List (String × List UInt8) :=
  texts.filterMap fun text => (Verdict.ofText text).answer?

section Cons

variable (number : Nat) (text : List Char) (texts : List (List Char))

/-- `skippedFrom number (text :: texts)` has `number` first, if `text` is skipped. -/
theorem skippedFrom_cons :
    skippedFrom number (text :: texts)
      = (if (Verdict.ofText text).isSkipped then [number] else [])
        ++ skippedFrom (number + 1) texts := by
  rw [skippedFrom, List.zipIdx_cons, List.filter_cons]
  split
  · rfl
  · rfl

/-- `noticesFrom number (text :: texts)` has the notice of `text` first, if there is one. -/
theorem noticesFrom_cons :
    noticesFrom number (text :: texts)
      = ((Verdict.ofText text).notice? number).toList ++ noticesFrom (number + 1) texts := by
  rw [noticesFrom, List.zipIdx_cons, List.filterMap_cons]
  cases (Verdict.ofText text).notice? number with
  | none => rfl
  | some notice => rfl

/-- `soundAnswers (text :: texts)` has the answer of `text` first, if there is one. -/
theorem soundAnswers_cons :
    soundAnswers (text :: texts)
      = (Verdict.ofText text).answer?.toList ++ soundAnswers texts := by
  rw [soundAnswers, List.filterMap_cons]
  cases (Verdict.ofText text).answer? with
  | none => rfl
  | some answer => rfl

end Cons

/-- `skippedFrom number texts` increases. -/
theorem pairwise_skippedFrom (number : Nat) (texts : List (List Char)) :
    (skippedFrom number texts).Pairwise (· < ·) := by
  have hall : (texts.zipIdx number).Pairwise fun x y => x.2 < y.2 := by
    rw [← List.pairwise_map, List.zipIdx_map_snd]
    exact List.pairwise_lt_range'
  rw [skippedFrom, List.pairwise_map]
  exact hall.filter _

/-- `number ∈ skippedFrom 1 texts` iff the text at this place is skipped. -/
theorem mem_skippedFrom_iff {number : Nat} {texts : List (List Char)} :
    number ∈ skippedFrom 1 texts ↔
      ∃ index text, number = index + 1 ∧ texts[index]? = some text ∧
        (Verdict.ofText text).isSkipped = true := by
  simp only [skippedFrom, List.mem_map, List.mem_filter, Prod.exists,
    List.mk_mem_zipIdx_iff_le_and_getElem?_sub]
  constructor
  · rintro ⟨text, number', ⟨⟨hle, hget⟩, hskipped⟩, rfl⟩
    exact ⟨number' - 1, text, by omega, hget, hskipped⟩
  · rintro ⟨index, text, rfl, hget, hskipped⟩
    exact ⟨text, index + 1, ⟨⟨by omega, hget⟩, hskipped⟩, rfl⟩

/-- `noticesFrom number texts` has one notice for each of `skippedFrom number texts`, in order. -/
theorem lines_noticesFrom (number : Nat) (texts : List (List Char)) :
    (noticesFrom number texts).map Notice.line? = (skippedFrom number texts).map some := by
  induction texts generalizing number with
  | nil => rfl
  | cons text texts ih =>
    rw [noticesFrom_cons, skippedFrom_cons, List.map_append, List.map_append, ih]
    congr 1
    cases Verdict.ofText text with
    | blank => rfl
    | notRecord fault => rfl
    | unreadable answer error => rfl
    | sound answer => rfl

/-! ## Lenient reports -/

/-- If all `lines` are text, `r.addLines` decodes `soundAnswers texts` into `r.tree`, adds
`skippedFrom number texts`, and gives `noticesFrom number texts`. -/
theorem addLines_readLines {lines : List (List UInt8)} {texts : List (List Char)}
    (h : lines.map Utf8.decode? = texts.map some) (number : Nat) (r : Report) :
    ∃ tree, r.tree.decodeAll (soundAnswers texts) = (none, tree) ∧
      r.addLines (readLines number lines)
        = (.ok ⟨tree, r.skipped ++ skippedFrom number texts⟩, noticesFrom number texts) := by
  -- the report grows from line to line; a skipped line leaves its assignments
  induction lines generalizing texts number r with
  | nil =>
    rw [List.map_eq_nil_iff.1 h.symm]
    have hskipped : r.skipped ++ skippedFrom number [] = r.skipped := List.append_nil _
    refine ⟨r.tree, rfl, ?_⟩
    rw [hskipped]
    rfl
  | cons line lines ih =>
    cases texts with
    | nil => cases h
    | cons text texts =>
      obtain ⟨hline, hrest⟩ := List.cons.inj h
      have hskip : (r.skip number).skipped ++ skippedFrom (number + 1) texts
          = r.skipped ++ ([number] ++ skippedFrom (number + 1) texts) := List.append_assoc ..
      -- the verdict on the first line decides what the rest starts from
      rw [readLines, Verdict.readLine_eq hline, soundAnswers_cons, skippedFrom_cons,
        noticesFrom_cons]
      cases hverdict : Verdict.ofText text with
      | blank => exact ih hrest (number + 1) r
      | notRecord fault =>
        obtain ⟨tree, htree, hadd⟩ := ih hrest (number + 1) (r.skip number)
        rw [hskip] at hadd
        refine ⟨tree, htree, ?_⟩
        simp only [addLines, hadd]
        rfl
      | unreadable answer error =>
        obtain ⟨tree, htree, hadd⟩ := ih hrest (number + 1) (r.skip number)
        rw [hskip] at hadd
        refine ⟨tree, htree, ?_⟩
        simp only [addLines, Verdict.decode_of_unreadable hverdict r.tree, hadd]
        rfl
      | sound answer =>
        obtain ⟨tree', hdecode⟩ := Verdict.decode_of_sound hverdict r.tree
        obtain ⟨tree, htree, hadd⟩ := ih hrest (number + 1) { r with tree := tree' }
        refine ⟨tree, ?_, ?_⟩
        · rw [← htree]
          simp only [Verdict.answer?, Option.toList_some, List.singleton_append,
            Assignments.decodeAll, hdecode]
        · simp only [addLines, hdecode, hadd]
          rfl

/-- `r.addLines` fails with `.file .notText` if one of `lines` is no text. -/
theorem addLines_of_not_text {lines : List (List UInt8)} (h : none ∈ lines.map Utf8.decode?)
    (number : Nat) (r : Report) :
    (r.addLines (readLines number lines)).1 = .error (.file .notText) := by
  -- no line before the one that is no text stops the report
  induction lines generalizing number r with
  | nil => cases h
  | cons line lines ih =>
    rw [readLines]
    cases hline : Utf8.decode? line with
    | none =>
      have hread : readLine line = some (.error .notText) := by
        rw [readLine, hline]
      rw [hread]
      rfl
    | some text =>
      have hrest : none ∈ lines.map Utf8.decode? := by
        rw [List.map_cons, hline] at h
        exact (List.mem_cons.1 h).resolve_left (by simp)
      rw [Verdict.readLine_eq hline]
      cases hverdict : Verdict.ofText text with
      | blank => exact ih hrest (number + 1) r
      | notRecord fault => exact ih hrest (number + 1) (r.skip number)
      | unreadable answer error =>
        simp only [addLines, Verdict.decode_of_unreadable hverdict r.tree]
        exact ih hrest (number + 1) (r.skip number)
      | sound answer =>
        obtain ⟨tree', hdecode⟩ := Verdict.decode_of_sound hverdict r.tree
        simp only [addLines, hdecode]
        exact ih hrest (number + 1) { r with tree := tree' }

/-- **A lenient report partitions the lines of a file.** If all of them are text, `r.skipped`
increases and has the numbers, from one on, of the lines that are not blank and hold no record or
one whose answer cannot be read; `r.tree` is what the answers of the other lines come to that are
not blank, read in order; and there is one notice for each skipped line, in order, which tells why.
If some line is no text, `Report.build false bytes` fails. -/
theorem lenient_partitions (bytes : List UInt8) :
    (∀ texts : List (List Char), (linesOf bytes).map Utf8.decode? = texts.map some →
      ∃ r notices, Report.build false bytes = (.ok r, notices) ∧
        r.skipped.Pairwise (· < ·) ∧
        (∀ number, number ∈ r.skipped ↔
          ∃ index text, number = index + 1 ∧ texts[index]? = some text ∧
            isBlank text = false ∧ ∀ answer, Answer.read text = .ok answer →
              ∃ error, ∀ a : Assignments,
                a.decode answer.name answer.bytes = (.error error, a)) ∧
        Assignments.decodeAll .empty
            (texts.filterMap fun text => (Verdict.ofText text).answer?) = (none, r.tree) ∧
        notices.map Notice.line? = r.skipped.map some ∧
        notices = (texts.zipIdx 1).filterMap fun x => (Verdict.ofText x.1).notice? x.2) ∧
    (none ∈ (linesOf bytes).map Utf8.decode? →
      (Report.build false bytes).1 = .error (.file .notText)) := by
  constructor
  · intro texts htexts
    -- the report of lines that are all text, numbered from one and begun with nothing
    obtain ⟨tree, htree, hadd⟩ := addLines_readLines htexts 1 {}
    refine ⟨⟨tree, skippedFrom 1 texts⟩, noticesFrom 1 texts, hadd, ?_, ?_, htree, ?_, rfl⟩
    · exact pairwise_skippedFrom 1 texts
    · intro number
      simp only [mem_skippedFrom_iff, Verdict.isSkipped_ofText_iff]
    · exact lines_noticesFrom 1 texts
  · intro hnone
    exact addLines_of_not_text hnone 1 {}

/-- A file of four lines: an answer that ends with a carriage return, white space, a text that is no
record, and a size word of one byte. A byte that starts no text leaves no report. -/
theorem lenient_partitions_answers :
    let bytes := Utf8.encode "[\"x.i#value\",[5,0,0,0]]\r\n \n[]\n[\"x.l#size\",[1]]".toList
    (∃ r, Report.build false bytes
        = (.ok r, [.skippedLine 3 .unexpected,
          .skippedAnswer "x.l#size" 4 (.wrongSize .size (.exactly 8) 1)]) ∧
      r.skipped = [3, 4] ∧
      Assignments.decodeAll .empty [("x.i#value", [5, 0, 0, 0])] = (none, r.tree)) ∧
    (Report.build false (bytes ++ [10, 255])).1 = .error (.file .notText) := by
  intro bytes
  let texts := ["[\"x.i#value\",[5,0,0,0]]", " ", "[]", "[\"x.l#size\",[1]]"].map String.toList
  have htexts : (linesOf bytes).map Utf8.decode? = texts.map some := by decide +kernel
  have hanswers : texts.filterMap (fun text => (Verdict.ofText text).answer?)
      = [("x.i#value", [5, 0, 0, 0])] := by decide +kernel
  have hnotices : (texts.zipIdx 1).filterMap (fun x => (Verdict.ofText x.1).notice? x.2)
      = [.skippedLine 3 .unexpected,
        .skippedAnswer "x.l#size" 4 (.wrongSize .size (.exactly 8) 1)] := by
    decide +kernel
  -- the report is the one of the theorem; its parts are computed from the lines alone
  obtain ⟨r, notices, hbuild, -, -, htree, hlines, rfl⟩ := (lenient_partitions bytes).1 texts htexts
  rw [hnotices] at hbuild hlines
  rw [hanswers] at htree
  refine ⟨⟨r, hbuild, ?_, htree⟩, (lenient_partitions _).2 (by decide +kernel)⟩
  have hskipped : r.skipped.map some = [3, 4].map some := hlines.symm
  exact (List.map_inj_right fun _ _ => Option.some.inj).1 hskipped

end Report
end Concolic

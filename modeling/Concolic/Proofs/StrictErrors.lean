import Concolic.Proofs.Feeds
import Concolic.Proofs.Strictness

/-! # Why a strict report fails

A strict report reads all lines as records before it reads the first answer. So a line that is no
record counts before every answer that cannot be read, also before those on earlier lines: the error
is that of the first line that is no record, and only where all lines are records it is that of the
first answer that cannot be read (`Report.strict_of_fault`, `Report.strict_of_unreadable`). It is
the error of the first line that the lenient report skips unless that line is a record and a later
one is none (`Report.strict_error_of_skipped`). -/

namespace Concolic

/-- `text` is a record if it is not blank; blank ones are passed over. -/
def HoldsRecord (text : List Char) : Prop :=
  isBlank text = false → ∃ answer, Answer.read text = .ok answer

/-! ## Answers that cannot be read -/

/-- If `a.decode name bytes` fails with `error`, so does `readAnswer (name, bytes)`. -/
theorem readAnswer_of_decode_error {a : Assignments} {name : String} {bytes : List UInt8}
    {error : BufferError} (h : (a.decode name bytes).1 = .error error) :
    readAnswer (name, bytes) = .error error := by
  rw [Assignments.decode_eq a (name, bytes)] at h
  cases hread : readAnswer (name, bytes) with
  | error error' =>
    rw [hread] at h
    cases h
    rfl
  | ok x =>
    rw [hread] at h
    cases h

/-- If `a.decode name bytes` succeeds, so does `readAnswer (name, bytes)`. -/
theorem exists_readAnswer_of_decode {a : Assignments} {name : String} {bytes : List UInt8}
    (h : (a.decode name bytes).1 = .ok ()) : ∃ x, readAnswer (name, bytes) = .ok x := by
  rw [Assignments.decode_eq a (name, bytes)] at h
  cases hread : readAnswer (name, bytes) with
  | error error =>
    rw [hread] at h
    cases h
  | ok x => exact ⟨x, rfl⟩

deriving instance DecidableEq for Verdict

namespace Verdict

variable {text : List Char}

/-- Whether the text is blank or a record. -/
def isRecord : Verdict → Bool
  | blank => true
  | notRecord _ => false
  | unreadable _ _ => true
  | sound _ => true

/-- The answer of a text that is a record. -/
def record? : Verdict → Option Answer
  | blank => none
  | notRecord _ => none
  | unreadable answer _ => some answer
  | sound answer => some answer

/-- `ofText text = .notRecord fault` if `text` is not blank and `Answer.read text` fails with
`fault`. -/
theorem ofText_of_fault {fault : Json.Fault} (hblank : isBlank text = false)
    (hread : Answer.read text = .error fault) : ofText text = .notRecord fault := by
  rw [ofText, hblank, hread]
  rfl

/-- `ofText text = .unreadable answer error` gives `Answer.read text = .ok answer`. -/
theorem read_of_unreadable {answer : Answer} {error : BufferError}
    (h : ofText text = .unreadable answer error) : Answer.read text = .ok answer := by
  unfold ofText at h
  split at h
  · cases h
  · split at h
    · cases h
    · rename_i hread
      rw [hread]
      split at h
      all_goals cases h
      rfl

/-- `HoldsRecord text` iff `(ofText text).isRecord`. -/
theorem holdsRecord_iff : HoldsRecord text ↔ (ofText text).isRecord = true := by
  rw [HoldsRecord, ofText]
  cases hblank : isBlank text with
  | true => simp [isRecord]
  | false =>
    cases hread : Answer.read text with
    | error fault => simp [isRecord]
    | ok answer =>
      cases hdecode : (Assignments.decode .empty answer.name answer.bytes).1 with
      | error error => simp [hdecode, isRecord]
      | ok _ => simp [hdecode, isRecord]

/-- `ofText text = .notRecord fault` excludes `HoldsRecord text`. -/
theorem not_holdsRecord {fault : Json.Fault} (h : ofText text = .notRecord fault) :
    ¬ HoldsRecord text := by
  rw [holdsRecord_iff, h]
  exact Bool.false_ne_true

instance : Decidable (HoldsRecord text) := decidable_of_iff _ holdsRecord_iff.symm

/-- `HoldsRecord text` if `text` is not skipped. -/
theorem holdsRecord_of_not_skipped (h : (ofText text).isSkipped = false) : HoldsRecord text := by
  rw [holdsRecord_iff]
  cases hverdict : ofText text with
  | blank => rfl
  | notRecord fault =>
    rw [hverdict] at h
    cases h
  | unreadable answer error => rfl
  | sound answer => rfl

/-- A text that is skipped is not blank, and either `Answer.read` fails on it or its answer is
`.unreadable`. -/
theorem cases_of_skipped (h : (ofText text).isSkipped = true) :
    isBlank text = false ∧
      ((∃ fault, Answer.read text = .error fault) ∨ ∃ answer error,
        Answer.read text = .ok answer ∧ ofText text = .unreadable answer error) := by
  rw [ofText] at h ⊢
  -- the verdicts in which a line is skipped: no record, or a record that cannot be decoded
  cases hblank : isBlank text with
  | true =>
    rw [hblank] at h
    cases h
  | false =>
    refine ⟨rfl, ?_⟩
    cases hread : Answer.read text with
    | error fault => exact .inl ⟨fault, rfl⟩
    | ok answer =>
      rw [hblank, hread] at h
      cases hdecode : (Assignments.decode .empty answer.name answer.bytes).1 with
      | error error => exact .inr ⟨answer, error, rfl, by simp [hdecode]⟩
      | ok _ =>
        simp only [hdecode] at h
        cases h

/-- If `text` is not skipped, `readAnswer` reads the answer on it. -/
theorem exists_readAnswer_of_record (h : (ofText text).isSkipped = false) {answer : Answer}
    (hanswer : (ofText text).record? = some answer) :
    ∃ x, readAnswer (answer.name, answer.bytes) = .ok x := by
  -- with a record that is not skipped the verdict is `.sound`
  cases hverdict : ofText text with
  | blank =>
    rw [hverdict] at hanswer
    cases hanswer
  | notRecord fault =>
    rw [hverdict] at hanswer
    cases hanswer
  | unreadable answer' error =>
    rw [hverdict] at h
    cases h
  | sound answer' =>
    rw [hverdict] at hanswer
    cases hanswer
    obtain ⟨a, ha⟩ := decode_of_sound hverdict .empty
    exact exists_readAnswer_of_decode (congrArg Prod.fst ha)

end Verdict

namespace Report

/-! ## The first line that is no record -/

/-- The answers of those `texts` that are records. -/
def recordsOf (texts : List (List Char)) : List Answer :=
  texts.filterMap fun text => (Verdict.ofText text).record?

section Lines

variable {line : List UInt8} {lines : List (List UInt8)} {text : List Char}
  {texts : List (List Char)}

/-- `answersOf` of the lines fails at the first one if that is `.notRecord`, and else goes on to the
others. -/
theorem answersOf_readLines_cons (h : Utf8.decode? line = some text) (number : Nat) :
    answersOf (readLines number (line :: lines))
      = match Verdict.ofText text with
        | .blank => answersOf (readLines (number + 1) lines)
        | .notRecord fault => .error (.record number fault)
        | .unreadable answer _ => (answersOf (readLines (number + 1) lines)).map (answer :: ·)
        | .sound answer => (answersOf (readLines (number + 1) lines)).map (answer :: ·) := by
  rw [readLines, Verdict.readLine_eq h]
  cases Verdict.ofText text with
  | blank => rfl
  | notRecord fault => rfl
  | unreadable answer error =>
    simp only [answersOf]
    cases answersOf (readLines (number + 1) lines) <;> rfl
  | sound answer =>
    simp only [answersOf]
    cases answersOf (readLines (number + 1) lines) <;> rfl

/-- If all lines have `HoldsRecord`, `answersOf` gives `recordsOf texts`. -/
theorem answersOf_of_holdsRecord (h : lines.map Utf8.decode? = texts.map some)
    (hrecords : ∀ t ∈ texts, HoldsRecord t) (number : Nat) :
    answersOf (readLines number lines) = .ok (recordsOf texts) := by
  induction lines generalizing texts number with
  | nil =>
    rw [List.map_eq_nil_iff.1 h.symm]
    rfl
  | cons line lines ih =>
    cases texts with
    | nil => cases h
    | cons text texts =>
      obtain ⟨hline, hrest⟩ := List.cons.inj h
      obtain ⟨htext, htexts⟩ := List.forall_mem_cons.1 hrecords
      rw [answersOf_readLines_cons hline, ih hrest htexts (number + 1), recordsOf, recordsOf,
        List.filterMap_cons]
      cases hverdict : Verdict.ofText text with
      | blank => rfl
      | notRecord fault => exact absurd htext (Verdict.not_holdsRecord hverdict)
      | unreadable answer error => rfl
      | sound answer => rfl

/-- Behind lines with `HoldsRecord`, a text that is `.notRecord fault` leaves the error `.record`
with its number. -/
theorem answersOf_of_fault {before after : List (List Char)} {fault : Json.Fault}
    (h : lines.map Utf8.decode? = (before ++ text :: after).map some)
    (hbefore : ∀ t ∈ before, HoldsRecord t) (hfault : Verdict.ofText text = .notRecord fault)
    (number : Nat) :
    answersOf (readLines number lines) = .error (.record (number + before.length) fault) := by
  -- the lines before are passed one by one, and the number goes with them
  induction before generalizing lines number with
  | nil =>
    cases lines with
    | nil => cases h
    | cons line lines =>
      obtain ⟨hline, -⟩ := List.cons.inj h
      rw [answersOf_readLines_cons hline, hfault]
      rfl
  | cons t before ih =>
    cases lines with
    | nil => cases h
    | cons line lines =>
      obtain ⟨hline, hrest⟩ := List.cons.inj h
      obtain ⟨ht, hrecords⟩ := List.forall_mem_cons.1 hbefore
      have hnumber : number + (t :: before).length = number + 1 + before.length := by
        rw [List.length_cons]
        omega
      rw [answersOf_readLines_cons hline, ih hrest hrecords (number + 1), hnumber]
      cases hverdict : Verdict.ofText t with
      | blank => rfl
      | notRecord fault' => exact absurd ht (Verdict.not_holdsRecord hverdict)
      | unreadable answer error => rfl
      | sound answer => rfl

end Lines

/-! ## Errors of strict reports -/

section Errors

variable {bytes : List UInt8} {text : List Char} {before after : List (List Char)}

/-- If `text` is the first that is no record, `build true bytes` fails with its number, whether or
not the answers before it can be read. -/
theorem strict_of_fault {fault : Json.Fault}
    (h : (linesOf bytes).map Utf8.decode? = (before ++ text :: after).map some)
    (hbefore : ∀ t ∈ before, HoldsRecord t) (hblank : isBlank text = false)
    (hread : Answer.read text = .error fault) :
    build true bytes = (.error (.record (before.length + 1) fault), []) := by
  have hanswers : answersOf (readRecords bytes) = .error (.record (1 + before.length) fault) :=
    answersOf_of_fault h hbefore (Verdict.ofText_of_fault hblank hread) 1
  rw [build, if_pos rfl, strict, hanswers, Nat.add_comm]

/-- If `later` is the first that is no record, `build true bytes` fails with its number, whatever
record `text` is before it. -/
theorem strict_of_later_fault {between after' : List (List Char)} {later : List Char}
    {fault : Json.Fault}
    (h : (linesOf bytes).map Utf8.decode?
      = (before ++ text :: (between ++ later :: after')).map some)
    (hbefore : ∀ t ∈ before, HoldsRecord t) (htext : HoldsRecord text)
    (hbetween : ∀ t ∈ between, HoldsRecord t) (hblank : isBlank later = false)
    (hread : Answer.read later = .error fault) :
    build true bytes = (.error (.record (before.length + 1 + between.length + 1) fault), []) := by
  -- up to the later line all are blank or records, this one included
  have hsplit : before ++ text :: (between ++ later :: after')
      = (before ++ text :: between) ++ later :: after' := by
    rw [List.append_assoc, List.cons_append]
  have hrecords : ∀ t ∈ before ++ text :: between, HoldsRecord t := by
    intro t ht
    rcases List.mem_append.1 ht with ht | ht
    · exact hbefore t ht
    · exact List.forall_mem_cons.2 ⟨htext, hbetween⟩ t ht
  have hlength : before.length + 1 + between.length + 1
      = (before ++ text :: between).length + 1 := by
    rw [List.length_append, List.length_cons]
    omega
  rw [hsplit] at h
  rw [hlength]
  exact strict_of_fault h hrecords hblank hread

/-- If `text` is the first that is skipped, and `.unreadable`, the batch of all answers fails with
its error. -/
theorem readAnswers_recordsOf {answer : Answer} {error : BufferError}
    (hbefore : ∀ t ∈ before, (Verdict.ofText t).isSkipped = false)
    (htext : Verdict.ofText text = .unreadable answer error) :
    (readAnswers ((recordsOf (before ++ text :: after)).map fun a => (a.name, a.bytes))).1
      = some error := by
  -- the records before can all be read, and that of `text` is the first that cannot
  have hsplit : recordsOf (before ++ text :: after)
      = recordsOf before ++ answer :: recordsOf after := by
    have hrecord : (Verdict.ofText text).record? = some answer := by
      rw [htext]
      rfl
    simp only [recordsOf, List.filterMap_append, List.filterMap_cons, hrecord]
  have hunreadable : readAnswer (answer.name, answer.bytes) = .error error :=
    readAnswer_of_decode_error (congrArg Prod.fst (Verdict.decode_of_unreadable htext .empty))
  have hreadable : ∀ a ∈ (recordsOf before).map (fun a => (a.name, a.bytes)),
      ∃ x, readAnswer a = .ok x := by
    intro a ha
    obtain ⟨answer', hanswer', rfl⟩ := List.mem_map.1 ha
    obtain ⟨t, ht, hrecord⟩ := List.mem_filterMap.1 hanswer'
    exact Verdict.exists_readAnswer_of_record (hbefore t ht) hrecord
  rw [hsplit, List.map_append, List.map_cons, readAnswers_append_cons hreadable hunreadable]

/-- If all lines have `HoldsRecord` and `text` is the first that is skipped, `build true bytes`
fails with the error of its answer. -/
theorem strict_of_unreadable {answer : Answer} {error : BufferError}
    (h : (linesOf bytes).map Utf8.decode? = (before ++ text :: after).map some)
    (hbefore : ∀ t ∈ before, (Verdict.ofText t).isSkipped = false)
    (htext : Verdict.ofText text = .unreadable answer error)
    (hafter : ∀ t ∈ after, HoldsRecord t) :
    build true bytes = (.error (.decode error), []) := by
  -- no line is refused while they are collected, and the batch fails at `text`
  have hrecords : ∀ t ∈ before ++ text :: after, HoldsRecord t := by
    intro t ht
    rcases List.mem_append.1 ht with ht | ht
    · exact Verdict.holdsRecord_of_not_skipped (hbefore t ht)
    · rcases List.mem_cons.1 ht with rfl | ht
      · rw [Verdict.holdsRecord_iff, htext]
        rfl
      · exact hafter t ht
  have hanswers : answersOf (readRecords bytes) = .ok (recordsOf (before ++ text :: after)) :=
    answersOf_of_holdsRecord h hrecords 1
  rw [build, if_pos rfl, strict, hanswers]
  simp only [Assignments.write_eq, readAnswers_recordsOf hbefore htext]

end Errors

/-! ## The first line that is skipped -/

/-- If `skippedFrom number texts = first :: rest`, the text under `first` is skipped and none before
it. -/
theorem exists_of_skippedFrom_eq_cons {number first : Nat} {texts : List (List Char)}
    {rest : List Nat} (h : skippedFrom number texts = first :: rest) :
    ∃ before text after, texts = before ++ text :: after ∧ first = number + before.length ∧
      (∀ t ∈ before, (Verdict.ofText t).isSkipped = false) ∧
      (Verdict.ofText text).isSkipped = true := by
  induction texts generalizing number with
  | nil => cases h
  | cons text texts ih =>
    rw [skippedFrom_cons] at h
    cases hskipped : (Verdict.ofText text).isSkipped with
    | true =>
      -- the first line is skipped, and there is none before it
      rw [hskipped, if_pos rfl] at h
      obtain ⟨rfl, -⟩ := List.cons.inj h
      exact ⟨[], text, texts, rfl, rfl, fun _ ht => absurd ht List.not_mem_nil, hskipped⟩
    | false =>
      -- the first line is passed, and the one that is skipped is found in the rest
      rw [hskipped, if_neg Bool.false_ne_true] at h
      obtain ⟨before, text', after, rfl, hfirst, hbefore, htext'⟩ := ih h
      refine ⟨text :: before, text', after, rfl, ?_, ?_, htext'⟩
      · rw [hfirst, List.length_cons]
        omega
      · exact List.forall_mem_cons.2 ⟨hskipped, hbefore⟩

/-- **Why there is no strict report, where the lenient one skips lines.** The first line that is
skipped, under `number`, is not blank. If it is no record, the error is that of this line, under its
number. If it is one, its answer cannot be read, and that is the error if all later lines have
`HoldsRecord`; otherwise the error is that of the first later line that is no record, under the
number of that line. -/
theorem strict_error_of_skipped {bytes : List UInt8} {texts : List (List Char)}
    (htexts : (linesOf bytes).map Utf8.decode? = texts.map some) {r : Report}
    (hlenient : (build false bytes).1 = .ok r) {number : Nat} {rest : List Nat}
    (hskipped : r.skipped = number :: rest) :
    ∃ before text after, texts = before ++ text :: after ∧ number = before.length + 1 ∧
      (∀ n ∈ rest, number < n) ∧ isBlank text = false ∧
      (∀ fault, Answer.read text = .error fault →
        build true bytes = (.error (.record number fault), [])) ∧
      ∀ answer, Answer.read text = .ok answer →
        ∃ error, (∀ a : Assignments, a.decode answer.name answer.bytes = (.error error, a)) ∧
          ((∀ later ∈ after, HoldsRecord later) →
            build true bytes = (.error (.decode error), [])) ∧
          ∀ between later after' fault, after = between ++ later :: after' →
            (∀ t ∈ between, HoldsRecord t) → isBlank later = false →
            Answer.read later = .error fault →
            build true bytes = (.error (.record (number + between.length + 1) fault), []) := by
  obtain ⟨tree, -, hadd⟩ := addLines_readLines htexts 1 {}
  -- the lenient report is the one over these lines
  have hreport : r.skipped = skippedFrom 1 texts := by
    rw [build, if_neg Bool.false_ne_true, lenient, readRecords, hadd] at hlenient
    cases hlenient
    rfl
  rw [hreport] at hskipped
  have hincreasing := pairwise_skippedFrom 1 texts
  rw [hskipped] at hincreasing
  obtain ⟨before, text, after, rfl, hnumber, hbefore, htext⟩ :=
    exists_of_skippedFrom_eq_cons hskipped
  rw [Nat.add_comm] at hnumber
  have hrecords : ∀ t ∈ before, HoldsRecord t := fun t ht =>
    Verdict.holdsRecord_of_not_skipped (hbefore t ht)
  obtain ⟨hblank, hcases⟩ := Verdict.cases_of_skipped htext
  refine ⟨before, text, after, rfl, hnumber, (List.pairwise_cons.1 hincreasing).1, hblank, ?_, ?_⟩
  · intro fault hfault
    rw [hnumber]
    exact strict_of_fault htexts hrecords hblank hfault
  · intro answer hanswer
    obtain ⟨fault, hfault⟩ | ⟨answer', error, hanswer', hunreadable⟩ := hcases
    · rw [hfault] at hanswer
      cases hanswer
    · -- the line is a record, so that the lines behind it are collected first
      rw [hanswer'] at hanswer
      cases hanswer
      refine ⟨error, Verdict.decode_of_unreadable hunreadable, ?_, ?_⟩
      · exact strict_of_unreadable htexts hbefore hunreadable
      · rintro between later after' fault rfl hbetween hlater hfault
        rw [hnumber]
        exact strict_of_later_fault htexts hrecords (fun _ => ⟨answer, hanswer'⟩) hbetween hlater
          hfault

/-- Two answers that cannot be read, on the second line and on the fourth, behind an answer that can
be and a blank line. All lines but the blank one are records, so the error is that of the first of
the two. -/
theorem strict_error_of_skipped_unreadable :
    let bytes := Utf8.encode
      "[\"x.value\",[5]]\n[\"x.l#size\",[1]]\n \n[\"x.i#value\",[2,3]]".toList
    (∃ r, (build false bytes).1 = .ok r ∧ r.skipped = [2, 4]) ∧
      build true bytes = (.error (.decode (.wrongSize .size (.exactly 8) 1)), []) := by
  intro bytes
  let texts := ["[\"x.value\",[5]]", "[\"x.l#size\",[1]]", " ", "[\"x.i#value\",[2,3]]"].map
    String.toList
  have htexts : (linesOf bytes).map Utf8.decode? = texts.map some := by decide +kernel
  have hskipped : skippedFrom 1 texts = [2, 4] := by decide +kernel
  obtain ⟨tree, -, hadd⟩ := addLines_readLines htexts 1 {}
  rw [hskipped] at hadd
  have hlenient : (build false bytes).1 = .ok ⟨tree, [2, 4]⟩ := congrArg Prod.fst hadd
  refine ⟨⟨_, hlenient, rfl⟩, ?_⟩
  obtain ⟨before, text, after, hsplit, hnumber, -, -, -, hunreadable⟩ :=
    strict_error_of_skipped htexts hlenient rfl
  -- the second line is the first that is skipped
  have hlength : ["[\"x.value\",[5]]".toList].length = before.length := by
    rw [List.length_singleton]
    omega
  have hsplit' : ["[\"x.value\",[5]]".toList] ++ texts.drop 1 = before ++ text :: after := hsplit
  obtain ⟨-, hrest⟩ := List.append_inj hsplit' hlength
  obtain ⟨rfl, rfl⟩ := List.cons.inj hrest.symm
  have hverdict : Verdict.ofText "[\"x.l#size\",[1]]".toList
      = .unreadable ⟨"x.l#size", [1]⟩ (.wrongSize .size (.exactly 8) 1) := by decide +kernel
  obtain ⟨error, hdecode, hbuild, -⟩ :=
    hunreadable ⟨"x.l#size", [1]⟩ (Verdict.read_of_unreadable hverdict)
  have herror : error = .wrongSize .size (.exactly 8) 1 :=
    Except.error.inj (congrArg Prod.fst
      ((hdecode .empty).symm.trans (Verdict.decode_of_unreadable hverdict .empty)))
  rw [← herror]
  apply hbuild
  show ∀ later ∈ [" ", "[\"x.i#value\",[2,3]]"].map String.toList, HoldsRecord later
  decide +kernel

/-- A file whose first line is a record of a size word of one byte and whose second line is none. A
lenient report skips both; a strict one fails with the second line, though the answer of the first
is read into no assignments. -/
theorem later_fault_counts_first :
    let bytes := Utf8.encode
      "\x7b\"name\": \"x.l#size\", \"bytes\": [1]\x7d\nno".toList
    (linesOf bytes).map Utf8.decode?
        = [some "\x7b\"name\": \"x.l#size\", \"bytes\": [1]\x7d".toList, some "no".toList] ∧
      (∃ r, (build false bytes).1 = .ok r ∧ r.skipped = [1, 2]) ∧
      Answer.read "\x7b\"name\": \"x.l#size\", \"bytes\": [1]\x7d".toList
        = .ok ⟨"x.l#size", [1]⟩ ∧
      (∀ a : Assignments,
        a.decode "x.l#size" [1] = (.error (.wrongSize .size (.exactly 8) 1), a)) ∧
      build true bytes = (.error (.record 2 .malformed), []) ∧
      ∀ error, build true bytes ≠ (.error (.decode error), []) := by
  intro bytes
  let texts := ["\x7b\"name\": \"x.l#size\", \"bytes\": [1]\x7d", "no"].map String.toList
  have htexts : (linesOf bytes).map Utf8.decode? = texts.map some := by decide +kernel
  have hskipped : skippedFrom 1 texts = [1, 2] := by decide +kernel
  obtain ⟨tree, -, hadd⟩ := addLines_readLines htexts 1 {}
  rw [hskipped] at hadd
  -- the first line is a record of one byte for a size, the second is no record
  have hverdict : Verdict.ofText "\x7b\"name\": \"x.l#size\", \"bytes\": [1]\x7d".toList
      = .unreadable ⟨"x.l#size", [1]⟩ (.wrongSize .size (.exactly 8) 1) := by decide +kernel
  have hsplit : (linesOf bytes).map Utf8.decode?
      = (texts.take 1 ++ "no".toList :: []).map some := htexts
  have hstrict : build true bytes = (.error (.record 2 .malformed), []) :=
    strict_of_fault hsplit (by decide +kernel) rfl rfl
  refine ⟨htexts, ⟨_, congrArg Prod.fst hadd, rfl⟩, Verdict.read_of_unreadable hverdict,
    Verdict.decode_of_unreadable hverdict, hstrict, ?_⟩
  intro error herror
  rw [hstrict] at herror
  cases herror

end Report
end Concolic

import Concolic.Proofs.LineEndings
import Concolic.Proofs.Renderings
import Concolic.Proofs.Strictness

/-! # Records on lines

A file is written as lines, each of which ends in a line feed, in a carriage return and a line feed,
or with the file (`written`). What such a line comes to is told by its bytes alone: nothing if they
are a blank text, the answer if they are a rendering of one, and an error else; no line before or
behind it changes that, whether it is a record, text or neither (`readRecords_written`). The one
thing that the ending takes part in is the fault of a text that is no record: a carriage return that
is written before a line feed belongs to the ending, and text that breaks off there is truncated
rather than malformed. -/

namespace Concolic

open Json

/-! ## Written lines -/

/-- How a line ends. -/
inductive Ending where
  /-- A line feed follows. -/
  | lineFeed
  /-- A carriage return and a line feed follow. -/
  | returnFeed
  /-- The file ends. -/
  | fileEnd
deriving DecidableEq, Repr

/-- The bytes of an ending. -/
def Ending.bytes : Ending → List UInt8
  | lineFeed => [Concolic.lineFeed]
  | returnFeed => [carriageReturn, Concolic.lineFeed]
  | fileEnd => []

/-- The bytes of `lines` with their endings. -/
def written (lines : List (List UInt8 × Ending)) : List UInt8 :=
  lines.flatMap fun line => line.1 ++ line.2.bytes

/-- Lines that can be written to a file: none holds a line feed, and the file ends only behind the
last. -/
inductive Writable : List (List UInt8 × Ending) → Prop where
  /-- There is no line. -/
  | nil : Writable []
  /-- The file ends behind the last line. -/
  | last {bytes : List UInt8} (h : lineFeed ∉ bytes) : Writable [(bytes, .fileEnd)]
  /-- A line ends before the file does. -/
  | cons {bytes : List UInt8} {ending : Ending} {rest : List (List UInt8 × Ending)}
      (h : lineFeed ∉ bytes) (hending : ending ≠ .fileEnd) (hrest : Writable rest) :
      Writable ((bytes, ending) :: rest)

/-- A line up to its line feed, and whether there is one. -/
def upToFeed (line : List UInt8 × Ending) : List UInt8 × Bool :=
  match line.2 with
  | .lineFeed => (line.1, true)
  | .returnFeed => (line.1 ++ [carriageReturn], true)
  | .fileEnd => (line.1, false)

/-- The content of a line. A carriage return before a line feed belongs to the ending. -/
def content (line : List UInt8 × Ending) : List UInt8 := trimEnding (upToFeed line)

/-- `written lines` joins the lines up to their line feeds. -/
theorem written_eq_joinLines (lines : List (List UInt8 × Ending)) :
    written lines = joinLines (lines.map upToFeed) := by
  rw [written, joinLines, List.flatMap_map]
  congr 1
  funext line
  obtain ⟨bytes, ending⟩ := line
  cases ending with
  | lineFeed => rfl
  | returnFeed => simp [upToFeed, Ending.bytes]
  | fileEnd => rfl

/-- `Writable lines` gives that the lines up to their line feeds are `Lined`. -/
theorem Writable.lined {lines : List (List UInt8 × Ending)} (h : Writable lines) :
    Lined (lines.map upToFeed) := by
  induction h with
  | nil => exact .nil
  | last h => exact .last h
  | @cons bytes ending rest h hending _ ih =>
    cases ending with
    | lineFeed => exact .cons h ih
    | returnFeed =>
      have hreturn : lineFeed ∉ bytes ++ [carriageReturn] := by
        rw [List.mem_append, not_or]
        exact ⟨h, by decide⟩
      exact .cons hreturn ih
    | fileEnd => exact absurd rfl hending

/-- `content line = line.1`, unless a carriage return at its end meets a line feed. -/
theorem content_eq {line : List UInt8 × Ending}
    (h : line.2 = .lineFeed → line.1.getLast? ≠ some carriageReturn) : content line = line.1 := by
  obtain ⟨bytes, ending⟩ := line
  cases ending with
  | lineFeed => exact if_neg fun hreturn => h rfl hreturn.2
  | returnFeed => simp [content, upToFeed, trimEnding]
  | fileEnd => rfl

/-- `line.1` is `content line`, or that with a carriage return behind it. -/
theorem eq_content_or (line : List UInt8 × Ending) :
    line.1 = content line ∨ line.1 = content line ++ [carriageReturn] := by
  by_cases h : line.2 = .lineFeed ∧ line.1.getLast? = some carriageReturn
  · obtain ⟨bytes, ending⟩ := line
    obtain ⟨rfl, hlast⟩ := h
    obtain ⟨init, hinit⟩ := List.getLast?_eq_some_iff.1 hlast
    subst hinit
    right
    simp [content, upToFeed, trimEnding]
  · left
    exact (content_eq fun hfeed hlast => h ⟨hfeed, hlast⟩).symm

/-! ## Items -/

/-- `readLines number lines` has a number and an item for each line that is not blank. -/
theorem readLines_eq_filterMap (number : Nat) (lines : List (List UInt8)) :
    readLines number lines
      = (lines.zipIdx number).filterMap fun x => (readLine x.1).map fun item => (x.2, item) := by
  induction lines generalizing number with
  | nil => rfl
  | cons line lines ih =>
    rw [readLines, List.zipIdx_cons, List.filterMap_cons]
    cases readLine line with
    | none => exact ih (number + 1)
    | some item => exact congrArg ((number, item) :: ·) (ih (number + 1))

/-- Two items are the same but for the fault of a text that is no record. -/
inductive SameItem : Except LineError Answer → Except LineError Answer → Prop where
  /-- Both are one answer. -/
  | answer (a : Answer) : SameItem (.ok a) (.ok a)
  /-- Neither line is text. -/
  | notText : SameItem (.error .notText) (.error .notText)
  /-- Neither text is a record. -/
  | notRecord (fault fault' : Json.Fault) :
      SameItem (.error (.notRecord fault)) (.error (.notRecord fault'))

/-- `SameItem` is reflexive. -/
theorem SameItem.refl (item : Except LineError Answer) : SameItem item item := by
  cases item with
  | ok a => exact .answer a
  | error error =>
    cases error with
    | notText => exact .notText
    | notRecord fault => exact .notRecord fault fault

/-- Items related by `SameItem` are alike where there is none, where one is `.notText` and where one
is an answer. -/
theorem SameItem.eq_iff {x y : Option (Except LineError Answer)} (h : Option.Rel SameItem x y) :
    (x = none ↔ y = none) ∧ (x = some (.error .notText) ↔ y = some (.error .notText)) ∧
      ∀ a, x = some (.ok a) ↔ y = some (.ok a) := by
  cases h with
  | none => simp
  | some h =>
    cases h with
    | answer a => simp
    | notText => simp
    | notRecord fault fault' => simp

/-- `isBlank (withReturn cs) = isBlank cs`. -/
theorem isBlank_withReturn (cs : List Char) : isBlank (Json.withReturn cs) = isBlank cs := by
  rw [Json.withReturn, isBlank, List.all_append, ← isBlank]
  exact Bool.and_true _

/-- `readLine` gives the same for `bytes` and for `bytes ++ [carriageReturn]`, but for a fault. -/
theorem readLine_append_return (bytes : List UInt8) :
    Option.Rel SameItem (readLine bytes) (readLine (bytes ++ [carriageReturn])) := by
  have hdecode : Utf8.decode? (bytes ++ [carriageReturn])
      = (Utf8.decode? bytes).map Json.withReturn := Utf8.decode?_append (by decide) bytes
  rw [readLine, readLine, hdecode]
  cases Utf8.decode? bytes with
  | none => exact .some .notText
  | some cs =>
    simp only [Option.map_some, isBlank_withReturn]
    split
    · exact .none
    · obtain ⟨a, h, h'⟩ | ⟨fault, fault', h, h'⟩ := Answer.read_alike cs
      · simp only [h, h']
        exact .some (.answer a)
      · simp only [h, h']
        exact .some (.notRecord fault fault')

/-- `readLine` gives the same for `content line` and for `line.1`, but for a fault. -/
theorem readLine_content (line : List UInt8 × Ending) :
    Option.Rel SameItem (readLine (content line)) (readLine line.1) := by
  obtain hline | hline := eq_content_or line
  · rw [← hline]
    cases readLine line.1 with
    | none => exact .none
    | some item => exact .some (.refl item)
  · rw [hline]
    exact readLine_append_return (content line)

/-- `readLine bytes = none` iff `bytes` encode a blank text. -/
theorem readLine_eq_none_iff (bytes : List UInt8) :
    readLine bytes = none ↔ ∃ text, bytes = Utf8.encode text ∧ isBlank text = true := by
  rw [readLine]
  constructor
  · intro h
    split at h
    · cases h
    rename_i text htext
    split at h
    · exact ⟨text, Utf8.decode?_eq_some_iff.1 htext, by assumption⟩
    split at h
    · cases h
    · cases h
  · rintro ⟨text, rfl, hblank⟩
    simp only [Utf8.decode?_encode, hblank, if_true]

/-- `readLine bytes` is `.notText` iff `bytes` encode no text. -/
theorem readLine_eq_notText_iff (bytes : List UInt8) :
    readLine bytes = some (.error .notText) ↔ ∀ text, bytes ≠ Utf8.encode text := by
  rw [readLine]
  constructor
  · rintro h text rfl
    simp only [Utf8.decode?_encode] at h
    split at h
    · cases h
    split at h
    · cases h
    · cases h
  · intro h
    split
    · rfl
    · rename_i text htext
      exact absurd (Utf8.decode?_eq_some_iff.1 htext) (h text)

/-- `Answer.read` fails on a blank text. -/
theorem Answer.read_of_isBlank {text : List Char} (h : isBlank text = true) (a : Answer) :
    Answer.read text ≠ .ok a := by
  have hmem {cs rest : List Char} {c : Char} (h : Json.skipSpace cs = c :: rest) : c ∈ cs := by
    induction cs with
    | nil => cases h
    | cons d cs ih =>
      rw [Json.skipSpace] at h
      split at h
      · exact List.mem_cons_of_mem d (ih h)
      · cases h
        exact List.mem_cons_self
  intro hread
  rw [Answer.read] at hread
  cases hspace : Json.skipSpace text with
  | nil =>
    rw [hspace] at hread
    cases hread
  | cons c rest =>
    have hc : isWhiteSpace c = true := List.all_eq_true.1 h c (hmem hspace)
    -- a record starts with a bracket, and no bracket is white space
    have hbracket : c ≠ '[' := by
      rintro rfl
      cases hc
    have hbrace : c ≠ '\x7b' := by
      rintro rfl
      cases hc
    simp only [hspace, if_neg hbracket, if_neg hbrace] at hread
    cases hread

/-- `Answer.Rendered a text` gives `readLine (Utf8.encode text) = some (.ok a)`. -/
theorem readLine_of_rendered {a : Answer} {text : List Char} (h : Answer.Rendered a text) :
    readLine (Utf8.encode text) = some (.ok a) := by
  have hread := Answer.read_of_rendered h
  have hblank : isBlank text = false :=
    Bool.eq_false_iff.2 fun hblank => Answer.read_of_isBlank hblank a hread
  simp only [readLine, Utf8.decode?_encode, hblank, Bool.false_eq_true, if_false, hread]

/-! ## Records -/

/-- What a line of a file comes to: `none` if it is blank, and else its item. -/
def item? (line : List UInt8 × Ending) : Option (Except LineError Answer) :=
  readLine (content line)

/-- If `Writable lines`, the records of `written lines` are the items `item?` of `lines` under their
numbers. -/
theorem readRecords_eq_filterMap {lines : List (List UInt8 × Ending)} (h : Writable lines) :
    readRecords (written lines)
      = (lines.zipIdx 1).filterMap fun x => (item? x.1).map fun item => (x.2, item) := by
  rw [readRecords, linesOf, written_eq_joinLines, splitLines_joinLines h.lined,
    Report.readLines_filter h.lined, readLines_eq_filterMap, List.map_map, List.zipIdx_map,
    List.filterMap_map]
  rfl

/-- **Records survive on lines, and lines are independent.** `readRecords (written lines)` has the
items `item? line` in order, each under the number of its line, and one for each line that does not
come to nothing. A line comes to nothing exactly if it is the bytes of a blank text, and is no text
exactly if it is the bytes of none; its item is that of its bytes as they are written, unless a
carriage return before a line feed changes the fault of a text that is no record. Each `text` with
`Answer.Rendered a text` can be a line, and comes to `a` whatever its ending. -/
theorem readRecords_written {lines : List (List UInt8 × Ending)} (h : Writable lines) :
    readRecords (written lines)
        = (lines.zipIdx 1).filterMap (fun x => (item? x.1).map fun item => (x.2, item)) ∧
      (∀ line : List UInt8 × Ending,
        (item? line = none ↔ ∃ text, line.1 = Utf8.encode text ∧ isBlank text = true) ∧
        (item? line = some (.error .notText) ↔ ∀ text, line.1 ≠ Utf8.encode text) ∧
        Option.Rel SameItem (item? line) (readLine line.1) ∧
        ((line.2 = .lineFeed → line.1.getLast? ≠ some carriageReturn) →
          item? line = readLine line.1)) ∧
      ∀ a text, Answer.Rendered a text → lineFeed ∉ Utf8.encode text ∧
        ∀ ending, item? (Utf8.encode text, ending) = some (.ok a) := by
  refine ⟨readRecords_eq_filterMap h, ?_,
    fun a text hrendered => ⟨?_, ?_⟩⟩
  · intro line
    have hitem : Option.Rel SameItem (item? line) (readLine line.1) := readLine_content line
    obtain ⟨hnone, hnotText, -⟩ := SameItem.eq_iff hitem
    exact ⟨hnone.trans (readLine_eq_none_iff line.1),
      hnotText.trans (readLine_eq_notText_iff line.1), hitem,
      fun hreturn => congrArg readLine (content_eq hreturn)⟩
  · -- the rendering has no line feed, and no other character has its byte
    intro hfeed
    exact hrendered.lineFeed_not_mem (Utf8.mem_of_mem_encode (by decide) hfeed)
  · intro ending
    obtain ⟨-, -, hanswer⟩ := SameItem.eq_iff (readLine_content (Utf8.encode text, ending))
    exact (hanswer a).2 (readLine_of_rendered hrendered)

/-- A record with all kinds of escapes before a carriage return, a blank line of a no-break space
and a tab, a line that is no text, a text that breaks off before a carriage return, and a record in
the other order without an ending. The carriage return in the fourth line would be malformed, but it
belongs to the ending. -/
theorem readRecords_written_mixed :
    let first := "\x7b\"name\": \"é\\u0022\\n\\uD83D\\ude00\", \"bytes\": [0, 255]\x7d".toList
    let last := "\x7b\"bytes\":[],\t\"name\":\"\"\x7d".toList
    let lines : List (List UInt8 × Ending) :=
      [(Utf8.encode first, .returnFeed), (Utf8.encode ['\u00a0', '\t'], .lineFeed),
        ([0xC3, 0x28], .returnFeed), (Utf8.encode "\x7b\"name\": \"a\r".toList, .lineFeed),
        (Utf8.encode last, .fileEnd)]
    Writable lines ∧ Answer.Rendered ⟨"é\"\n😀", [0, 255]⟩ first ∧ Answer.Rendered ⟨"", []⟩ last ∧
      readRecords (written lines)
        = [(1, .ok ⟨"é\"\n😀", [0, 255]⟩), (3, .error .notText),
          (4, .error (.notRecord .truncated)), (5, .ok ⟨"", []⟩)] := by
  intro first last lines
  have hlines : Writable lines := by
    refine .cons ?_ (by decide) (.cons ?_ (by decide) (.cons ?_ (by decide) (.cons ?_ (by decide)
      (.last ?_))))
    all_goals decide +kernel
  -- the renderings are put together token by token, with the gaps between them
  have hfirst : Answer.Rendered ⟨"é\"\n😀", [0, 255]⟩ first := by
    let text := "\"é\\u0022\\n\\uD83D\\ude00\"".toList
    have hquote : CodeUnit ('"').toNat ['0', '0', '2', '2'] :=
      @CodeUnit.digits 0 0 2 2 _ _ _ _ (.lower rfl) (.lower rfl) (.lower rfl) (.lower rfl)
    have hhigh : CodeUnit (0xD800 + (('😀').toNat - 0x10000) / 0x400) ['D', '8', '3', 'D'] :=
      @CodeUnit.digits 13 8 3 13 _ _ _ _ (.upper rfl) (.lower rfl) (.lower rfl) (.upper rfl)
    have hlow : CodeUnit (0xDC00 + (('😀').toNat - 0x10000) % 0x400) ['d', 'e', '0', '0'] :=
      @CodeUnit.digits 13 14 0 0 _ _ _ _ (.lower rfl) (.lower rfl) (.lower rfl) (.lower rfl)
    have htext : Quotation ['é', '"', '\n', '😀'] text :=
      .mk (.cons (.raw (by decide) (by decide) (by decide)) (.cons (.unit hquote)
        (.cons (.short (by decide)) (.cons (.pair (by decide) hhigh hlow) .nil))))
    let parts : List (List Char × List Char) :=
      [([], ['\x7b']), ([], "\"name\"".toList), ([], [':']), ([' '], text), ([], [',']),
        ([' '], "\"bytes\"".toList), ([], [':']), ([' '], ['[']), ([], ['0']), ([], [',']),
        ([' '], "255".toList), ([], [']']), ([], ['\x7d'])]
    have hspaced := spaced_flatMap (show ∀ p ∈ parts, _ by simp [parts])
    have hcs : (parts.flatMap fun p => p.1 ++ p.2) = first := by decide +kernel
    have htokens : parts.map Prod.snd
        = Answer.objectTokens ('"' :: ("name".toList ++ ['"'])) [text]
          ('"' :: ("bytes".toList ++ ['"'])) (Answer.byteTokens [0, 255]) := by decide +kernel
    rw [hcs, htokens] at hspaced
    exact .nameFirst (quotation_raw (by simp)) htext (quotation_raw (by simp)) hspaced
  have hlast : Answer.Rendered ⟨"", []⟩ last := by
    let parts : List (List Char × List Char) :=
      [([], ['\x7b']), ([], "\"bytes\"".toList), ([], [':']), ([], ['[']), ([], [']']), ([], [',']),
        (['\t'], "\"name\"".toList), ([], [':']), ([], ['"', '"']), ([], ['\x7d'])]
    have hspaced := spaced_flatMap (show ∀ p ∈ parts, _ by simp [parts])
    have hcs : (parts.flatMap fun p => p.1 ++ p.2) = last := by decide +kernel
    have htokens : parts.map Prod.snd
        = Answer.objectTokens ('"' :: ("bytes".toList ++ ['"'])) (Answer.byteTokens [])
          ('"' :: ("name".toList ++ ['"'])) [['"', '"']] := by decide +kernel
    rw [hcs, htokens] at hspaced
    exact .bytesFirst (quotation_raw (by simp)) (.mk .nil) (quotation_raw (by simp)) hspaced
  obtain ⟨hitems, hline, hrendered⟩ := readRecords_written hlines
  -- what the theorem says of each of the five lines
  have hone := (hrendered _ _ hfirst).2 .returnFeed
  have htwo := (hline (Utf8.encode ['\u00a0', '\t'], .lineFeed)).1.2 ⟨_, rfl, by decide⟩
  have hthree : item? ([0xC3, 0x28], .returnFeed) = some (.error .notText) := by
    have hdecode : Utf8.decode? [0xC3, 0x28] = none := by decide +kernel
    refine (hline _).2.1.2 ?_
    intro text htext
    have hsome : Utf8.decode? [0xC3, 0x28] = some text := Utf8.decode?_eq_some_iff.2 htext
    rw [hdecode] at hsome
    cases hsome
  have hfour : item? (Utf8.encode "\x7b\"name\": \"a\r".toList, .lineFeed)
      = some (.error (.notRecord .truncated)) := by
    let text := "\x7b\"name\": \"a".toList
    have hcontent : content (Utf8.encode "\x7b\"name\": \"a\r".toList, .lineFeed)
        = Utf8.encode text := by decide +kernel
    have hblank : isBlank text = false := by decide +kernel
    have hread : Answer.read text = .error .truncated := by
      have hfault : Except.casesOn (motive := fun _ => Option Fault) (Answer.read text) some
          (fun _ => none) = some .truncated := by decide +kernel
      cases hread : Answer.read text with
      | error fault =>
        rw [hread] at hfault
        cases hfault
        rfl
      | ok a =>
        rw [hread] at hfault
        cases hfault
    rw [item?, hcontent, readLine, Utf8.decode?_encode]
    simp only [hblank, Bool.false_eq_true, if_false, hread]
  have hfive := (hrendered _ _ hlast).2 .fileEnd
  refine ⟨hlines, hfirst, hlast, ?_⟩
  rw [hitems]
  simp only [lines, List.zipIdx_cons, List.zipIdx_nil, List.filterMap_cons, List.filterMap_nil,
    hone, htwo, hthree, hfour, hfive, Option.map_some, Option.map_none]

end Concolic

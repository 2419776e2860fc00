import Concolic.Proofs.Assignments
import Mathlib.Data.List.Dedup
import Mathlib.Data.List.Perm.Basic

/-! # Assignments under requests

Assignments are fed answers one by one and in batches, and some of the answers cannot be read. What
a request reads is a list of readings that does not depend on the assignments (`Feed.readings`), and
feeding requests assigns the readings of all of them in order (`Assignments.feed_eq`). So whatever
failed, and wherever in a batch, the assignments are the last values of the answers that were
read. -/

namespace Concolic

/-- A request to assignments. -/
inductive Feed where
  /-- Reads one answer. -/
  | answer (name : String) (bytes : List UInt8)
  /-- Reads answers in order up to the first that cannot be read. -/
  | batch (answers : List (String × List UInt8))

namespace Feed

/-- What a request reads: the readings of its answers before the first that cannot be read. -/
def readings : Feed → List Reading
  | answer name bytes => (readAnswers [(name, bytes)]).2
  | batch answers => (readAnswers answers).2

/-- The assignments that a request leaves of `a`. -/
def after (a : Assignments) : Feed → Assignments
  | answer name bytes => (a.decode name bytes).2
  | batch answers => (a.write answers).2

end Feed

/-! ## Batches -/

/-- If each of `answers` can be read, `readAnswers answers` has no error. -/
theorem readAnswers_of_forall {answers : List (String × List UInt8)}
    (h : ∀ answer ∈ answers, ∃ x, readAnswer answer = .ok x) : (readAnswers answers).1 = none := by
  induction answers with
  | nil => rfl
  | cons answer answers ih =>
    obtain ⟨x, hx⟩ := h answer List.mem_cons_self
    rw [readAnswers, hx]
    exact ih fun answer' hanswer => h answer' (List.mem_cons_of_mem _ hanswer)

/-- If all of `before` can be read and `answer` cannot, `readAnswers` stops at `answer` in
`before ++ answer :: after`. -/
theorem readAnswers_append_cons {before after : List (String × List UInt8)}
    {answer : String × List UInt8} {error : BufferError}
    (hbefore : ∀ answer' ∈ before, ∃ x, readAnswer answer' = .ok x)
    (hanswer : readAnswer answer = .error error) :
    readAnswers (before ++ answer :: after) = (some error, (readAnswers before).2) := by
  rw [readAnswers_append, readAnswers_of_forall hbefore, readAnswers, hanswer]
  exact congrArg (some error, ·) (List.append_nil _)

/-! ## Requests -/

/-- If `x ∈ readings`, `lastReading readings x.key x.field` is some value. -/
theorem isSome_lastReading {readings : List Reading} {x : Reading} (hx : x ∈ readings) :
    (lastReading readings x.key x.field).isSome := by
  rw [lastReading, List.findSome?_isSome_iff]
  exact ⟨x, List.mem_reverse.2 hx, by simp⟩

namespace Assignments

/-- The assignments that `feeds` leave of `a`, in order. -/
def feed (a : Assignments) (feeds : List Feed) : Assignments := feeds.foldl Feed.after a

/-- `f.after a = a.assignAll f.readings`. -/
theorem after_eq (a : Assignments) (f : Feed) : f.after a = a.assignAll f.readings := by
  cases f with
  | answer name bytes =>
    simp only [Feed.after, Feed.readings, readAnswers]
    rw [decode_eq a (name, bytes)]
    cases readAnswer (name, bytes) with
    | error error => rfl
    | ok x => rfl
  | batch answers => rw [Feed.after, Feed.readings, write_eq]

/-- `a.feed feeds` assigns the readings of all `feeds` in order. -/
theorem feed_eq (a : Assignments) (feeds : List Feed) :
    a.feed feeds = a.assignAll (feeds.flatMap Feed.readings) := by
  induction feeds generalizing a with
  | nil => rfl
  | cons f feeds ih =>
    rw [List.flatMap_cons, assignAll_append, ← after_eq, ← ih]
    rfl

/-- If each of `answers` can be read, feeding them one by one assigns what `readAnswers answers`
gives for the batch. -/
theorem feed_answers {answers : List (String × List UInt8)}
    (h : ∀ answer ∈ answers, ∃ x, readAnswer answer = .ok x) (a : Assignments) :
    a.feed (answers.map fun answer => .answer answer.1 answer.2)
      = a.assignAll (readAnswers answers).2 := by
  rw [feed_eq]
  congr 1
  induction answers with
  | nil => rfl
  | cons answer answers ih =>
    obtain ⟨x, hx⟩ := h answer List.mem_cons_self
    rw [List.map_cons, List.flatMap_cons,
      ih fun answer' hanswer => h answer' (List.mem_cons_of_mem _ hanswer)]
    simp only [Feed.readings, readAnswers, hx, List.singleton_append]

/-- The size of `assignAll .empty readings` is the number of different keys of `readings`. -/
theorem size_assignAll (readings : List Reading) :
    (assignAll .empty readings).size = (readings.map Reading.key).dedup.length := by
  have hperm : (assignAll .empty readings).keys.Perm (readings.map Reading.key).dedup := by
    rw [List.perm_ext_iff_of_nodup (OrderedMap.nodup_keys _) (List.nodup_dedup _)]
    intro key
    rw [mem_keys_assignAll, List.mem_dedup, List.mem_map]
    simp [OrderedMap.keys, OrderedMap.empty]
  rw [OrderedMap.size, ← hperm.length_eq, OrderedMap.keys, List.length_map]

/-- Every key of `assignAll .empty readings` has a part. -/
theorem exists_field_of_assignAll {readings : List Reading} {key : String} {fields : Fields}
    (h : (assignAll .empty readings).get? key = some fields) :
    ∃ field value, fields.get? field = some value := by
  have hkey : key ∈ (assignAll .empty readings).keys := by
    rw [OrderedMap.mem_keys_iff, h]
    rfl
  rw [mem_keys_assignAll] at hkey
  rcases hkey with ⟨x, hx, rfl⟩ | hkey
  · -- the reading that made the key has a part, and the last one of that part gives its value
    obtain ⟨value, hvalue⟩ := Option.isSome_iff_exists.1 (isSome_lastReading hx)
    have hpart := value?_assignAll .empty readings x.key x.field
    rw [hvalue, value?, h] at hpart
    exact ⟨x.field, value, hpart⟩
  · cases hkey

/-- **The last write stands, through failures.** For `a = feed .empty feeds` and the
`readings` of all requests, `a.value? key field` is the last reading of the part, and `a.keys` are
the keys of the readings, each with at least one part and counted once in `a.size`. There `decode`
assigns what `readAnswer` gives, and where that is an error it leaves `a`, so that such an answer
makes no difference to what comes later. `write` of a batch that `readAnswer` reads as a whole gives
its number; of any other it gives the error of the first answer that cannot be read, and exactly the
answers before that one are assigned. -/
theorem feed_last_write (feeds : List Feed) :
    let a := feed .empty feeds
    let readings := feeds.flatMap Feed.readings
    (∀ key field, a.value? key field = lastReading readings key field) ∧
    (∀ key, key ∈ a.keys ↔ ∃ x ∈ readings, x.key = key) ∧
    (∀ key fields, a.get? key = some fields → ∃ field value, fields.get? field = some value) ∧
    a.size = (readings.map Reading.key).dedup.length ∧
    (∀ answer : String × List UInt8,
      a.decode answer.1 answer.2
        = match readAnswer answer with
          | .ok x => (.ok (), a.assign x.key x.field x.value)
          | .error error => (.error error, a)) ∧
    (∀ name bytes error, (a.decode name bytes).1 = .error error →
      (a.decode name bytes).2 = a ∧ ∀ later, feed .empty (feeds ++ .answer name bytes :: later)
        = feed .empty (feeds ++ later)) ∧
    (∀ answers : List (String × List UInt8),
      (∀ answer ∈ answers, ∃ x, readAnswer answer = .ok x) →
        a.write answers
          = (.ok answers.length, a.feed (answers.map fun answer => .answer answer.1 answer.2))) ∧
    ∀ (before after : List (String × List UInt8)) (answer : String × List UInt8) error,
      (∀ answer' ∈ before, ∃ x, readAnswer answer' = .ok x) →
        readAnswer answer = .error error →
          a.write (before ++ answer :: after)
            = (.error error,
              a.feed (before.map fun answer' => .answer answer'.1 answer'.2)) := by
  intro a readings
  have hfeed : a = assignAll .empty readings := feed_eq .empty feeds
  refine ⟨?_, ?_, ?_, ?_, decode_eq a, ?_, ?_, ?_⟩
  · intro key field
    rw [hfeed, value?_assignAll]
    exact Option.or_none
  · intro key
    rw [hfeed, mem_keys_assignAll]
    simp [OrderedMap.keys, OrderedMap.empty]
  · intro key fields h
    rw [hfeed] at h
    exact exists_field_of_assignAll h
  · rw [hfeed, size_assignAll]
  · intro name bytes error h
    have hleft : (a.decode name bytes).2 = a := by
      rw [decode_eq a (name, bytes)] at h ⊢
      cases hread : readAnswer (name, bytes) with
      | error error' => rfl
      | ok x =>
        rw [hread] at h
        cases h
    refine ⟨hleft, ?_⟩
    intro later
    -- the requests before lead to the same assignments on both sides
    rw [feed, feed, List.foldl_append, List.foldl_append, List.foldl_cons]
    exact congrArg (later.foldl Feed.after ·) hleft
  · intro answers h
    rw [write_eq, readAnswers_of_forall h, feed_answers h]
  · intro before after answer error hbefore hanswer
    rw [write_eq, readAnswers_append_cons hbefore hanswer, feed_answers hbefore]

/-- Two names of one part, a letter that is no tag in a batch, and a size word of one byte: the last
value that was read stands, and no other key is there. -/
theorem feed_last_write_collision :
    let a := feed .empty [.answer "x.i#value" [5, 0, 0, 0],
      .batch [("x.value", [1]), ("y.q#value", []), ("z.value", [2])], .answer "w.l#size" [1]]
    a.value? "x" "value" = some (.byteArray [1]) ∧ a.value? "z" "value" = none ∧ a.size = 1 ∧
      a.write [("z.value", [2]), ("w.l#size", [1]), ("x.value", [3])]
        = (.error (.wrongSize .size (.exactly 8) 1), a.feed [.answer "z.value" [2]]) := by
  intro a
  obtain ⟨hvalue, -, -, hsize, -, -, -, hwrite⟩ := feed_last_write
    [.answer "x.i#value" [5, 0, 0, 0],
      .batch [("x.value", [1]), ("y.q#value", []), ("z.value", [2])], .answer "w.l#size" [1]]
  -- what the theorem says of these requests is computed
  refine ⟨(hvalue _ _).trans ?_, (hvalue _ _).trans ?_, hsize.trans ?_,
    hwrite [("z.value", [2])] [("x.value", [3])] ("w.l#size", [1]) _ ?_ ?_⟩
  · decide +kernel
  · decide +kernel
  · decide +kernel
  · simp only [List.mem_singleton, forall_eq]
    exact ⟨⟨"z", "value", .byteArray [2]⟩, rfl⟩
  · rfl

end Assignments
end Concolic

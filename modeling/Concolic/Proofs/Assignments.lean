import Concolic.Assignments

/-! # Assignments as last writes

An answer that can be read is a `Reading`: a part of an object has a value. Reading answers into
assignments assigns their readings in order, so a part has the value of the last reading of it
(`Assignments.value?_assignAll`), and the keys are the objects that are read. -/

namespace Concolic

/-- What an answer says: the part `field` of the object `key` has the value `value`. -/
structure Reading where
  /-- The name of the object. -/
  key : String
  /-- The part of the object. -/
  field : String
  /-- The value of the part. -/
  value : BufferValue

/-- Reads an answer: its name says the part, and its bytes the value. -/
def readAnswer (answer : String × List UInt8) : Except BufferError Reading :=
  match BufferName.decode answer.1 with
  | .error error => .error (.name error)
  | .ok parts =>
    match BufferValue.ofBytes answer.2 parts.tag with
    | .error error => .error error
    | .ok value => .ok ⟨parts.key, parts.field, value⟩

/-- Reads answers in order up to the first that cannot be read: its error, and the readings of the
answers before it. -/
def readAnswers : List (String × List UInt8) → Option BufferError × List Reading
  | [] => (none, [])
  | answer :: rest =>
    match readAnswer answer with
    | .error error => (some error, [])
    | .ok x => ((readAnswers rest).1, x :: (readAnswers rest).2)

/-- `readAnswers (answers ++ answers')` goes on to `answers'` only if all of `answers` can be
read. -/
theorem readAnswers_append (answers answers' : List (String × List UInt8)) :
    readAnswers (answers ++ answers')
      = match (readAnswers answers).1 with
        | none =>
          ((readAnswers answers').1, (readAnswers answers).2 ++ (readAnswers answers').2)
        | some error => (some error, (readAnswers answers).2) := by
  induction answers with
  | nil => rfl
  | cons answer answers ih =>
    rw [List.cons_append, readAnswers, readAnswers, ih]
    cases readAnswer answer with
    | error error => rfl
    | ok x =>
      simp only
      cases (readAnswers answers).1 with
      | none => rfl
      | some error => rfl

/-- If `answers` read as `readings`, `readAnswers answers = (none, readings)`. -/
theorem readAnswers_of_map {answers : List (String × List UInt8)} {readings : List Reading}
    (h : answers.map readAnswer = readings.map .ok) : readAnswers answers = (none, readings) := by
  induction answers generalizing readings with
  | nil =>
    rw [List.map_eq_nil_iff.1 h.symm]
    rfl
  | cons answer answers ih =>
    cases readings with
    | nil => cases h
    | cons x readings =>
      obtain ⟨hanswer, hrest⟩ := List.cons.inj h
      rw [readAnswers, hanswer, ih hrest]

/-- The value of the last of `readings` for the part `field` of `key`. -/
def lastReading (readings : List Reading) (key field : String) : Option BufferValue :=
  readings.reverse.findSome? fun x => if x.key = key ∧ x.field = field then some x.value else none

/-- The last reading of `readings ++ readings'` is that of `readings'` if it has one. -/
theorem lastReading_append (readings readings' : List Reading) (key field : String) :
    lastReading (readings ++ readings') key field
      = (lastReading readings' key field).or (lastReading readings key field) := by
  rw [lastReading, List.reverse_append, List.findSome?_append]
  rfl

namespace Assignments

/-- Assigns `readings` in order. -/
def assignAll (a : Assignments) (readings : List Reading) : Assignments :=
  readings.foldl (fun a x => a.assign x.key x.field x.value) a

/-- An answer is read into assignments by assigning its reading, and one that cannot be read leaves
them: `a.decode answer.1 answer.2 = (.error error, a)` where `readAnswer answer = .error error`.
Whether it can be read, and why not, does not depend on the assignments. -/
theorem decode_eq (a : Assignments) (answer : String × List UInt8) :
    a.decode answer.1 answer.2
      = match readAnswer answer with
        | .ok x => (.ok (), a.assign x.key x.field x.value)
        | .error error => (.error error, a) := by
  rw [decode, readAnswer]
  cases BufferName.decode answer.1 with
  | error error => rfl
  | ok parts =>
    simp only
    cases BufferValue.ofBytes answer.2 parts.tag with
    | error error => rfl
    | ok value => rfl

/-- `a.decodeAll answers` assigns the readings of the answers before the first that cannot be
read. -/
theorem decodeAll_eq (a : Assignments) (answers : List (String × List UInt8)) :
    a.decodeAll answers = ((readAnswers answers).1, a.assignAll (readAnswers answers).2) := by
  induction answers generalizing a with
  | nil => rfl
  | cons answer answers ih =>
    rw [decodeAll, decode_eq, readAnswers]
    cases readAnswer answer with
    | error error => rfl
    | ok x => exact ih (a.assign x.key x.field x.value)

/-- `a.write answers` gives the error of the first answer that cannot be read, or `answers.length`
if there is none, and assigns the readings of the answers before it. -/
theorem write_eq (a : Assignments) (answers : List (String × List UInt8)) :
    a.write answers
      = (match (readAnswers answers).1 with
          | none => .ok answers.length
          | some error => .error error,
        a.assignAll (readAnswers answers).2) := by
  rw [write, decodeAll_eq]
  cases (readAnswers answers).1 with
  | none => rfl
  | some error => rfl

/-- If `answers` read as `readings`,
`a.write answers = (.ok answers.length, a.assignAll readings)`. -/
theorem write_of_readAnswer {answers : List (String × List UInt8)} {readings : List Reading}
    (a : Assignments) (h : answers.map readAnswer = readings.map .ok) :
    a.write answers = (.ok answers.length, a.assignAll readings) := by
  rw [write_eq, readAnswers_of_map h]

/-- In `a.assignAll readings` a part has the value of its last reading, or else its value in `a`. -/
theorem value?_assignAll (a : Assignments) (readings : List Reading) (key field : String) :
    (a.assignAll readings).value? key field
      = (lastReading readings key field).or (a.value? key field) := by
  induction readings generalizing a with
  | nil => rfl
  | cons x readings ih =>
    have hcons : a.assignAll (x :: readings)
        = (a.assign x.key x.field x.value).assignAll readings := rfl
    rw [hcons, ih, value?_assign, ← List.singleton_append, lastReading_append, Option.or_assoc]
    congr 1
    by_cases hpart : x.key = key ∧ x.field = field
    · simp [lastReading, hpart]
    · simp [lastReading, hpart]

/-- The keys of `a.assign key field value` are `key` and those of `a`. -/
theorem mem_keys_assign {a : Assignments} {key field : String} {value : BufferValue}
    {key' : String} : key' ∈ (a.assign key field value).keys ↔ key' = key ∨ key' ∈ a.keys := by
  rw [OrderedMap.mem_keys_iff, OrderedMap.mem_keys_iff, assign, OrderedMap.get?_insert]
  by_cases hkey : key = key'
  · simp [hkey]
  · simp [hkey, Ne.symm hkey]

/-- The keys of `a.assignAll readings` are those of `readings` and those of `a`. -/
theorem mem_keys_assignAll {a : Assignments} {readings : List Reading} {key : String} :
    key ∈ (a.assignAll readings).keys ↔ (∃ x ∈ readings, x.key = key) ∨ key ∈ a.keys := by
  induction readings generalizing a with
  | nil => simp [assignAll]
  | cons x readings ih =>
    have hcons : a.assignAll (x :: readings)
        = (a.assign x.key x.field x.value).assignAll readings := rfl
    rw [hcons, ih, mem_keys_assign]
    simp only [List.mem_cons, exists_eq_or_imp]
    constructor
    · rintro (h | rfl | h)
      · exact .inl (.inr h)
      · exact .inl (.inl rfl)
      · exact .inr h
    · rintro ((rfl | h) | h)
      · exact .inr (.inl rfl)
      · exact .inl h
      · exact .inr (.inr h)

/-- `a.assignAll (readings ++ readings')` assigns `readings` first and then `readings'`. -/
theorem assignAll_append (a : Assignments) (readings readings' : List Reading) :
    a.assignAll (readings ++ readings') = (a.assignAll readings).assignAll readings' :=
  List.foldl_append

/-! ## Orders of readings -/

/-- Assignments with the same keys and the same `value?` are equal. -/
theorem ext_value? {a b : Assignments} (hkeys : ∀ key, key ∈ a.keys ↔ key ∈ b.keys)
    (hvalues : ∀ key field, a.value? key field = b.value? key field) : a = b := by
  apply OrderedMap.ext_get?
  intro key
  have hkey := hkeys key
  have hvalue := hvalues key
  rw [OrderedMap.mem_keys_iff, OrderedMap.mem_keys_iff] at hkey
  unfold value? at hvalue
  -- a key without fields would not be seen in the values, so `hkeys` is needed for it
  cases ha : a.get? key with
  | none =>
    cases hb : b.get? key with
    | none => rfl
    | some fields' => simp [ha, hb] at hkey
  | some fields =>
    cases hb : b.get? key with
    | none => simp [ha, hb] at hkey
    | some fields' =>
      simp only [ha, hb, Option.bind_some] at hvalue
      rw [OrderedMap.ext_get? hvalue]

/-- If no reading is of the object `key`, `lastReading readings key field = none`. -/
theorem lastReading_eq_none {readings : List Reading} {key : String}
    (h : ∀ x ∈ readings, x.key ≠ key) (field : String) : lastReading readings key field = none := by
  rw [lastReading, List.findSome?_eq_none_iff]
  intro x hx
  simp [h x (List.mem_reverse.1 hx)]

/-- If `readings` and `readings'` are of different objects, they may be assigned in either order. -/
theorem assignAll_comm (a : Assignments) {readings readings' : List Reading}
    (h : ∀ x ∈ readings, ∀ x' ∈ readings', x.key ≠ x'.key) :
    (a.assignAll readings).assignAll readings' = (a.assignAll readings').assignAll readings := by
  apply ext_value?
  · intro key
    simp only [mem_keys_assignAll]
    exact or_left_comm
  · intro key field
    simp only [value?_assignAll]
    -- at most one of the two lists reads the object
    by_cases hkey : ∃ x ∈ readings, x.key = key
    · obtain ⟨x, hx, rfl⟩ := hkey
      rw [lastReading_eq_none fun x' hx' => (h x hx x' hx').symm, Option.none_or, Option.none_or]
    · have hnone : lastReading readings key field = none :=
        lastReading_eq_none (fun x hx heq => hkey ⟨x, hx, heq⟩) field
      rw [hnone, Option.none_or, Option.none_or]

/-- If `l.filterMap f` has no duplicates, `f` is injective where it is defined on `l`. -/
theorem eq_of_nodup_filterMap {α β : Type} {f : α → Option β} {l : List α}
    (h : (l.filterMap f).Nodup) {x y : α} (hx : x ∈ l) (hy : y ∈ l) {b : β} (hfx : f x = some b)
    (hfy : f y = some b) : x = y := by
  induction l with
  | nil => cases hx
  | cons a l ih =>
    rcases List.mem_cons.1 hx with rfl | hx'
    · rcases List.mem_cons.1 hy with rfl | hy'
      · rfl
      · rw [List.filterMap_cons_some hfx, List.nodup_cons] at h
        exact (h.1 (List.mem_filterMap.2 ⟨y, hy', hfy⟩)).elim
    · rcases List.mem_cons.1 hy with rfl | hy'
      · rw [List.filterMap_cons_some hfy, List.nodup_cons] at h
        exact (h.1 (List.mem_filterMap.2 ⟨x, hx', hfx⟩)).elim
      · exact ih (h.sublist ((List.sublist_cons_self a l).filterMap f)) hx' hy'

/-- Blocks of readings, each of an object of its own, may be assigned in any order:
`a.assignAll (ms.flatMap block) = a.assignAll (ms'.flatMap block)` for `ms.Perm ms'`. -/
theorem assignAll_perm {α : Type} {base : α → Option String} {block : α → List Reading}
    (hblock : ∀ m, ∀ x ∈ block m, base m = some x.key) {ms ms' : List α} (hperm : ms.Perm ms')
    (hbases : (ms.filterMap base).Nodup) (a : Assignments) :
    a.assignAll (ms.flatMap block) = a.assignAll (ms'.flatMap block) := by
  have hfold (ms : List α) (a : Assignments) :
      a.assignAll (ms.flatMap block) = ms.foldl (fun a m => a.assignAll (block m)) a := by
    induction ms generalizing a with
    | nil => rfl
    | cons m ms ih => rw [List.flatMap_cons, assignAll_append, ih, List.foldl_cons]
  rw [hfold, hfold]
  -- it is enough that any two blocks commute, and blocks of different keys do
  apply hperm.foldl_eq'
  intro m hm m' hm' a
  by_cases heq : m = m'
  · rw [heq]
  · apply assignAll_comm
    intro x hx x' hx' hkey
    have hbase := hblock m x hx
    rw [hkey] at hbase
    exact heq (eq_of_nodup_filterMap hbases hm hm' hbase (hblock m' x' hx'))

end Assignments
end Concolic

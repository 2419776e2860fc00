import Concolic.BufferValue
import Concolic.Proofs.Recorder

/-! # Buffers that read back

A `Buffer` is what a marking hands to the engine: the part of an object, with the value that its
bytes spell and the assumptions on it. Its name takes apart into the object and the part
(`BufferName.decode_of_encode`), and its bytes under the letter of that name spell the value again
(`BufferValue.ofBytes_toBytes`). -/

namespace Concolic

/-! ## Names -/

namespace BufferName

/-- `n.encode = .ok name` iff the qualifier of `n` is not empty and holds no separator, no NUL
stands in base or qualifier, the composite text fits the engine's buffer, and `n.text = name`. -/
theorem encode_eq_ok_iff {n : BufferName} {name : String} :
    n.encode = .ok name ↔
      (n.qualifier.toList ≠ [] ∧ separator ∉ n.qualifier.toList ∧ '\x00' ∉ n.base.toList ∧
        '\x00' ∉ n.qualifier.toList ∧ Utf8.length n.chars ≤ byteLimit) ∧ n.text = name := by
  rw [encode]
  by_cases hempty : n.qualifier.toList = []
  · simp [hempty]
  · by_cases hsep : separator ∈ n.qualifier.toList
    · simp [hempty, hsep]
    · by_cases hnul : '\x00' ∈ n.base.toList ∨ '\x00' ∈ n.qualifier.toList
      · rcases hnul with hnul | hnul
        · simp [hempty, hsep, hnul]
        · simp [hempty, hsep, hnul]
      · obtain ⟨hbase, hqualifier⟩ := not_or.1 hnul
        by_cases hlength : byteLimit < Utf8.length n.chars
        · simp [hempty, hsep, hbase, hqualifier, hlength, Nat.not_le_of_lt hlength]
        · simp [hempty, hsep, hbase, hqualifier, hlength, Nat.le_of_not_lt hlength]

/-- If `n.encode = .ok name`, then `name = n.text`. -/
theorem eq_text_of_encode {n : BufferName} {name : String} (h : n.encode = .ok name) :
    name = n.text :=
  (encode_eq_ok_iff.1 h).2.symm

/-- If `n.encode = .ok name`, the qualifier of `n` is not empty and holds no separator. -/
theorem qualifier_of_encode {n : BufferName} {name : String} (h : n.encode = .ok name) :
    n.qualifier.toList ≠ [] ∧ separator ∉ n.qualifier.toList := by
  obtain ⟨⟨hempty, hsep, -⟩, -⟩ := encode_eq_ok_iff.1 h
  exact ⟨hempty, hsep⟩

/-- No letter `t.char` of a tag is the `separator`. -/
theorem separator_ne_char (t : Tag) : separator ≠ t.char := by
  cases t <;> decide

/-- Behind the last separator of `n.chars` stand the letter of the tag, the `marker` and the
qualifier. -/
theorem splitLast_chars {n : BufferName} (hsep : separator ∉ n.qualifier.toList) :
    splitLast separator n.chars
      = some (n.base.toList, n.tag.char :: marker :: n.qualifier.toList) := by
  apply splitLast_append
  -- none of what stands behind it is the separator
  intro h
  rcases List.mem_cons.1 h with h | h
  · exact separator_ne_char n.tag h
  · rcases List.mem_cons.1 h with h | h
    · exact absurd h (by decide)
    · exact hsep h

/-- If `n.encode = .ok name`, then `decode name = .ok ⟨n.base, n.qualifier, n.tag.char⟩`. -/
theorem decode_of_encode {n : BufferName} {name : String} (h : n.encode = .ok name) :
    decode name = .ok ⟨n.base, n.qualifier, n.tag.char⟩ := by
  obtain ⟨hempty, hsep⟩ := qualifier_of_encode h
  have hchars : name.toList = n.chars := by
    rw [eq_text_of_encode h, text, String.toList_ofList]
  rw [decode, hchars, splitLast_chars hsep]
  simp only [n.tag.char_lt, and_self, if_true, if_neg hempty, String.ofList_toList]

end BufferName

/-! ## Values -/

namespace BufferValue

/-- `ofBytes v.toBytes v.tag.char = .ok v`. -/
theorem ofBytes_toBytes (v : BufferValue) : ofBytes v.toBytes v.tag.char = .ok v := by
  rw [ofBytes, Tag.ofChar?_char]
  cases v with
  | integer n => simp [tag, toBytes, exact, intWidth, Except.map]
  | sizeWord n => simp [tag, toBytes, exact, sizeWidth, Except.map]
  | byteString bytes => rfl
  | wideString units => simp [tag, toBytes, unitWidth, mapM_unitOfPiece, Except.map]
  | byteArray bytes => rfl

end BufferValue

/-! ## Buffers -/

/-- A tracked buffer, with the value that its bytes spell and what is assumed of it. -/
structure Buffer where
  /-- The name of the object. -/
  base : String
  /-- The part of the object. -/
  qualifier : String
  /-- The value that the bytes spell. -/
  value : BufferValue
  /-- The warnings given for the value before it is assumed anything of. -/
  notices : List Warning := []
  /-- The assumptions on the value. -/
  assumptions : List Assumption := []

namespace Buffer

/-- The parts of the buffer's name. -/
def name (b : Buffer) : BufferName := ⟨b.base, b.qualifier, b.value.tag⟩

/-- `b` as it is tracked: its name and its bytes. -/
def answer (b : Buffer) : String × List UInt8 := (b.name.text, b.value.toBytes)

/-- The events of `b`: it is tracked, and then `b.assumptions` are added. -/
def events (b : Buffer) : List Event :=
  .tracked b.name.text b.value.toBytes :: b.assumptions.map .assumed

/-- The warnings given for `b`: of a replay that is ignored, `b.notices`, and of assumptions that
fail. -/
def warnings (replays : Replays) (b : Buffer) : List Warning :=
  Recorder.ignored replays b.name.text b.value.toBytes.length
    ++ (b.notices ++ Recorder.failing b.assumptions)

/-- `b.events` tracks `b.answer` and nothing else. -/
@[simp] theorem tracked_events (b : Buffer) : b.events.filterMap Event.tracked? = [b.answer] := by
  have hassumed : (b.assumptions.map Event.assumed).filterMap Event.tracked? = [] := by
    rw [List.filterMap_map]
    exact List.filterMap_eq_nil_iff.2 fun _ _ => rfl
  rw [events, List.filterMap_cons, hassumed]
  rfl

/-- The assumptions among `b.events` are `b.assumptions`. -/
@[simp] theorem assumed_events (b : Buffer) :
    b.events.filterMap Event.assumed? = b.assumptions := by
  rw [events, List.filterMap_cons, List.filterMap_map]
  exact List.filterMap_some

end Buffer

namespace Recorder

/-- `r` after `buffers` were tracked and the assumptions on them added. -/
def hold (r : Recorder) (buffers : List Buffer) : Recorder :=
  r.extend (buffers.flatMap Buffer.events) (buffers.flatMap (Buffer.warnings r.replays))

@[simp] theorem hold_nil (r : Recorder) : r.hold [] = r := extend_nil r

/-- `(r.hold buffers).hold buffers' = r.hold (buffers ++ buffers')`. -/
theorem hold_append (r : Recorder) (buffers buffers' : List Buffer) :
    (r.hold buffers).hold buffers' = r.hold (buffers ++ buffers') := by
  rw [hold, hold, hold, replays_extend, extend_extend, List.flatMap_append, List.flatMap_append]

/-- `r` after `b` was tracked, before anything is assumed of it. -/
def enter (r : Recorder) (b : Buffer) : Recorder :=
  r.extend [.tracked b.name.text b.value.toBytes]
    (ignored r.replays b.name.text b.value.toBytes.length)

/-- `r.hold [b]` tracks `b`, warns of it and adds the assumptions on it. -/
theorem hold_singleton (r : Recorder) (b : Buffer) :
    r.hold [b]
      = ((r.enter b).extend [] b.notices).extend (b.assumptions.map .assumed)
          (failing b.assumptions) := by
  rw [enter, extend_extend, extend_extend, hold, List.flatMap_singleton, List.flatMap_singleton,
    Buffer.events, Buffer.warnings]
  rfl

@[simp] theorem replays_hold (r : Recorder) (buffers : List Buffer) :
    (r.hold buffers).replays = r.replays := rfl

end Recorder

/-- The events of `buffers` track exactly the answers of `buffers`. -/
theorem tracked_flatMap_events (buffers : List Buffer) :
    (buffers.flatMap Buffer.events).filterMap Event.tracked? = buffers.map Buffer.answer := by
  induction buffers with
  | nil => rfl
  | cons b buffers ih =>
    rw [List.flatMap_cons, List.filterMap_append, ih, Buffer.tracked_events]
    rfl

/-- The assumptions among the events of `buffers` are those of `buffers`. -/
theorem assumed_flatMap_events (buffers : List Buffer) :
    (buffers.flatMap Buffer.events).filterMap Event.assumed?
      = buffers.flatMap Buffer.assumptions := by
  induction buffers with
  | nil => rfl
  | cons b buffers ih =>
    rw [List.flatMap_cons, List.filterMap_append, ih, Buffer.assumed_events]
    rfl

end Concolic

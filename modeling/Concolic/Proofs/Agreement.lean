import Concolic.Proofs.Assignments
import Concolic.Proofs.Runs
import Mathlib.Data.List.Basic

/-! # Answers agree with the marked values

Feeding the tracked buffers of a run back as answers gives, for every object, what the last calls
under its name returned: the content of the value and the word of its size. Each call leaves
readings of its own result in the log (`Made.readAnswer_tracked`), and of the readings of one part
the last stands (`lastReading_flatMap`). -/

namespace Concolic

/-! ## Readings of a call -/

/-- The content of a value, as a buffer holds it. -/
def Value.content? : Value → Option BufferValue
  | .int n => some (.integer n)
  | .str _ bytes => some (.byteString bytes)
  | .unicode _ units => some (.wideString units)
  | _ => Option.none

/-- What `b` says of its object: its part `b.qualifier` has the value `b.value`. -/
def Buffer.reading (b : Buffer) : Reading := ⟨b.base, b.qualifier, b.value⟩

/-- If the name of `b` can be given, `readAnswer b.answer = .ok b.reading`. -/
theorem Buffer.readAnswer_answer {b : Buffer} (h : b.name.encode = .ok b.name.text) :
    readAnswer b.answer = .ok b.reading := by
  rw [readAnswer, answer, BufferName.decode_of_encode h]
  simp only [name, BufferValue.ofBytes_toBytes, reading]

namespace Made

/-- The content that the call `m` left in a buffer: that of the value it gave. -/
def value? (m : Made) : Option BufferValue :=
  match m.outcome with
  | .error _ => none
  | .ok v => v.content?

/-- The size word that the call `m` left in a buffer: that of the value it gave, if `tracksSize`. -/
def size? (m : Made) : Option BufferValue :=
  match m.outcome with
  | .error _ => none
  | .ok v => if m.call.tracksSize then v.size?.map .sizeWord else none

/-- The readings that the call `m` left in the log: those of `m.value?` and `m.size?`. -/
def readings (m : Made) : List Reading :=
  (m.value?.map fun v => ⟨m.call.base, BufferName.valueQualifier, v⟩).toList
    ++ (m.size?.map fun v => ⟨m.call.base, BufferName.sizeQualifier, v⟩).toList

end Made

/-- The readings of `Marking.sizeBuffers` are the size word if `0 ≤ max`, and none otherwise. -/
theorem readings_sizeBuffers (base : String) (max min word : Int64) :
    (Marking.sizeBuffers base (.of max min) word).map Buffer.reading
      = (if 0 ≤ max then [⟨base, BufferName.sizeQualifier, .sizeWord word⟩] else []) := by
  rw [Marking.sizeBuffers]
  by_cases hmax : 0 ≤ max
  · rw [if_pos hmax, if_pos ((SizePolicy.tracked_of_iff max min).2 (Int64.not_lt.2 hmax))]
    rfl
  · have hfixed : ¬ (SizePolicy.of max min).tracked = true := fun h =>
      hmax (Int64.not_lt.1 ((SizePolicy.tracked_of_iff max min).1 h))
    rw [if_neg hmax, if_neg hfixed]
    rfl

/-- The buffers of an accepted call have the readings `m.readings`: the content and the size of its
result. -/
theorem Call.readings_buffers {m : Made} (haccept : m.call.accept = .ok ()) {replays : Replays}
    (houtcome : m.outcome = .ok (m.call.result replays)) (bound : Int64) :
    (m.call.buffers bound (m.call.result replays)).map Buffer.reading = m.readings := by
  rw [Made.readings, Made.value?, Made.size?, houtcome]
  generalize m.call = c at haccept
  cases c with
  | int n base max min => rfl
  | sequence memory v base max min =>
    cases v with
    | int n =>
      -- an integer has a content but is refused as a sequence
      by_cases hmin : min < 0 <;>
        simp [Call.accept, Call.check, hmin, Concolic.accept] at haccept
    | str | unicode =>
      -- a content, and behind it the size unless that is fixed
      simp only [Call.buffers, Call.result, List.map_cons, readings_sizeBuffers]
      by_cases hmax : 0 ≤ max
      · simp [Buffer.reading, Marking.valueBuffer, Value.content?, Value.size?, Value.kind,
          Call.tracksSize, Call.base, hmax]
      · simp [Buffer.reading, Marking.valueBuffer, Value.content?, Value.kind, Call.tracksSize,
          Call.base, hmax]
    | list word items =>
      simp only [Call.buffers, Call.result, readings_sizeBuffers]
      by_cases hmax : 0 ≤ max
      · simp [Value.content?, Value.size?, Value.kind, Call.tracksSize, Call.base, hmax]
      · simp [Value.content?, Value.kind, Call.tracksSize, hmax]
    | _ => rfl

/-- The buffers that a lawful call tracked can all be read, as `m.readings`. -/
theorem Made.readAnswer_tracked {m : Made} {replays : Replays} {bound : Int64}
    (h : m.Lawful replays bound) : m.tracked.map readAnswer = m.readings.map .ok := by
  rw [Lawful] at h
  cases haccept : m.call.accept with
  | error error =>
    simp only [haccept] at h
    obtain ⟨houtcome, hevents⟩ := h
    rw [tracked, hevents, readings, value?, size?, houtcome]
    rfl
  | ok _ =>
    simp only [haccept] at h
    obtain ⟨houtcome, hevents⟩ := h
    rw [tracked, hevents, tracked_flatMap_events,
      ← Call.readings_buffers haccept houtcome bound, List.map_map, List.map_map]
    apply List.map_congr_left
    intro b hb
    exact Buffer.readAnswer_answer (Call.encode_of_mem_buffers haccept hb)

/-! ## The last call under a name -/

/-- What the last call of `made` under the name `base` gave, of those for which `part` is some
value. -/
def lastUnder (made : List Made) (base : String) (part : Made → Option BufferValue) :
    Option BufferValue :=
  made.reverse.findSome? fun m => if m.call.base = base then part m else none

/-- In `lastUnder (m :: made) base part` the call `m` counts if none of `made` does. -/
theorem lastUnder_cons (m : Made) (made : List Made) (base : String)
    (part : Made → Option BufferValue) :
    lastUnder (m :: made) base part
      = (lastUnder made base part).or (if m.call.base = base then part m else none) := by
  rw [lastUnder, List.reverse_cons, List.findSome?_append, List.findSome?_singleton]
  rfl

namespace Made

/-- The part `field` of the object that the call `m` left in a buffer: `m.value?` or `m.size?`. -/
def part? (m : Made) (field : String) : Option BufferValue :=
  if field = BufferName.valueQualifier then m.value?
  else if field = BufferName.sizeQualifier then m.size?
  else none

/-- `lastReading m.readings base field` is `m.part? field` for the base of the call, and `none` for
others. -/
theorem lastReading_readings (m : Made) (base field : String) :
    lastReading m.readings base field = if m.call.base = base then m.part? field else none := by
  rw [readings, part?]
  by_cases hbase : m.call.base = base
  · by_cases hvalue : field = BufferName.valueQualifier
    · subst hvalue
      cases m.value? <;> cases m.size? <;>
        simp [lastReading, hbase, BufferName.valueQualifier, BufferName.sizeQualifier]
    · by_cases hsize : field = BufferName.sizeQualifier
      · subst hsize
        cases m.value? <;> cases m.size? <;>
          simp [lastReading, hbase, BufferName.valueQualifier, BufferName.sizeQualifier]
      · cases m.value? <;> cases m.size? <;>
          simp [lastReading, hvalue, hsize, Ne.symm hvalue, Ne.symm hsize]
  · cases m.value? <;> cases m.size? <;> simp [lastReading, hbase]

/-- All of `m.readings` are of the object `m.call.base`. -/
theorem key_of_mem_readings {m : Made} {x : Reading} (h : x ∈ m.readings) :
    x.key = m.call.base := by
  rw [readings, List.mem_append] at h
  rcases h with h | h
  · cases hvalue : m.value? <;> simp_all
  · cases hsize : m.size? <;> simp_all

end Made

/-- The last reading of a part in a run is that of `lastUnder`: of the last call under the name that
left it. -/
theorem lastReading_flatMap (made : List Made) (base field : String) :
    lastReading (made.flatMap Made.readings) base field
      = lastUnder made base fun m => m.part? field := by
  induction made with
  | nil => rfl
  | cons m made ih =>
    -- the first call counts on both sides only if none of the others does
    rw [List.flatMap_cons, lastReading_append, lastUnder_cons, ih, m.lastReading_readings]

/-- If the buffers of all `made` can be read, their readings have the keys `m.call.base` of those
with `m.tracked ≠ []`. -/
theorem exists_key_iff {made : List Made} {base : String}
    (h : ∀ m ∈ made, m.tracked.map readAnswer = m.readings.map .ok) :
    (∃ x ∈ made.flatMap Made.readings, x.key = base)
      ↔ ∃ m ∈ made, m.call.base = base ∧ m.tracked ≠ [] := by
  -- a call has a reading for every buffer that it tracked
  have hempty (m : Made) (hm : m ∈ made) : m.tracked = [] ↔ m.readings = [] := by
    rw [← List.map_eq_nil_iff, h m hm, List.map_eq_nil_iff]
  constructor
  · rintro ⟨x, hx, rfl⟩
    obtain ⟨m, hm, hx⟩ := List.mem_flatMap.1 hx
    refine ⟨m, hm, (Made.key_of_mem_readings hx).symm, ?_⟩
    intro hnil
    rw [(hempty m hm).1 hnil] at hx
    cases hx
  · rintro ⟨m, hm, rfl, htracked⟩
    obtain ⟨x, hx⟩ := List.exists_mem_of_ne_nil _ fun hnil => htracked ((hempty m hm).2 hnil)
    exact ⟨x, List.mem_flatMap.2 ⟨m, hm, hx⟩, Made.key_of_mem_readings hx⟩

/-! ## Agreement -/

/-- **The tracked buffers of a run read back.** After `p.run s` over a fresh log,
`Assignments.write .empty r'.tracked` is `.ok r'.tracked.length` with a tree whose keys are the base
names under which a buffer was tracked. The value of an object in `tree` is the content that the
last call under its name gave, its size is the size word that the last call under its name gave, and
there are no other parts. -/
theorem Program.write_tracked (p : Program) {s : Session} {r : Recorder}
    (hengine : s.engine = .recording r) (hactive : r.active = true) (hlog : r.log = []) :
    ∃ r' tree, (p.run s).2.engine = .recording r' ∧
      Assignments.write .empty r'.tracked = (.ok r'.tracked.length, tree) ∧
      (∀ base, base ∈ tree.keys ↔ ∃ m ∈ (p.run s).1, m.call.base = base ∧ m.tracked ≠ []) ∧
      (∀ base, tree.value? base BufferName.valueQualifier
        = lastUnder (p.run s).1 base Made.value?) ∧
      (∀ base, tree.value? base BufferName.sizeQualifier
        = lastUnder (p.run s).1 base Made.size?) ∧
      ∀ base field, field ≠ BufferName.valueQualifier → field ≠ BufferName.sizeQualifier →
        tree.value? base field = none := by
  have hadds := p.adds_run hengine hactive
  obtain ⟨r', hengine', htracked⟩ := hadds.exists_recorder hlog
  -- the calls tell what they tracked, and every buffer of a call can be read
  have hread (m : Made) (hm : m ∈ (p.run s).1) : m.tracked.map readAnswer = m.readings.map .ok :=
    Made.readAnswer_tracked (hadds.lawful m hm)
  have hanswers : r'.tracked.map readAnswer
      = ((p.run s).1.flatMap Made.readings).map .ok := by
    rw [htracked, List.map_flatMap, List.map_flatMap]
    exact List.flatMap_congr hread
  -- the last reading of a field is the last one in the last call that has any
  have hvalue (base field : String) :
      (Assignments.assignAll .empty ((p.run s).1.flatMap Made.readings)).value? base field
        = lastUnder (p.run s).1 base fun m => m.part? field := by
    rw [Assignments.value?_assignAll, lastReading_flatMap]
    exact Option.or_none
  refine ⟨r', _, hengine', Assignments.write_of_readAnswer _ hanswers, ?_,
    fun base => hvalue base _, fun base => hvalue base _, ?_⟩
  · intro base
    rw [Assignments.mem_keys_assignAll, exists_key_iff hread]
    simp [OrderedMap.keys, OrderedMap.empty]
  · -- no call leaves another part
    intro base field hfield hfield'
    rw [hvalue, lastUnder, List.findSome?_eq_none_iff]
    simp [Made.part?, hfield, hfield']

/-- An integer marked in a region, a string that is replayed and an integer out of its range: the
assignments hold what the two accepted calls gave. -/
theorem Program.write_tracked_greeting :
    ∃ r' tree,
      (Program.run (.region (.call (.int 5 "n" 10 0) .done)
        (.call (.sequence .unlimited (.ofBytes [104, 105]) "s" 8 0)
          (.call (.int 50 "n" 10 0) .done)))
        ⟨.recording { replays := [("s.s#value", [98, 121])] }, 1000, false⟩).2.engine
          = .recording r' ∧
      Assignments.write .empty r'.tracked = (.ok r'.tracked.length, tree) ∧
      tree.value? "n" "value" = some (.integer 5) ∧
      tree.value? "s" "value" = some (.byteString [98, 121]) ∧
      tree.value? "s" "size" = some (.sizeWord 2) := by
  obtain ⟨r', tree, hengine, hwrite, -, hvalue, hsize, -⟩ :=
    Program.write_tracked (.region (.call (.int 5 "n" 10 0) .done)
        (.call (.sequence .unlimited (.ofBytes [104, 105]) "s" 8 0)
          (.call (.int 50 "n" 10 0) .done)))
      (s := ⟨.recording { replays := [("s.s#value", [98, 121])] }, 1000, false⟩) rfl rfl rfl
  refine ⟨r', tree, hengine, hwrite, (hvalue "n").trans ?_, (hvalue "s").trans ?_,
    (hsize "s").trans ?_⟩
  · decide +kernel
  · decide +kernel
  · decide +kernel

end Concolic

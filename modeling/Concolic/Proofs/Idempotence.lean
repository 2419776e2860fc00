import Concolic.Proofs.Scripts

/-! # Marking once more

A marking may change its value: the engine gives back other contents where it has replays of the
right lengths, and a string gets its size word anew. Marking the value that came out does nothing
more. Each buffer is then tracked with the content that the first marking read back, and that reads
back as itself (`Recorder.replayed_replayed`), so the second marking gives the same value and holds
the same buffers (`Call.result_again`). -/

namespace Concolic

/-- `replayed replays name` is idempotent: a replay of the length of its own bytes is taken again,
and any other is ignored once more. -/
theorem Recorder.replayed_replayed (replays : Replays) (name : String) (bytes : List UInt8) :
    replayed replays name (replayed replays name bytes) = replayed replays name bytes := by
  unfold replayed
  cases replays.lookup name with
  | none => rfl
  | some replay =>
    by_cases hlength : replay.length = bytes.length
    · simp only [if_pos hlength, if_true]
    · simp only [if_neg hlength]

namespace Marking

variable (replays : Replays) (base : String)

/-- `intRead replays base` is idempotent. -/
theorem intRead_intRead (n : Int32) :
    intRead replays base (intRead replays base n) = intRead replays base n := by
  have hbytes := ofInt32_intRead replays base n
  unfold intRead at hbytes ⊢
  rw [hbytes, Recorder.replayed_replayed]

/-- `bytesRead replays base` is idempotent. -/
theorem bytesRead_bytesRead (bytes : List UInt8) :
    bytesRead replays base (bytesRead replays base bytes) = bytesRead replays base bytes :=
  Recorder.replayed_replayed replays _ bytes

/-- `unitsRead replays base` is idempotent. -/
theorem unitsRead_unitsRead (units : List UInt32) :
    unitsRead replays base (unitsRead replays base units) = unitsRead replays base units := by
  have hbytes := ofUnits_unitsRead replays base units
  unfold unitsRead at hbytes ⊢
  rw [hbytes, Recorder.replayed_replayed]

/-- `sizeRead replays base` is idempotent. -/
theorem sizeRead_sizeRead (word : Int64) :
    sizeRead replays base (sizeRead replays base word) = sizeRead replays base word := by
  have hbytes := ofInt64_sizeRead replays base word
  unfold sizeRead at hbytes ⊢
  rw [hbytes, Recorder.replayed_replayed]

/-- `sizeAfter replays base policy` is idempotent. -/
theorem sizeAfter_sizeAfter (policy : SizePolicy) (word : Int64) :
    sizeAfter replays base policy (sizeAfter replays base policy word)
      = sizeAfter replays base policy word := by
  unfold sizeAfter
  by_cases htracked : policy.tracked = true
  · simp only [if_pos htracked, sizeRead_sizeRead]
  · simp only [if_neg htracked]

end Marking

/-! ## Calls made again -/

namespace Call

open Marking

/-- The same call for the value `v`, with the memory that there is by then. -/
def again (memory : Allocator) : Call → Value → Call
  | int _ base max min, .int n => int n base max min
  | int n base max min, _ => int n base max min
  | sequence _ _ base max min, v => sequence memory v base max min

/-- `c.again memory v` has the buffers of `c` for the same result. -/
theorem buffers_again (memory : Allocator) (c : Call) (v : Value) (bound : Int64)
    (result : Value) : (c.again memory v).buffers bound result = c.buffers bound result := by
  cases c with
  | int n base max min => cases v <;> cases result <;> rfl
  | sequence _ _ base max min => cases result <;> rfl

/-- `c.again memory (c.result replays)` gives `c.result replays`. -/
theorem result_again (replays : Replays) (memory : Allocator) (c : Call) :
    (c.again memory (c.result replays)).result replays = c.result replays := by
  cases c with
  | int n base max min => simp only [result, again, intRead_intRead]
  | sequence _ v base max min =>
    cases v with
    | str word bytes =>
      -- the size is counted anew, from a content that stays
      simp only [result, again, bytesRead_bytesRead]
    | unicode word units => simp only [result, again, unitsRead_unitsRead]
    | list word items => simp only [result, again, sizeAfter_sizeAfter]
    | dict word entries => simp only [result, again, sizeRead_sizeRead]
    | tuple word items => simp only [result, again, sizeRead_sizeRead]
    | _ => rfl

/-- If `c` gives `v` and then `c.again memory v` gives `v'`, then `v' = v`, and both add the same
events and warnings. -/
theorem perform_again {c : Call} {memory : Allocator} {s s' s'' : Session} {v v' : Value}
    (h : c.perform s = (.ok v, s')) (h' : (c.again memory v).perform s' = (.ok v', s'')) :
    v' = v ∧ ∃ events warnings,
      (s'.engine.log = s.engine.log ++ events ∧ s''.engine.log = s'.engine.log ++ events) ∧
      s'.engine.warnings = s.engine.warnings ++ warnings ∧
        s''.engine.warnings = s'.engine.warnings ++ warnings := by
  obtain ⟨r, hengine, -, -, rfl, rfl⟩ := perform_eq_ok h
  obtain ⟨r', hengine', -, -, rfl, rfl⟩ := perform_eq_ok h'
  -- the recorder of the second call has the replays of the first
  cases hengine'
  let buffers := c.buffers s.bound (c.result r.replays)
  have hresult : (c.again memory (c.result r.replays)).result (r.hold buffers).replays
      = c.result r.replays := result_again r.replays memory c
  have hbuffers : (c.again memory (c.result r.replays)).buffers s.bound (c.result r.replays)
      = buffers := buffers_again memory c _ s.bound _
  refine ⟨hresult, buffers.flatMap Buffer.events,
    buffers.flatMap (Buffer.warnings r.replays), ⟨?_, ?_⟩, ?_, ?_⟩
  · rw [hengine]
    rfl
  · rw [hresult, hbuffers]
    rfl
  · rw [hengine]
    rfl
  · rw [hresult, hbuffers]
    rfl

end Call

/-! ## Markings made again -/

namespace Script

/-- **Marking is idempotent.** If a marking of a slot succeeds and succeeds once more right after,
with whatever memory, the second one leaves the value `v` that the first one put into the slot and
adds the events and warnings that the first one added. If `markInt` succeeds for `n` with `m` and
then for `m` with `m'`, then `m' = m`, and it adds the same. -/
theorem mark_idempotent :
    (∀ (s s' s'' : State) (memory memory' : Allocator) (slot name : String) (max min : Int64)
      (v v' : Value),
      perform s (.markSequence memory slot name max min) = (.marked v, s') →
      perform s' (.markSequence memory' slot name max min) = (.marked v', s'') →
      s'.get? slot = some v ∧ s''.get? slot = some v ∧ v' = v ∧ ∃ events warnings,
        (s'.session.engine.log = s.session.engine.log ++ events ∧
          s''.session.engine.log = s'.session.engine.log ++ events) ∧
        s'.session.engine.warnings = s.session.engine.warnings ++ warnings ∧
          s''.session.engine.warnings = s'.session.engine.warnings ++ warnings) ∧
    (∀ (s s' s'' : Session) (n m m' : Int32) (name : String) (max min : Int32),
      s.markInt n name max min = (.ok m, s') → s'.markInt m name max min = (.ok m', s'') →
      m' = m ∧ ∃ events warnings,
        (s'.engine.log = s.engine.log ++ events ∧ s''.engine.log = s'.engine.log ++ events) ∧
        s'.engine.warnings = s.engine.warnings ++ warnings ∧
          s''.engine.warnings = s'.engine.warnings ++ warnings) := by
  constructor
  · intro s s' s'' memory memory' slot name max min v v' h h'
    obtain ⟨v₀, session, -, hmark, rfl⟩ := perform_eq_marked h
    obtain ⟨v₁, session', hslot, hmark', rfl⟩ := perform_eq_marked h'
    -- the second marking is given what the first one put into the slot
    have hput : ({ s with session := session }.set slot v).get? slot = some v :=
      State.get?_set_self _ slot v
    obtain rfl : v = v₁ := Option.some.inj (hput.symm.trans hslot)
    obtain ⟨hsame, hadded⟩ := Call.perform_again (Call.perform_of_markSequence hmark)
      (Call.perform_of_markSequence hmark')
    refine ⟨hput, ?_, hsame, hadded⟩
    rw [← hsame]
    exact State.get?_set_self _ slot v'
  · intro s s' s'' n m m' name max min h h'
    have hcall : (Call.int n name max min).perform s = (.ok (.int m), s') := by
      rw [Call.perform, h]
      rfl
    have hcall' : ((Call.int n name max min).again .unlimited (.int m)).perform s'
        = (.ok (.int m'), s'') := by
      rw [Call.again, Call.perform, h']
      rfl
    obtain ⟨hsame, hadded⟩ := Call.perform_again hcall hcall'
    exact ⟨Value.int.inj hsame, hadded⟩

/-- A string whose size word tells of more than its two elements, with replays for both of its
buffers, and an integer with a replay: what the first markings change, the second ones keep. -/
theorem mark_idempotent_replayed :
    let replays : Replays := [("s.s#value", [120, 121]), ("s.l#size", [3, 0, 0, 0, 0, 0, 0, 0]),
      ("n.i#value", [7, 0, 0, 0])]
    let s : State := State.set
      ⟨⟨.recording { replays := replays }, 1000, false⟩, fun _ => none, 0, 0⟩ "t"
      (.str 7 [104, 105])
    let s' := (perform s (.markSequence .unlimited "t" "s" 9 1)).2
    let s'' := (perform s' (.markSequence .unlimited "t" "s" 9 1)).2
    let t := (s.session.markInt 5 "n" 10 0).2
    (s'.get? "t" = some (.str 3 [120, 121]) ∧ s''.get? "t" = some (.str 3 [120, 121]) ∧
      s''.session.engine.log = s'.session.engine.log ++ s'.session.engine.log) ∧
    (t.markInt 7 "n" 10 0).1 = .ok 7 ∧
      (t.markInt 7 "n" 10 0).2.engine.log = t.engine.log ++ t.engine.log := by
  intro replays s s' s'' t
  have hmark : perform s (.markSequence .unlimited "t" "s" 9 1)
      = (.marked (.str 3 [120, 121]), s') := rfl
  have hmark' : perform s' (.markSequence .unlimited "t" "s" 9 1)
      = (.marked (.str 3 [120, 121]), s'') := rfl
  have hint : s.session.markInt 5 "n" 10 0 = (.ok 7, t) := rfl
  have hint' : t.markInt 7 "n" 10 0 = (.ok 7, (t.markInt 7 "n" 10 0).2) := rfl
  obtain ⟨hslot, hslot', -, events, -, ⟨hfirst, hsecond⟩, -⟩ :=
    mark_idempotent.1 s s' s'' .unlimited .unlimited "t" "s" 9 1 _ _ hmark hmark'
  obtain ⟨-, events', -, ⟨hfirst', hsecond'⟩, -⟩ :=
    mark_idempotent.2 s.session t _ 5 7 7 "n" 10 0 hint hint'
  -- the log was empty, so that the first block is all of it
  have hblock : s'.session.engine.log = events := hfirst
  have hblock' : t.engine.log = events' := hfirst'
  refine ⟨⟨hslot, hslot', ?_⟩, rfl, ?_⟩
  · rw [hsecond, hblock]
  · rw [hsecond', hblock']

end Script
end Concolic

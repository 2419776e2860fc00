import Concolic.Proofs.Runs
import Concolic.Session.Script

/-! # Steps of scripts

What one step of a script does. A step that leaves the engine to the session does with the session
what the call of the step does, of the value that its slot holds by then (`Script.session_perform`).
What the slots hold after any step is what they held before or what the step puts there
(`Script.puts_or_held`). -/

namespace Concolic

/-! ## Slots -/

namespace Script

/-- `(s.set slot v).get? slot = some v`. -/
theorem State.get?_set_self (s : State) (slot : String) (v : Value) :
    (s.set slot v).get? slot = some v := if_pos rfl

/-- `s.set slot v = s` if `s.get? slot = some v`. -/
theorem State.set_of_get? {s : State} {slot : String} {v : Value} (h : s.get? slot = some v) :
    s.set slot v = s := by
  have hslots : (fun other => if other = slot then some v else s.slots other) = s.slots := by
    funext other
    split
    · rename_i hother
      rw [hother]
      exact h.symm
    · rfl
  unfold State.set
  rw [hslots]

/-- If `(s.set slot v).get? slot' = some v'`, then `v' = v` or `s.get? slot' = some v'`. -/
theorem State.eq_or_get?_of_set {s : State} {slot slot' : String} {v v' : Value}
    (h : (s.set slot v).get? slot' = some v') : v' = v ∨ s.get? slot' = some v' := by
  simp only [get?, set] at h
  split at h
  · exact .inl (Option.some.inj h).symm
  · exact .inr h

/-- A step from `s` puts a value into a slot: one that it is given, one that a marking gives, or a
list or a table that it changes. -/
inductive Puts (s : State) : Step → Value → Prop where
  /-- A value is bound. -/
  | bind (slot : String) (value : Value) : Puts s (.bind slot value) value
  /-- A sequence is marked. -/
  | marked {memory : Allocator} {slot name : String} {max min : Int64} {v v' : Value}
      {session : Session} (hslot : s.get? slot = some v)
      (hmark : s.session.markSequence memory v name max min = (.ok (), v', session)) :
      Puts s (.markSequence memory slot name max min) v'
  /-- An item is appended to a list. -/
  | push {slot : String} {size : Int64} {items : List Value} (item : Value)
      (hslot : s.get? slot = some (.list size items)) : Puts s (.push slot item) (.push items item)
  /-- A key is set in a table. -/
  | insert {slot : String} {d : Dict} (key value : Value) (hslot : s.get? slot = some d.value) :
      Puts s (.insert slot key value) (d.insert key value).2.value

/-- If `slot` holds `v` after a step, then `Puts s step v` or some slot held `v` before. -/
theorem puts_or_held {s : State} {step : Step} {slot : String} {v : Value}
    (h : (perform s step).2.get? slot = some v) :
    Puts s step v ∨ ∃ slot', s.get? slot' = some v := by
  cases step with
  | bind slot' value =>
    rcases State.eq_or_get?_of_set h with rfl | hheld
    · exact .inl (.bind slot' v)
    · exact .inr ⟨slot, hheld⟩
  | copy source slot' =>
    rw [perform] at h
    cases hsource : s.get? source with
    | none =>
      rw [hsource] at h
      exact .inr ⟨slot, h⟩
    | some w =>
      rw [hsource] at h
      rcases State.eq_or_get?_of_set h with rfl | hheld
      · exact .inr ⟨source, hsource⟩
      · exact .inr ⟨slot, hheld⟩
  | markSequence memory slot' name max min =>
    rw [perform] at h
    cases hslot : s.get? slot' with
    | none =>
      rw [hslot] at h
      exact .inr ⟨slot, h⟩
    | some w =>
      simp only [hslot] at h
      split at h
      · rename_i w' session hmark
        rcases State.eq_or_get?_of_set h with rfl | hheld
        · exact .inl (.marked hslot hmark)
        · exact .inr ⟨slot, hheld⟩
      · -- a refused sequence goes back into its slot
        rename_i error w' session hmark
        have hleft := (Call.eq_of_markSequence_error hmark).1
        rcases State.eq_or_get?_of_set h with rfl | hheld
        · exact .inr ⟨slot', by rw [hslot, hleft]⟩
        · exact .inr ⟨slot, hheld⟩
  | push slot' item =>
    rw [perform] at h
    split at h
    · rename_i size items hslot
      rcases State.eq_or_get?_of_set h with rfl | hheld
      · exact .inl (.push item hslot)
      · exact .inr ⟨slot, hheld⟩
    · exact .inr ⟨slot, h⟩
  | insert slot' key value =>
    rw [perform] at h
    split at h
    · rename_i used entries hslot
      rcases State.eq_or_get?_of_set h with rfl | hheld
      · exact .inl (.insert (d := ⟨used, entries⟩) key value hslot)
      · exact .inr ⟨slot, hheld⟩
    · exact .inr ⟨slot, h⟩
  | _ =>
    -- the other steps set no slot
    refine .inr ⟨slot, ?_⟩
    rw [perform] at h
    repeat' split at h
    all_goals exact h

/-! ## Scripts -/

mutual

/-- Whether a step leaves the engine and its log to the session. -/
def Step.leavesEngine : Step → Bool
  | .assumeRange _ _ _ => false
  | .track _ _ => false
  | .takeEvents => false
  | .atomic body _ _ _ => leaveEngine body
  | _ => true

/-- Whether steps leave the engine and its log to the session. -/
def leaveEngine : List Step → Bool
  | [] => true
  | step :: steps => step.leavesEngine && leaveEngine steps

end

/-- The call that a step makes in `s`. -/
def Step.call? (s : State) : Step → Option Call
  | .markInt n name max min => some (.int n name max min)
  | .markSequence memory slot name max min =>
    (s.get? slot).map fun v => .sequence memory v name max min
  | _ => none

/-- A step with `leavesEngine` does with the session what `step.call? s` does. -/
theorem session_perform {s : State} {step : Step} (h : step.leavesEngine = true) :
    (perform s step).2.session
      = match step.call? s with
        | none => s.session
        | some c => (c.perform s.session).2 := by
  cases step with
  | markInt n name max min =>
    simp only [perform, Step.call?, Call.perform]
    cases s.session.markInt n name max min with
    | mk outcome session => cases outcome <;> rfl
  | markSequence memory slot name max min =>
    simp only [perform, Step.call?]
    cases hslot : s.get? slot with
    | none => rfl
    | some v =>
      simp only [Option.map_some, Call.perform]
      obtain ⟨outcome, v', session⟩ := s.session.markSequence memory v name max min
      cases outcome <;> rfl
  | _ =>
    -- the other steps make no call, or they are not allowed
    first
    | cases h; done
    | rw [perform]
      repeat' split
      all_goals first
        | rfl
        | contradiction

/-- If `perform s (.markSequence memory slot name max min)` gives `.marked v'`, it is `markSequence`
of what `slot` holds, and puts `v'` there. -/
theorem perform_eq_marked {s s' : State} {memory : Allocator} {slot name : String}
    {max min : Int64} {v' : Value}
    (h : perform s (.markSequence memory slot name max min) = (.marked v', s')) :
    ∃ v session, s.get? slot = some v ∧
      s.session.markSequence memory v name max min = (.ok (), v', session) ∧
      s' = ({ s with session := session }).set slot v' := by
  rw [perform] at h
  cases hslot : s.get? slot with
  | none =>
    rw [hslot] at h
    cases h
  | some v =>
    simp only [hslot] at h
    -- a marking that fails has another outcome
    split at h
    · rename_i result session hmark
      obtain ⟨houtcome, hstate⟩ := Prod.mk.inj h
      obtain rfl : result = v' := Outcome.marked.inj houtcome
      exact ⟨v, session, rfl, hmark, hstate.symm⟩
    · cases h

/-- `run s step` of a step without steps inside is `perform s step`, answered. -/
theorem run_eq_perform (s : State) {step : Step}
    (h : ∀ body stopsOnError aborts catches, step ≠ .atomic body stopsOnError aborts catches) :
    run s step
      = (some ((perform s step).2.answer (perform s step).1).1,
        ((perform s step).2.answer (perform s step).1).2) := by
  rw [run]
  exact h

end Script
end Concolic

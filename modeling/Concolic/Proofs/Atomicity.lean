import Concolic.Proofs.Scripts

/-! # Failed markings leave no trace

A marking that fails leaves the value and the session as they were, whatever it was asked to mark
and whatever stands against it: the recorder with its log and its warnings, the bound and the atomic
region. In a script the slots stay as they were too. Over an engine that is not active every marking
fails, so that scripts of nothing but markings change nothing
(`Script.runAll_marks_of_inactive`). -/

namespace Concolic

/-- If `s.markInt n name max min = (.error error, s')`, then `s' = s`. -/
theorem Session.eq_of_markInt_error {s s' : Session} {n : Int32} {name : String} {max min : Int32}
    {error : MarkError} (h : s.markInt n name max min = (.error error, s')) : s' = s := by
  have hperform : (Call.int n name max min).perform s = (.error error, s') := by
    rw [Call.perform, h]
    rfl
  have hsession := Call.session_of_error (congrArg Prod.fst hperform)
  rwa [hperform] at hsession

namespace Script

/-- Whether a step is a marking. -/
def Step.isMark : Step → Bool
  | .markInt _ _ _ _ => true
  | .markSequence _ _ _ _ _ => true
  | _ => false

/-- A step with `isMark` is no `.atomic` step. -/
theorem Step.ne_atomic_of_isMark {step : Step} (h : step.isMark = true) (body : List Step)
    (stopsOnError aborts catches : Bool) : step ≠ .atomic body stopsOnError aborts catches := by
  rintro rfl
  cases h

/-- If `perform s step = (.failed error value, s')`, then `step` is a marking, `s' = s`, and `value`
is what its slot holds in `s`. -/
theorem perform_failed {s s' : State} {step : Step} {error : MarkError} {value : Option Value}
    (h : perform s step = (.failed error value, s')) :
    step.isMark = true ∧ s' = s ∧ ∀ memory slot name max min,
      step = .markSequence memory slot name max min → value = s.get? slot := by
  cases step with
  | markInt n name max min =>
    rw [perform] at h
    split at h
    · cases h
    · rename_i error' session hmark
      rw [Session.eq_of_markInt_error hmark] at h
      cases h
      exact ⟨rfl, rfl, fun _ _ _ _ _ hstep => by cases hstep⟩
  | markSequence memory slot name max min =>
    rw [perform] at h
    cases hslot : s.get? slot with
    | none =>
      rw [hslot] at h
      cases h
    | some v =>
      simp only [hslot] at h
      split at h
      · cases h
      · -- what the marking gives back is put into the slot, and it is what the slot held
        rename_i error' v' session hmark
        obtain ⟨hleft, hsession⟩ := Call.eq_of_markSequence_error hmark
        rw [hleft, hsession] at h
        obtain ⟨houtcome, hstate⟩ := Prod.mk.inj h
        cases houtcome
        refine ⟨rfl, ?_, ?_⟩
        · rw [← hstate]
          exact State.set_of_get? hslot
        · intro memory' slot' name' max' min' hstep
          cases hstep
          exact hslot.symm
  | _ =>
    -- the other steps have other outcomes
    simp only [perform] at h
    repeat' split at h
    all_goals cases h

/-- Over an engine that is not active a marking keeps the state, and answers `.noSuchSlot` or
`.failed .engineInactive value`. -/
theorem perform_mark_of_inactive {s : State} (hactive : s.session.engine.active = false)
    {step : Step} (hmark : step.isMark = true) :
    ∃ outcome, perform s step = (outcome, s) ∧
      (outcome = .noSuchSlot ∨ ∃ value, outcome = .failed .engineInactive value) := by
  cases step with
  | markInt n name max min =>
    refine ⟨.failed .engineInactive none, ?_, .inr ⟨none, rfl⟩⟩
    simp only [perform, Session.markInt, Call.marking_of_inactive hactive]
  | markSequence memory slot name max min =>
    rw [perform]
    cases hslot : s.get? slot with
    | none => exact ⟨.noSuchSlot, rfl, .inl rfl⟩
    | some v =>
      refine ⟨.failed .engineInactive (some v), ?_, .inr ⟨some v, rfl⟩⟩
      simp only [Call.markSequence_of_inactive hactive]
      rw [State.set_of_get? hslot]
  | _ => cases hmark

/-- Over an engine that is not active a run of markings keeps the session and the slots, and every
answer is `.noSuchSlot` or `.failed .engineInactive value`. -/
theorem runAll_marks_of_inactive {s : State} (hactive : s.session.engine.active = false)
    (stopsOnError : Bool) {steps : List Step} (hmarks : ∀ step ∈ steps, step.isMark = true) :
    ∃ answers toldEvents toldWarnings,
      runAll s stopsOnError steps
        = (answers, false, { s with toldEvents := toldEvents, toldWarnings := toldWarnings }) ∧
      ∀ answer ∈ answers, answer.outcome = .noSuchSlot ∨
        ∃ value, answer.outcome = .failed .engineInactive value := by
  induction steps generalizing s with
  | nil => exact ⟨[], s.toldEvents, s.toldWarnings, by rw [runAll], by simp⟩
  | cons step steps ih =>
    obtain ⟨outcome, hperform, houtcome⟩ :=
      perform_mark_of_inactive hactive (hmarks step List.mem_cons_self)
    have hrun := run_eq_perform s (Step.ne_atomic_of_isMark (hmarks step List.mem_cons_self))
    rw [hperform] at hrun
    -- the answer only moves on what was told; the session and the slots stay as they were
    let s₁ := (s.answer outcome).2
    obtain ⟨answers, toldEvents, toldWarnings, hrest, hanswers⟩ :=
      ih (s := s₁) hactive fun step' hstep => hmarks step' (List.mem_cons_of_mem _ hstep)
    have hfirst : (s.answer outcome).1.outcome = outcome := rfl
    rw [runAll, hrun]
    simp only [hfirst]
    by_cases hstops : (stopsOnError && outcome.isFailure) = true
    · rw [if_pos hstops]
      refine ⟨[(s.answer outcome).1], s₁.toldEvents, s₁.toldWarnings, rfl, ?_⟩
      intro answer hanswer
      rw [List.mem_singleton.1 hanswer]
      exact houtcome
    · rw [if_neg hstops, hrest]
      refine ⟨(s.answer outcome).1 :: answers, toldEvents, toldWarnings, rfl, ?_⟩
      intro answer hanswer
      rcases List.mem_cons.1 hanswer with rfl | hanswer
      · exact houtcome
      · exact hanswers answer hanswer

/-! ## Atomicity -/

/-- **Markings are atomic.** From `s.markInt n name max min = (.error error, s')` it follows that
`s' = s`, from `s.markSequence memory v name max min = (.error error, v', s')` that `v' = v` and
`s' = s`, and a step of a script that fails leaves the whole state and tells the value that its slot
had. Over an engine that is not active every marking fails with `.engineInactive`, and any run of
markings leaves the session and the slots. -/
theorem mark_atomic (s : State) :
    (∀ n name max min error s', s.session.markInt n name max min = (.error error, s') →
      s' = s.session) ∧
    (∀ memory v name max min error v' s',
      s.session.markSequence memory v name max min = (.error error, v', s') →
      v' = v ∧ s' = s.session) ∧
    (∀ (step : Step) (error : MarkError) (value : Option Value) (s' : State),
      perform s step = (.failed error value, s') →
      s' = s ∧ ∀ memory slot name max min, step = .markSequence memory slot name max min →
        value = s.get? slot) ∧
    (s.session.engine.active = false →
      (∀ n name max min,
        s.session.markInt n name max min = (.error .engineInactive, s.session)) ∧
      (∀ memory v name max min,
        s.session.markSequence memory v name max min = (.error .engineInactive, v, s.session)) ∧
      ∀ (steps : List Step) (stopsOnError : Bool), (∀ step ∈ steps, step.isMark = true) →
        ∃ answers toldEvents toldWarnings,
          runAll s stopsOnError steps
            = (answers, false, { s with toldEvents := toldEvents, toldWarnings := toldWarnings }) ∧
          ∀ answer ∈ answers, answer.outcome = .noSuchSlot ∨
            ∃ value, answer.outcome = .failed .engineInactive value) := by
  refine ⟨?_, ?_, ?_, ?_⟩
  · intro n name max min error s' hmark
    exact Session.eq_of_markInt_error hmark
  · intro memory v name max min error v' s' hmark
    exact Call.eq_of_markSequence_error hmark
  · intro step error value s' hperform
    exact (perform_failed hperform).2
  · intro hactive
    refine ⟨?_, ?_, ?_⟩
    · intro n name max min
      rw [Session.markInt, Call.marking_of_inactive hactive]
    · intro memory v name max min
      exact Call.markSequence_of_inactive hactive memory v name max min
    · intro steps stopsOnError hmarks
      exact runAll_marks_of_inactive hactive stopsOnError hmarks

/-- A string that is too long for its maximum fails and keeps the state, and so does one that there
is no memory for. Markings of an integer and of that string over an inactive recorder keep it
too. -/
theorem mark_atomic_greeting :
    let full : Allocator := fun _ => false
    let s : State := State.set ⟨⟨.recording {}, 1000, false⟩, fun _ => none, 0, 0⟩ "t"
      (.ofBytes [104, 105])
    let t : State := State.set
      ⟨⟨.recording { active := false }, 1000, false⟩, fun _ => none, 0, 0⟩ "t" (.ofBytes [104, 105])
    (s.session.markSequence .unlimited (.ofBytes [104, 105]) "s" 1 0).1
        = .error (.rangeViolation .size 2 0 (some 1)) ∧
    (s.session.markSequence .unlimited (.ofBytes [104, 105]) "s" 1 0).2
        = (.ofBytes [104, 105], s.session) ∧
    (∃ s', perform s (.markSequence full "t" "s" 0 0)
        = (.failed (.outOfMemory 2) (some (.ofBytes [104, 105])), s') ∧ s' = s) ∧
    ∃ answers toldEvents toldWarnings,
      runAll t false [.markInt 5 "n" 10 0, .markSequence .unlimited "t" "s" 8 0]
        = (answers, false, { t with toldEvents := toldEvents, toldWarnings := toldWarnings }) := by
  intro full s t
  obtain ⟨-, hsequence, hstep, -⟩ := mark_atomic s
  -- what is left behind is not looked up: the theorem says it
  have hlong : s.session.markSequence .unlimited (.ofBytes [104, 105]) "s" 1 0
      = (.error (.rangeViolation .size 2 0 (some 1)), _, _) := rfl
  have hmemory : perform s (.markSequence full "t" "s" 0 0)
      = (.failed (.outOfMemory 2) (some (.ofBytes [104, 105])), _) := rfl
  obtain ⟨hvalue, hsession⟩ := hsequence _ _ _ _ _ _ _ _ hlong
  obtain ⟨-, -, -, hinactive⟩ := mark_atomic t
  obtain ⟨answers, toldEvents, toldWarnings, hrun, -⟩ := (hinactive rfl).2.2
    [.markInt 5 "n" 10 0, .markSequence .unlimited "t" "s" 8 0] false (by decide)
  refine ⟨rfl, ?_, ⟨_, hmemory, (hstep _ _ _ _ hmemory).1⟩,
    ⟨answers, toldEvents, toldWarnings, hrun⟩⟩
  rw [hlong]
  exact Prod.ext hvalue hsession

end Script
end Concolic

import Concolic.Proofs.Scripts

/-! # The steps that a run performs

A run of a script performs steps one after the other, those inside regions included, as far as it
gets before it stops or aborts. `Script.performed` lists them with the states that they are
performed in. A relation between the state before a run, the steps it performs and the state after
it holds of all runs if it holds of single steps, goes on from steps to the steps after them, and is
kept by the ends of an outermost region (`Script.Composes.runAll`). -/

namespace Concolic

/-- To record `e` adds it at the end of the log, or nothing over an idle engine. -/
theorem Engine.log_record (engine : Engine) (e : Event) :
    (engine.update (·.record e)).log = engine.log ∨
      (engine.update (·.record e)).log = engine.log ++ [e] := by
  cases engine with
  | idle => exact .inl rfl
  | recording r => exact .inr rfl

/-- The session that the body of a region over `s` starts with. -/
def Session.inside (s : Session) : Session := if s.inAtomic then s else s.entered

namespace Script

/-- A step without steps inside, with the state that it is performed in. -/
structure Performed where
  /-- The state before the step. -/
  before : State
  /-- The step. -/
  step : Step

namespace Performed

/-- How the step went. -/
def outcome (p : Performed) : Outcome := (perform p.before p.step).1

/-- The state after the step. -/
def after (p : Performed) : State := (perform p.before p.step).2

end Performed

namespace State

/-- `s` where an outermost region is entered. -/
def entered (s : State) : State := { s with session := s.session.entered }

/-- `s` where an outermost region is left. -/
def left (s : State) : State := { s with session := s.session.left }

/-- The state that the body of a region starts with in `s`. -/
def inside (s : State) : State := { s with session := s.session.inside }

/-- The state after a region in `s` whose body ended with `body`. -/
def outside (s body : State) : State := if s.session.inAtomic then body else body.left

/-- `s` once its log and warnings are told. -/
def told (s : State) : State :=
  { s with
    toldEvents := s.session.engine.log.length
    toldWarnings := s.session.engine.warnings.length }

/-- `(s.answer outcome).2 = s.told`. -/
theorem answer_snd (s : State) (outcome : Outcome) : (s.answer outcome).2 = s.told := rfl

end State

mutual

/-- The steps that a step performs from `s`: itself, or those inside it. -/
def performed (s : State) : Step → List Performed
  | .atomic body stopsOnError _ _ => performedAll s.inside stopsOnError body
  | step => [⟨s, step⟩]

/-- The steps that a run performs from `s`, up to where it stops or aborts. -/
def performedAll (s : State) (stopsOnError : Bool) : List Step → List Performed
  | [] => []
  | step :: steps =>
    performed s step ++
      match run s step with
      | (none, _) => []
      | (some answer, s') =>
        if stopsOnError && answer.outcome.isFailure then [] else performedAll s' stopsOnError steps

end

/-- `performed s step = [⟨s, step⟩]` for a step without steps inside. -/
theorem performed_eq_singleton (s : State) {step : Step}
    (h : ∀ body stopsOnError aborts catches, step ≠ .atomic body stopsOnError aborts catches) :
    performed s step = [⟨s, step⟩] := by
  rw [performed]
  exact h

/-- `(perform s step).2.session.bound = s.session.bound`. -/
theorem bound_perform (s : State) (step : Step) :
    (perform s step).2.session.bound = s.session.bound := by
  have hleaves (hleaves : step.leavesEngine = true) :
      (perform s step).2.session.bound = s.session.bound := by
    rw [session_perform hleaves]
    cases step.call? s with
    | none => rfl
    | some c => exact c.bound_perform s.session
  cases step with
  | assumeRange value lower upper => rfl
  | track name bytes => rfl
  | takeEvents => rfl
  | atomic body stopsOnError aborts catches => rfl
  | _ => exact hleaves rfl

/-- A region runs its body from `s.inside` and ends with `s.outside`, perhaps `told`. -/
theorem run_atomic (s : State) (body : List Step) (stopsOnError aborts catches : Bool) :
    (run s (.atomic body stopsOnError aborts catches)).2
        = s.outside (runAll s.inside stopsOnError body).2.2 ∨
      (run s (.atomic body stopsOnError aborts catches)).2
        = (s.outside (runAll s.inside stopsOnError body).2.2).told := by
  rw [run]
  cases hatomic : s.session.inAtomic with
  | true =>
    -- a region inside another runs its body over the session as it is
    have hinside : s.inside = { s with session := s.session } := by
      rw [State.inside, Session.inside, if_pos hatomic]
    rw [Session.inAtomicRegion, if_pos hatomic, State.outside, if_pos hatomic, hinside]
    simp only
    split
    · exact .inl rfl
    · exact .inr rfl
  | false =>
    have hinside : s.inside = { s with session := s.session.entered } := by
      rw [State.inside, Session.inside, hatomic]
      rfl
    rw [Session.inAtomicRegion_eq hatomic, State.outside, hatomic, hinside]
    simp only
    split
    · exact .inl rfl
    · exact .inr rfl

/-- If `P` holds of `s.outside` after the body, and of `t.told` where it holds of `t`, it holds
after the region. -/
theorem run_atomic_of_outside {P : State → Prop} {s : State} {body : List Step}
    {stopsOnError : Bool} (aborts catches : Bool) (htold : ∀ t, P t → P t.told)
    (h : P (s.outside (runAll s.inside stopsOnError body).2.2)) :
    P (run s (.atomic body stopsOnError aborts catches)).2 := by
  rcases run_atomic s body stopsOnError aborts catches with hrun | hrun
  · rw [hrun]
    exact h
  · rw [hrun]
    exact htold _ h

/-! ## Runs by their steps -/

/-- `R` relates a state, the steps performed from it and the state after them, and can be followed
along a run. -/
structure Composes (R : State → List Performed → State → Prop) : Prop where
  /-- Nothing is performed. -/
  refl (s : State) : R s [] s
  /-- Steps are performed after others. -/
  trans {s s' s'' : State} {ps ps' : List Performed} (h : R s ps s') (h' : R s' ps' s'') :
    R s (ps ++ ps') s''
  /-- A step is performed. -/
  perform (s : State) (step : Step) : R s [⟨s, step⟩] (perform s step).2
  /-- What was performed is told. -/
  told {s s' : State} {ps : List Performed} (h : R s ps s') : R s ps s'.told
  /-- The steps are the body of an outermost region. -/
  region {s s' : State} {ps : List Performed} (hatomic : s.session.inAtomic = false)
    (h : R s.entered ps s') : R s ps s'.left

namespace Composes

variable {R : State → List Performed → State → Prop}

/-- `R s.inside ps body` gives `R s ps (s.outside body)`. -/
theorem outside (h : Composes R) {s body : State} {ps : List Performed}
    (hbody : R s.inside ps body) : R s ps (s.outside body) := by
  rw [State.inside, Session.inside] at hbody
  rw [State.outside]
  cases hatomic : s.session.inAtomic with
  | true =>
    rw [if_pos hatomic] at hbody
    exact hbody
  | false =>
    rw [hatomic] at hbody
    exact h.region hatomic hbody

mutual

/-- `Composes R` gives `R s (performed s step)` up to the end of `run s step`. -/
theorem run (h : Composes R) (s : State) (step : Step) :
    R s (performed s step) (Script.run s step).2 := by
  cases step with
  | atomic body stopsOnError aborts catches =>
    rw [performed]
    refine run_atomic_of_outside aborts catches (fun t ht => h.told ht) ?_
    exact h.outside (h.runAll s.inside stopsOnError body)
  | _ =>
    rw [run_eq_perform s (by simp), performed_eq_singleton s (by simp), State.answer_snd]
    exact h.told (h.perform s _)

/-- `Composes R` gives `R s (performedAll s stopsOnError steps)` up to the end of
`runAll s stopsOnError steps`. -/
theorem runAll (h : Composes R) (s : State) (stopsOnError : Bool) (steps : List Step) :
    R s (performedAll s stopsOnError steps) (Script.runAll s stopsOnError steps).2.2 := by
  cases steps with
  | nil =>
    rw [Script.runAll, performedAll]
    exact h.refl s
  | cons step steps =>
    have hstep := h.run s step
    rw [Script.runAll, performedAll]
    cases hrun : Script.run s step with
    | mk answer s' =>
      rw [hrun] at hstep
      cases answer with
      | none =>
        -- the first step aborted, and with it the run
        simp only [List.append_nil]
        exact hstep
      | some answer =>
        have hrest := h.runAll s' stopsOnError steps
        simp only
        split
        · rw [List.append_nil]
          exact hstep
        · exact h.trans hstep hrest

end

end Composes
end Script
end Concolic

import Concolic.Proofs.Steps

/-! # Atomic regions are balanced and merged

The events that a run sends to the engine stand in the logs that it takes and in the log that it
leaves. Only outermost regions send a begin and an end: such a region sends its begin, what its body
sends and its end, however the body ends, and it leaves the session outside (`Script.sent_atomic`).
A region inside another sends what its body sends and leaves the session inside. So the begins and
ends that a run sends alternate, and each pair of them encloses one outermost region. -/

namespace Concolic

/-- Whether an event begins or ends a region. -/
def Event.isRegion : Event → Bool
  | tracked _ _ => false
  | assumed _ => false
  | atomicBegin => true
  | atomicEnd => true

/-- If `e.recorder?` is some recorder `r`, then `e = .recording r`. -/
theorem Engine.eq_recording_of_isSome {e : Engine} (h : e.recorder?.isSome = true) :
    ∃ r, e = .recording r := by
  cases e with
  | idle => cases h
  | recording r => exact ⟨r, rfl⟩

/-- No event of `buffers` has `isRegion`. -/
theorem Buffer.isRegion_of_mem_events {buffers : List Buffer} {e : Event}
    (h : e ∈ buffers.flatMap Buffer.events) : e.isRegion = false := by
  obtain ⟨b, -, he⟩ := List.mem_flatMap.1 h
  rcases List.mem_cons.1 he with rfl | he
  · rfl
  · obtain ⟨a, -, rfl⟩ := List.mem_map.1 he
    rfl

/-- `s` goes on to `s'`, whose log has more events, none of which begins or ends a region. -/
structure Session.Appends (s s' : Session) : Prop where
  /-- The session is in a region if it was. -/
  inAtomic : s'.inAtomic = s.inAtomic
  /-- The engine has a log if it had one. -/
  recorder : s'.engine.recorder?.isSome = s.engine.recorder?.isSome
  /-- The events are added at the end. -/
  log : ∃ events, s'.engine.log = s.engine.log ++ events ∧ ∀ e ∈ events, e.isRegion = false

namespace Session.Appends

/-- `Session.Appends` is reflexive: nothing is added. -/
theorem refl (s : Session) : s.Appends s :=
  ⟨rfl, rfl, [], (List.append_nil _).symm, by simp⟩

/-- To extend the recorder of `s` by `events` without `isRegion` is `s.Appends`. -/
theorem extend {s : Session} {r : Recorder} (hengine : s.engine = .recording r)
    {events : List Event} (warnings : List Warning) (h : ∀ e ∈ events, e.isRegion = false) :
    s.Appends { s with engine := .recording (r.extend events warnings) } where
  inAtomic := rfl
  recorder := by
    rw [hengine]
    rfl
  log := by
    rw [hengine]
    exact ⟨events, rfl, h⟩

/-- `s.Appends (c.perform s).2`. -/
theorem call (c : Call) (s : Session) : s.Appends (c.perform s).2 := by
  rcases c.perform_cases s with ⟨error, hperform⟩ | ⟨r, hengine, -, -, hperform⟩
  · rw [hperform]
    exact .refl s
  · rw [hperform]
    exact .extend hengine _ fun e he => Buffer.isRegion_of_mem_events he

end Session.Appends

namespace Script

/-- A step without steps inside gives `Appends`, unless it is `.takeEvents`. -/
theorem appends_perform (s : State) {step : Step} (h : step ≠ .takeEvents) :
    s.session.Appends (perform s step).2.session := by
  cases hleaves : step.leavesEngine with
  | true =>
    rw [session_perform hleaves]
    cases step.call? s with
    | none => exact .refl s.session
    | some c => exact .call c s.session
  | false =>
    -- these steps ask the engine itself
    cases step with
    | takeEvents => exact absurd rfl h
    | assumeRange value lower upper =>
      rw [perform, State.request]
      cases hengine : s.session.engine with
      | idle =>
        rw [Engine.update, ← hengine]
        exact .refl s.session
      | recording r =>
        rw [Engine.update, Recorder.assumeRange, Recorder.assume_assume]
        exact .extend hengine _ (by simp [Event.isRegion])
    | track name bytes =>
      cases hengine : s.session.engine with
      | idle =>
        simp only [perform, hengine, Engine.track]
        rw [← hengine]
        exact .refl s.session
      | recording r =>
        simp only [perform, hengine, Engine.track, Recorder.track_eq]
        exact .extend hengine _ (by simp [Event.isRegion])
    | atomic body stopsOnError aborts catches => exact .refl s.session
    | _ => cases hleaves

/-! ## What a run sends -/

/-- The events that a step took. -/
def Outcome.takenEvents : Outcome → List Event
  | .taken (some events) => events
  | _ => []

/-- The events that the steps `ps` took out of the log, in order. -/
def taken (ps : List Performed) : List Event := ps.flatMap fun p => p.outcome.takenEvents

/-- No step but `.takeEvents` tells of taken events. -/
theorem takenEvents_perform {s : State} {step : Step} (h : step ≠ .takeEvents) :
    (perform s step).1.takenEvents = [] := by
  cases step with
  | takeEvents => exact absurd rfl h
  | _ =>
    simp only [perform]
    repeat' split
    all_goals rfl

/-- The steps `ps` from `s` to `s'` send `events`: what they took and left in the log is what was in
the log and `events`. They leave the session in a region or outside as it was. -/
structure Sends (s : State) (ps : List Performed) (events : List Event) (s' : State) : Prop where
  /-- The session is in a region if it was. -/
  inAtomic : s'.session.inAtomic = s.session.inAtomic
  /-- The engine has a log if it had one. -/
  recorder : s'.session.engine.recorder?.isSome = s.session.engine.recorder?.isSome
  /-- No event is lost and none comes from elsewhere. -/
  history : taken ps ++ s'.session.engine.log = s.session.engine.log ++ events

namespace Sends

variable {s s' s'' : State} {ps ps' : List Performed} {events events' : List Event}

/-- `Sends s [] [] s`. -/
theorem refl (s : State) : Sends s [] [] s := ⟨rfl, rfl, (List.append_nil _).symm⟩

/-- `Sends s ps events s'` and `Sends s' ps' events' s''` give `Sends` for both in a row. -/
theorem trans (h : Sends s ps events s') (h' : Sends s' ps' events' s'') :
    Sends s (ps ++ ps') (events ++ events') s'' where
  inAtomic := h'.inAtomic.trans h.inAtomic
  recorder := h'.recorder.trans h.recorder
  history := calc
    taken (ps ++ ps') ++ s''.session.engine.log
      = taken ps ++ (taken ps' ++ s''.session.engine.log) := by
        rw [taken, List.flatMap_append, List.append_assoc]
        rfl
    _ = (taken ps ++ s'.session.engine.log) ++ events' := by
        rw [h'.history, List.append_assoc]
    _ = s.session.engine.log ++ (events ++ events') := by
        rw [h.history, List.append_assoc]

/-- If `Sends s ps events s'`, then `events` are what was taken and what is left, without the log of
`s`. -/
theorem eq_drop (h : Sends s ps events s') :
    (taken ps ++ s'.session.engine.log).drop s.session.engine.log.length = events := by
  rw [h.history]
  exact List.drop_left

/-- A step without steps inside `Sends` only events without `isRegion`. -/
theorem perform (s : State) (step : Step) :
    ∃ events, Sends s [⟨s, step⟩] events (perform s step).2 ∧
      ∀ e ∈ events, e.isRegion = false := by
  by_cases htake : step = .takeEvents
  · -- what leaves the log is taken
    subst htake
    refine ⟨[], ⟨rfl, ?_, ?_⟩, by simp⟩
    · cases hengine : s.session.engine <;>
        simp [Script.perform, State.request, hengine, Engine.update, Engine.recorder?]
    · cases hengine : s.session.engine <;>
        simp [taken, Performed.outcome, Script.perform, State.request, hengine, Engine.update,
          Engine.recorder?, Outcome.takenEvents, Engine.log]
  · have happends := appends_perform s htake
    obtain ⟨events, hlog, hplain⟩ := happends.log
    have htaken : taken [⟨s, step⟩] = [] := by
      rw [taken, List.flatMap_singleton]
      exact takenEvents_perform htake
    refine ⟨events, ⟨happends.inAtomic, happends.recorder, ?_⟩, hplain⟩
    rw [htaken, List.nil_append, hlog]

/-- If the body of an outermost region over a recorder `Sends` `events`, the region sends
`.atomicBegin`, `events` and `.atomicEnd`. -/
theorem region {r : Recorder} (hengine : s.session.engine = .recording r)
    (hatomic : s.session.inAtomic = false) (h : Sends s.entered ps events s') :
    Sends s ps (.atomicBegin :: (events ++ [.atomicEnd])) s'.left := by
  have hentered : s.entered.session.engine = .recording (r.record .atomicBegin) :=
    Session.engine_entered hengine
  have hrecorder := h.recorder
  have hhistory := h.history
  rw [hentered] at hrecorder hhistory
  -- the body may have taken the begin out of the log, so only the history is known to hold it
  obtain ⟨r', hengine'⟩ := Engine.eq_recording_of_isSome hrecorder
  have hleft : s'.left.session.engine = .recording (r'.record .atomicEnd) := by
    rw [State.left, Session.left, hengine']
    rfl
  rw [hengine'] at hhistory
  refine ⟨hatomic.symm, ?_, ?_⟩
  · rw [hleft, hengine]
    rfl
  · rw [hleft, hengine]
    calc
      taken ps ++ (r'.log ++ [.atomicEnd])
        = (taken ps ++ r'.log) ++ [.atomicEnd] := (List.append_assoc ..).symm
      _ = ((r.log ++ [.atomicBegin]) ++ events) ++ [.atomicEnd] := congrArg (· ++ _) hhistory
      _ = r.log ++ (.atomicBegin :: (events ++ [.atomicEnd])) := by simp

/-- If the body of an outermost region over an idle engine `Sends` `events`, so does the region. -/
theorem region_of_idle (hengine : s.session.engine = .idle) (hatomic : s.session.inAtomic = false)
    (h : Sends s.entered ps events s') : Sends s ps events s'.left := by
  have hentered : s.entered.session.engine = .idle := by
    rw [State.entered, Session.entered, hengine]
    rfl
  have hrecorder := h.recorder
  have hhistory := h.history
  rw [hentered] at hrecorder hhistory
  -- the body keeps the kind of the engine
  cases hbody : s'.session.engine with
  | recording r' =>
    rw [hbody] at hrecorder
    cases hrecorder
  | idle =>
    have hleft : s'.left.session.engine = .idle := by
      rw [State.left, Session.left, hbody]
      rfl
    rw [hbody] at hhistory
    refine ⟨hatomic.symm, ?_, ?_⟩
    · rw [hleft, hengine]
    · rw [hleft, hengine]
      exact hhistory

/-- `Sends s ps events s'` gives `Sends s ps events s'.told`. -/
theorem told (h : Sends s ps events s') : Sends s ps events s'.told :=
  ⟨h.inAtomic, h.recorder, h.history⟩

/-- Runs compose to `Sends`, without `isRegion` where they start in a region. -/
theorem composes : Composes fun s ps s' =>
    ∃ events, Sends s ps events s' ∧
      (s.session.inAtomic = true → ∀ e ∈ events, e.isRegion = false) where
  refl s := ⟨[], .refl s, by simp⟩
  trans := by
    rintro s s' s'' ps ps' ⟨events, h, hplain⟩ ⟨events', h', hplain'⟩
    refine ⟨events ++ events', h.trans h', ?_⟩
    intro hatomic e he
    rcases List.mem_append.1 he with he | he
    · exact hplain hatomic e he
    · exact hplain' (h.inAtomic.trans hatomic) e he
  perform s step := by
    obtain ⟨events, h, hplain⟩ := perform s step
    exact ⟨events, h, fun _ => hplain⟩
  told := by
    rintro s s' ps ⟨events, h, hplain⟩
    exact ⟨events, h.told, hplain⟩
  region := by
    rintro s s' ps hatomic ⟨events, h, -⟩
    -- an outermost region starts outside, where nothing is claimed of its events
    have houtside (hinside : s.session.inAtomic = true) : False := by
      rw [hatomic] at hinside
      cases hinside
    cases hengine : s.session.engine with
    | idle => exact ⟨_, h.region_of_idle hengine hatomic, fun hinside => (houtside hinside).elim⟩
    | recording r => exact ⟨_, h.region hengine hatomic, fun hinside => (houtside hinside).elim⟩

end Sends

/-- The events that the run of `step` sends: those taken in it and those in the log after it,
without those that were in the log of `s`. -/
def sent (s : State) (step : Step) : List Event :=
  (taken (performed s step) ++ (run s step).2.session.engine.log).drop s.session.engine.log.length

/-- The events that the run of `steps` sends, as `sent` has it. -/
def sentAll (s : State) (stopsOnError : Bool) (steps : List Step) : List Event :=
  (taken (performedAll s stopsOnError steps)
    ++ (runAll s stopsOnError steps).2.2.session.engine.log).drop s.session.engine.log.length

/-- `run s step` `Sends` `sent s step`, without `isRegion` if it starts in a region. -/
theorem sends_run (s : State) (step : Step) :
    Sends s (performed s step) (sent s step) (run s step).2 ∧
      (s.session.inAtomic = true → ∀ e ∈ sent s step, e.isRegion = false) := by
  obtain ⟨events, h, hplain⟩ := Sends.composes.run s step
  rw [sent, h.eq_drop]
  exact ⟨h, hplain⟩

/-- `runAll s stopsOnError steps` `Sends` `sentAll s stopsOnError steps`, without `isRegion` if it
starts in a region. -/
theorem sends_runAll (s : State) (stopsOnError : Bool) (steps : List Step) :
    Sends s (performedAll s stopsOnError steps) (sentAll s stopsOnError steps)
        (runAll s stopsOnError steps).2.2 ∧
      (s.session.inAtomic = true → ∀ e ∈ sentAll s stopsOnError steps, e.isRegion = false) := by
  obtain ⟨events, h, hplain⟩ := Sends.composes.runAll s stopsOnError steps
  rw [sentAll, h.eq_drop]
  exact ⟨h, hplain⟩

/-! ## Steps and regions -/

/-- Whether a step runs steps in a region. -/
def Step.isAtomic : Step → Bool
  | .atomic _ _ _ _ => true
  | _ => false

/-- `sent s step` has no event with `isRegion` if `step` is no region. -/
theorem sent_of_not_atomic {s : State} {step : Step} (h : step.isAtomic = false) :
    ∀ e ∈ sent s step, e.isRegion = false := by
  have hstep (body : List Step) (stopsOnError aborts catches : Bool) :
      step ≠ .atomic body stopsOnError aborts catches := by
    rintro rfl
    cases h
  obtain ⟨events, hsends, hplain⟩ := Sends.perform s step
  have hsent : sent s step = events := by
    rw [sent, performed_eq_singleton s hstep, run_eq_perform s hstep]
    exact hsends.told.eq_drop
  rw [hsent]
  exact hplain

/-- `s.inside = s.entered` outside a region. -/
theorem inside_of_outermost {s : State} (h : s.session.inAtomic = false) :
    s.inside = s.entered := by
  rw [State.inside, Session.inside, h]
  rfl

/-- `s.inside = s` inside a region. -/
theorem inside_of_inner {s : State} (h : s.session.inAtomic = true) : s.inside = s := by
  rw [State.inside, Session.inside, if_pos h]

/-- An outermost region over a recorder sends `.atomicBegin`, what its body sends from `s.inside`,
and `.atomicEnd`. -/
theorem sent_atomic {s : State} {r : Recorder} (hengine : s.session.engine = .recording r)
    (hatomic : s.session.inAtomic = false) (body : List Step) (stopsOnError aborts catches : Bool) :
    sent s (.atomic body stopsOnError aborts catches)
      = .atomicBegin :: (sentAll s.inside stopsOnError body ++ [.atomicEnd]) := by
  have hbody := (sends_runAll s.inside stopsOnError body).1
  rw [inside_of_outermost hatomic] at hbody ⊢
  have hregion := hbody.region hengine hatomic
  -- the region ends in the same way whether it aborts or not
  have hrun : Sends s (performed s (.atomic body stopsOnError aborts catches))
      (.atomicBegin :: (sentAll s.entered stopsOnError body ++ [.atomicEnd]))
      (run s (.atomic body stopsOnError aborts catches)).2 := by
    rw [performed, inside_of_outermost hatomic]
    refine run_atomic_of_outside aborts catches (fun t ht => ht.told) ?_
    rw [State.outside, hatomic, inside_of_outermost hatomic]
    exact hregion
  exact hrun.eq_drop

/-- The body of an outermost region sends no event with `isRegion`. -/
theorem isRegion_of_mem_body {s : State} (hatomic : s.session.inAtomic = false)
    (stopsOnError : Bool) (body : List Step) :
    ∀ e ∈ sentAll s.inside stopsOnError body, e.isRegion = false := by
  apply (sends_runAll s.inside stopsOnError body).2
  rw [inside_of_outermost hatomic]
  rfl

/-- If `s.session.inAtomic = true`, an `.atomic` step with `body` sends
`sentAll s stopsOnError body`. -/
theorem sent_atomic_of_inner {s : State} (hatomic : s.session.inAtomic = true) (body : List Step)
    (stopsOnError aborts catches : Bool) :
    sent s (.atomic body stopsOnError aborts catches) = sentAll s stopsOnError body := by
  have hbody := (sends_runAll s stopsOnError body).1
  have hrun : Sends s (performed s (.atomic body stopsOnError aborts catches))
      (sentAll s stopsOnError body) (run s (.atomic body stopsOnError aborts catches)).2 := by
    rw [performed, inside_of_inner hatomic]
    refine run_atomic_of_outside aborts catches (fun t ht => ht.told) ?_
    rw [State.outside, if_pos hatomic, inside_of_inner hatomic]
    exact hbody
  exact hrun.eq_drop

/-! ## Runs outside regions -/

/-- The steps of a list that are run from `s`, up to the one at which the list ends, with the states
that they are run in. -/
def executed (s : State) (stopsOnError : Bool) : List Step → List (State × Step)
  | [] => []
  | step :: steps =>
    (s, step) ::
      match run s step with
      | (none, _) => []
      | (some answer, s') =>
        if stopsOnError && answer.outcome.isFailure then [] else executed s' stopsOnError steps

/-- `sentAll s stopsOnError steps` is what each of the `executed` steps sends. -/
theorem sentAll_eq (s : State) (stopsOnError : Bool) (steps : List Step) :
    sentAll s stopsOnError steps
      = (executed s stopsOnError steps).flatMap fun x => sent x.1 x.2 := by
  induction steps generalizing s with
  | nil =>
    rw [sentAll, performedAll, runAll, executed]
    exact List.drop_length
  | cons step steps ih =>
    have hstep := (sends_run s step).1
    rw [sentAll, performedAll, runAll, executed, List.flatMap_cons]
    cases hrun : run s step with
    | mk answer s' =>
      rw [hrun] at hstep
      cases answer with
      | none =>
        simp only [List.append_nil, List.flatMap_nil]
        exact hstep.eq_drop
      | some answer =>
        simp only
        by_cases hstops : (stopsOnError && answer.outcome.isFailure) = true
        · simp only [if_pos hstops, List.append_nil, List.flatMap_nil]
          exact hstep.eq_drop
        · -- what the first step sends comes before what the rest sends
          simp only [if_neg hstops, ← ih s']
          exact (hstep.trans (sends_runAll s' stopsOnError steps).1).eq_drop

/-- Every `executed` step starts with `inAtomic` as the run does, over an engine with a log if the
run has one. -/
theorem inAtomic_of_mem_executed {s : State} {stopsOnError : Bool} {steps : List Step}
    {x : State × Step} (h : x ∈ executed s stopsOnError steps) :
    x.1.session.inAtomic = s.session.inAtomic ∧
      x.1.session.engine.recorder?.isSome = s.session.engine.recorder?.isSome := by
  induction steps generalizing s with
  | nil => cases h
  | cons step steps ih =>
    rw [executed] at h
    rcases List.mem_cons.1 h with rfl | h
    · exact ⟨rfl, rfl⟩
    · -- a later step starts where the first one has kept the region and the kind of the engine
      have hstep := (sends_run s step).1
      cases hrun : run s step with
      | mk answer s' =>
        rw [hrun] at h hstep
        cases answer with
        | none => cases h
        | some answer =>
          simp only at h
          split at h
          · cases h
          · have hrest := ih h
            exact ⟨hrest.1.trans hstep.inAtomic, hrest.2.trans hstep.recorder⟩

/-- Outside a region and over a recorder `sent s step` has one begin and one end if `step` is a
region, and none otherwise. -/
theorem filter_sent {s : State} {r : Recorder} (hengine : s.session.engine = .recording r)
    (hatomic : s.session.inAtomic = false) (step : Step) :
    (sent s step).filter Event.isRegion
      = if step.isAtomic then [.atomicBegin, .atomicEnd] else [] := by
  cases hstep : step.isAtomic with
  | false =>
    apply List.filter_eq_nil_iff.2
    intro e he
    rw [sent_of_not_atomic hstep e he]
    simp
  | true =>
    cases step with
    | atomic body stopsOnError aborts catches =>
      -- the body runs inside, so that only the region itself begins and ends
      have hbody : (sentAll s.inside stopsOnError body).filter Event.isRegion = [] := by
        apply List.filter_eq_nil_iff.2
        intro e he
        rw [isRegion_of_mem_body hatomic stopsOnError body e he]
        simp
      rw [sent_atomic hengine hatomic, List.filter_cons, List.filter_append, hbody]
      rfl
    | _ => cases hstep

/-- The events with `isRegion` that the steps `xs` send outside regions are
`[.atomicBegin, .atomicEnd]`, once for each `.atomic` step. -/
theorem filter_flatMap_sent {xs : List (State × Step)}
    (h : ∀ x ∈ xs, x.1.session.inAtomic = false ∧ x.1.session.engine.recorder?.isSome = true) :
    (xs.flatMap fun x => sent x.1 x.2).filter Event.isRegion
      = (List.replicate (xs.countP fun x => x.2.isAtomic) [.atomicBegin, .atomicEnd]).flatten := by
  induction xs with
  | nil => rfl
  | cons x xs ih =>
    obtain ⟨hatomic, hrecorder⟩ := h x List.mem_cons_self
    obtain ⟨r, hengine⟩ := Engine.eq_recording_of_isSome hrecorder
    rw [List.flatMap_cons, List.filter_append, filter_sent hengine hatomic,
      ih fun y hy => h y (List.mem_cons_of_mem _ hy), List.countP_cons]
    cases x.2.isAtomic with
    | false => rfl
    | true =>
      rw [if_pos rfl, if_pos rfl, List.replicate_succ, List.flatten_cons]

/-! ## Balance -/

/-- **Regions are balanced and merged** in every run that starts outside. The session is outside
before and after every `executed` step, however it ends. Over a recorder nothing that is sent is
lost: the logs taken and the log left hold what was in the log and `sent` of each step. A step that
is no region sends no begin and no end, and an outermost region sends `.atomicBegin`, what its body
sends, which holds no begin and no end, and `.atomicEnd`; so the begins and ends alternate. Inside a
region, a region sends what its body sends and leaves the session inside. -/
theorem regions_balanced (s : State) (stopsOnError : Bool) (steps : List Step)
    (houtside : s.session.inAtomic = false) :
    (runAll s stopsOnError steps).2.2.session.inAtomic = false ∧
    (∀ x ∈ executed s stopsOnError steps,
      x.1.session.inAtomic = false ∧ (run x.1 x.2).2.session.inAtomic = false) ∧
    (∀ r, s.session.engine = .recording r →
      taken (performedAll s stopsOnError steps)
          ++ (runAll s stopsOnError steps).2.2.session.engine.log
        = r.log ++ (executed s stopsOnError steps).flatMap (fun x => sent x.1 x.2) ∧
      (∀ x ∈ executed s stopsOnError steps, x.2.isAtomic = false →
        ∀ e ∈ sent x.1 x.2, e.isRegion = false) ∧
      (∀ x ∈ executed s stopsOnError steps, ∀ body stops aborts catches,
        x.2 = .atomic body stops aborts catches →
          sent x.1 x.2 = .atomicBegin :: (sentAll x.1.inside stops body ++ [.atomicEnd]) ∧
          ∀ e ∈ sentAll x.1.inside stops body, e.isRegion = false) ∧
      ((executed s stopsOnError steps).flatMap fun x => sent x.1 x.2).filter Event.isRegion
        = (List.replicate ((executed s stopsOnError steps).countP fun x => x.2.isAtomic)
            [.atomicBegin, .atomicEnd]).flatten) ∧
    ∀ (t : State) (body : List Step) (stops aborts catches : Bool), t.session.inAtomic = true →
      sent t (.atomic body stops aborts catches) = sentAll t stops body ∧
      (∀ e ∈ sentAll t stops body, e.isRegion = false) ∧
      (run t (.atomic body stops aborts catches)).2.session.inAtomic = true := by
  have hrun := (sends_runAll s stopsOnError steps).1
  refine ⟨hrun.inAtomic.trans houtside, ?_, fun r hengine => ⟨?_, ?_, ?_, ?_⟩, ?_⟩
  · intro x hx
    have hx := (inAtomic_of_mem_executed hx).1.trans houtside
    exact ⟨hx, (sends_run x.1 x.2).1.inAtomic.trans hx⟩
  · -- the history only grows, and by what each executed step sends
    rw [hrun.history, hengine, sentAll_eq]
    rfl
  · exact fun x _ hstep => sent_of_not_atomic hstep
  · intro x hx body stops aborts catches hstep
    obtain ⟨hatomic, hrecorder⟩ := inAtomic_of_mem_executed hx
    rw [hengine] at hrecorder
    obtain ⟨q, hq⟩ := Engine.eq_recording_of_isSome hrecorder
    have hx := hatomic.trans houtside
    rw [hstep]
    exact ⟨sent_atomic hq hx body stops aborts catches, isRegion_of_mem_body hx stops body⟩
  · apply filter_flatMap_sent
    intro x hx
    obtain ⟨hatomic, hrecorder⟩ := inAtomic_of_mem_executed hx
    rw [hengine] at hrecorder
    exact ⟨hatomic.trans houtside, hrecorder⟩
  · intro t body stops aborts catches hatomic
    exact ⟨sent_atomic_of_inner hatomic body stops aborts catches,
      (sends_runAll t stops body).2 hatomic, (sends_run t _).1.inAtomic.trans hatomic⟩

/-- Two regions that abort. In the first, another one aborts inside and is caught, and the log is
taken; the second is empty and ends the run. Each sends one begin and one end. -/
theorem regions_balanced_aborting :
    let s : State := ⟨⟨.recording {}, 1000, false⟩, fun _ => none, 0, 0⟩
    let steps : List Step :=
      [.atomic [.markInt 1 "a" (-1) 0, .atomic [.markInt 2 "b" (-1) 0] false true true, .takeEvents]
          false true true,
        .atomic [] false true false, .bound]
    s.session.inAtomic = false ∧ (runAll s false steps).2.2.session.inAtomic = false ∧
      taken (performedAll s false steps) ++ (runAll s false steps).2.2.session.engine.log
        = [.atomicBegin, .tracked "a.i#value" [1, 0, 0, 0], .tracked "b.i#value" [2, 0, 0, 0],
          .atomicEnd, .atomicBegin, .atomicEnd] := by
  intro s steps
  obtain ⟨hafter, -, hlog, -⟩ := regions_balanced s false steps rfl
  refine ⟨rfl, hafter, (hlog {} rfl).1.trans ?_⟩
  decide +kernel

end Script
end Concolic

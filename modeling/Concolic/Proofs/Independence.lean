import Concolic.Proofs.Agreement
import Concolic.Proofs.Atomicity
import Concolic.Proofs.Steps
import Mathlib.Data.List.Nodup

/-! # Markings are independent

What a call gives and what it adds to the log does not depend on what was logged before
(`Call.perform_extend`). So a marking in a script has one effect on all states that have the same
value in its slot (`Script.effect`), and markings of different slots go on as if each was the only
one, in whatever order they are made. If their base names differ as well, the tracked buffers of
their log read back to the same assignments in every order (`Script.marks_commute`). -/

namespace Concolic

/-! ## Calls -/

/-- `s` with `events` and `warnings` added to those of its engine; an idle engine drops them. -/
def Session.extend (s : Session) (events : List Event) (warnings : List Warning) : Session :=
  { s with engine := s.engine.update (·.extend events warnings) }

namespace Session

/-- If `s.engine = .recording r`, the engine of `s.extend events warnings` is
`.recording (r.extend events warnings)`. -/
theorem engine_extend {s : Session} {r : Recorder} (hengine : s.engine = .recording r)
    (events : List Event) (warnings : List Warning) :
    (s.extend events warnings).engine = .recording (r.extend events warnings) := by
  rw [extend, hengine]
  rfl

/-- `s.extend events warnings` has the recorder of `s`, extended, if there is one. -/
theorem recorder?_extend (s : Session) (events : List Event) (warnings : List Warning) :
    (s.extend events warnings).engine.recorder?
      = s.engine.recorder?.map fun r => r.extend events warnings := by
  rw [extend]
  cases s.engine with
  | idle => rfl
  | recording r => rfl

/-- `s.extend events warnings` is active iff `s` is. -/
theorem active_extend (s : Session) (events : List Event) (warnings : List Warning) :
    (s.extend events warnings).engine.active = s.engine.active := by
  rw [extend]
  cases s.engine with
  | idle => rfl
  | recording r => rfl

/-- `s.extend [] [] = s`. -/
theorem extend_empty (s : Session) : s.extend [] [] = s := by
  rw [extend]
  cases hengine : s.engine with
  | idle => rw [Engine.update, ← hengine]
  | recording r => rw [Engine.update, Recorder.extend_nil, ← hengine]

/-- `(s.extend events warnings).extend events' warnings'` is one extension by both. -/
theorem extend_extend (s : Session) (events events' : List Event)
    (warnings warnings' : List Warning) :
    (s.extend events warnings).extend events' warnings'
      = s.extend (events ++ events') (warnings ++ warnings') := by
  rw [extend, extend, extend]
  cases s.engine with
  | idle => rfl
  | recording r => simp only [Engine.update, Recorder.extend_extend]

end Session

namespace Call

/-- The warnings that `c`, made over `s`, adds. -/
def warned (c : Call) (s : Session) : List Warning :=
  (c.perform s).2.engine.warnings.drop s.engine.warnings.length

/-- Over `s.extend events warnings` the call `c` has the outcome of `c.made s` and adds its events
and warnings. -/
theorem perform_extend (c : Call) (s : Session) (events : List Event) (warnings : List Warning) :
    c.perform (s.extend events warnings)
      = ((c.made s).outcome,
        (s.extend events warnings).extend (c.made s).events (c.warned s)) := by
  rcases s.engine.inactive_or_recording with hinactive | ⟨r, hengine, hactive⟩
  · -- an engine that is not active stays so and refuses the call in both sessions
    have hextended : (s.extend events warnings).engine.active = false := by
      rw [Session.active_extend, hinactive]
    have hperform := c.perform_of_inactive hinactive
    rw [c.perform_of_inactive hextended, made, warned, hperform, List.drop_length,
      List.drop_length, Session.extend_empty]
  · have hperform := c.perform_of_active hengine hactive
    rw [c.perform_of_active (Session.engine_extend hengine events warnings) hactive, made, warned]
    -- a recorder keeps its replays, and so the outcome, whatever is logged before
    cases haccept : c.accept with
    | error error =>
      simp only [haccept] at hperform
      rw [hperform, List.drop_length, List.drop_length, Session.extend_empty]
    | ok _ =>
      simp only [haccept] at hperform
      simp only [hperform, hengine, Engine.log, Engine.warnings, Recorder.hold,
        Recorder.log_extend, Recorder.warnings_extend, List.drop_left, Recorder.replays_extend]
      simp only [Session.extend, hengine, Engine.update]

/-- `c.perform s` is the outcome of `c.made s`, and `s` extended by its events and warnings. -/
theorem perform_eq_extend (c : Call) (s : Session) :
    c.perform s = ((c.made s).outcome, s.extend (c.made s).events (c.warned s)) := by
  have hperform := c.perform_extend s [] []
  rwa [Session.extend_empty] at hperform

/-- `c.perform s` adds the events of `c.made s` to the log, and `c.warned s` to the warnings. -/
theorem log_perform (c : Call) (s : Session) :
    (c.perform s).2.engine.log = s.engine.log ++ (c.made s).events ∧
      (c.perform s).2.engine.warnings = s.engine.warnings ++ c.warned s := by
  rw [made, warned]
  rcases c.perform_cases s with ⟨error, hperform⟩ | ⟨r, hengine, -, -, hperform⟩
  · rw [hperform, List.drop_length, List.drop_length, List.append_nil, List.append_nil]
    exact ⟨rfl, rfl⟩
  · simp only [hperform, hengine, Engine.log, Engine.warnings, Recorder.hold,
      Recorder.log_extend, Recorder.warnings_extend, List.drop_left, and_self]

/-- `c.made` and `c.warned` do not depend on what was logged before. -/
theorem made_extend (c : Call) (s : Session) (events : List Event) (warnings : List Warning) :
    c.made (s.extend events warnings) = c.made s ∧
      c.warned (s.extend events warnings) = c.warned s := by
  have hperform := c.perform_extend s events warnings
  have houtcome : (c.made (s.extend events warnings)).outcome = (c.made s).outcome := by
    rw [made, hperform]
  have hadded : (c.made (s.extend events warnings)).events = (c.made s).events ∧
      c.warned (s.extend events warnings) = c.warned s := by
    cases hengine : s.engine with
    | idle =>
      -- an idle engine has no log to tell what was added from
      have hactive : s.engine.active = false := by
        rw [hengine]
        rfl
      rw [made, made, warned, warned, perform_of_inactive hactive,
        perform_of_inactive ((s.active_extend events warnings).trans hactive)]
      simp only [List.drop_length, and_self]
    | recording r =>
      have hextended := Session.engine_extend hengine events warnings
      have hlog := c.log_perform (s.extend events warnings)
      rw [hperform, Session.engine_extend hextended, hextended] at hlog
      simp only [Engine.log, Engine.warnings, Recorder.log_extend, Recorder.warnings_extend,
        List.append_cancel_left_eq] at hlog
      exact ⟨hlog.1.symm, hlog.2.symm⟩
  exact ⟨(Made.mk.injEq _ _ _ _ _ _).mpr ⟨rfl, houtcome, hadded.1⟩, hadded.2⟩

/-- The buffers that `c.made s` tracked can all be read, as its readings. -/
theorem readAnswer_made (c : Call) (s : Session) :
    (c.made s).tracked.map readAnswer = (c.made s).readings.map .ok := by
  rcases c.perform_cases s with ⟨error, hperform⟩ | ⟨r, hengine, hactive, -, -⟩
  · rw [Made.tracked, Made.readings, Made.value?, Made.size?, made, hperform, List.drop_length]
    rfl
  · exact Made.readAnswer_tracked
      ((Adds.call hengine hactive c).lawful _ List.mem_cons_self)

end Call

/-- The result of `markInt` does not depend on what was logged before. -/
theorem Session.markInt_extend (s : Session) (events : List Event) (warnings : List Warning)
    (n : Int32) (name : String) (max min : Int32) :
    ((s.extend events warnings).markInt n name max min).1 = (s.markInt n name max min).1 := by
  have hmap : ((s.extend events warnings).markInt n name max min).1.map Value.int
      = (s.markInt n name max min).1.map Value.int :=
    congrArg Made.outcome ((Call.int n name max min).made_extend s events warnings).1
  cases hextended : ((s.extend events warnings).markInt n name max min).1 with
  | error error =>
    cases hs : (s.markInt n name max min).1 with
    | error error' => rw [hextended, hs] at hmap; cases hmap; rfl
    | ok m => rw [hextended, hs] at hmap; cases hmap
  | ok m =>
    cases hs : (s.markInt n name max min).1 with
    | error error => rw [hextended, hs] at hmap; cases hmap
    | ok m' => rw [hextended, hs] at hmap; cases hmap; rfl

namespace Script

/-! ## Effects of markings -/

/-- The base name of a marking. -/
def Step.base? : Step → Option String
  | .markInt _ name _ _ => some name
  | .markSequence _ _ name _ _ => some name
  | _ => none

/-- The slot of the sequence that a marking is given. -/
def Step.slot? : Step → Option String
  | .markSequence _ slot _ _ _ => some slot
  | _ => none

/-- The events that an answer tells. -/
def Answer.events : Answer → List Event
  | .mk _ events _ => events

/-- What a marking does to a state: it goes in some way, adds to the log and may set a slot. -/
structure Effect where
  /-- How the marking goes. -/
  outcome : Outcome
  /-- The events that it adds. -/
  events : List Event := []
  /-- The warnings that it adds. -/
  warnings : List Warning := []
  /-- The slot that it sets, and the value. -/
  written : Option (String × Value) := none

namespace State

/-- The slots of `s` with `written` over them, the first of two for the same slot in force. -/
def overwritten (s : State) (written : List (String × Value)) : String → Option Value :=
  fun slot => (written.lookup slot).or (s.slots slot)

/-- `s.overwritten [] = s.slots`. -/
theorem overwritten_nil (s : State) : s.overwritten [] = s.slots := by
  funext slot
  exact Option.none_or

/-- `s.overwritten [(slot, v)] = (s.set slot v).slots`. -/
theorem overwritten_singleton (s : State) (slot : String) (v : Value) :
    s.overwritten [(slot, v)] = (s.set slot v).slots := by
  funext other
  show ([(slot, v)].lookup other).or (s.slots other)
    = if other = slot then some v else s.slots other
  rw [List.lookup_cons, List.lookup_nil]
  by_cases hother : other = slot
  · rw [if_pos hother, beq_iff_eq.2 hother]
    rfl
  · rw [if_neg hother, beq_eq_false_iff_ne.2 hother]
    exact Option.none_or

end State

namespace Effect

/-- `s` with the effect `e` done to it. -/
def applied (e : Effect) (s : State) : State :=
  { s with
    session := s.session.extend e.events e.warnings
    slots := s.overwritten e.written.toList }

/-- The answer that tells of the effect `e`. -/
def answer (e : Effect) : Answer := .mk e.outcome e.events e.warnings

end Effect

/-- The effect of a marking on `s`; every other step has none. -/
def effect (s : State) : Step → Effect
  | .markInt n name max min =>
    let c := Call.int n name max min
    { outcome :=
        match (s.session.markInt n name max min).1 with
        | .ok result => .int result
        | .error error => .failed error none
      events := (c.made s.session).events
      warnings := c.warned s.session }
  | .markSequence memory slot name max min =>
    match s.get? slot with
    | none => { outcome := .noSuchSlot }
    | some v =>
      let c := Call.sequence memory v name max min
      match (c.made s.session).outcome with
      | .ok result =>
        { outcome := .marked result
          events := (c.made s.session).events
          warnings := c.warned s.session
          written := some (slot, result) }
      | .error error =>
        { outcome := .failed error (some v)
          events := (c.made s.session).events
          warnings := c.warned s.session
          written := some (slot, v) }
  | _ => { outcome := .done }

/-- If `step` is a marking, `perform s step` is the outcome of `effect s step`, applied to `s`. -/
theorem perform_eq_effect (s : State) {step : Step} (h : step.isMark = true) :
    perform s step = ((effect s step).outcome, (effect s step).applied s) := by
  cases step with
  | markInt n name max min =>
    have hperform := (Call.int n name max min).perform_eq_extend s.session
    rw [Call.perform] at hperform
    rw [perform, effect, Effect.applied]
    simp only [Option.toList_none, State.overwritten_nil]
    cases hmark : s.session.markInt n name max min with
    | mk result session =>
      rw [hmark] at hperform
      have hsession : session = s.session.extend
          ((Call.int n name max min).made s.session).events
          ((Call.int n name max min).warned s.session) := congrArg Prod.snd hperform
      cases result with
      | ok result => simp only [hsession]
      | error error => simp only [hsession]
  | markSequence memory slot name max min =>
    rw [perform, effect]
    cases hslot : s.get? slot with
    | none =>
      simp only [Effect.applied, Session.extend_empty, Option.toList_none, State.overwritten_nil]
    | some v =>
      -- the value that comes back is written in any case
      have hperform := (Call.sequence memory v name max min).perform_eq_extend s.session
      simp only [Call.markSequence_eq, hperform]
      cases ((Call.sequence memory v name max min).made s.session).outcome with
      | ok result =>
        simp only [Effect.applied, Option.toList_some, State.overwritten_singleton]
        rfl
      | error error =>
        simp only [Effect.applied, Option.toList_some, State.overwritten_singleton]
        rfl
  | _ => cases h

/-- `effect t step = effect s step` if `t` is `s` but for additions to the log and the slots that
`step` does not use. -/
theorem effect_congr {s t : State} {events : List Event} {warnings : List Warning}
    (hsession : t.session = s.session.extend events warnings) {step : Step}
    (hslot : ∀ slot, step.slot? = some slot → t.get? slot = s.get? slot) :
    effect t step = effect s step := by
  cases step with
  | markInt n name max min =>
    have hcall := (Call.int n name max min).made_extend s.session events warnings
    rw [effect, effect, hsession, hcall.1, hcall.2, Session.markInt_extend]
  | markSequence memory slot name max min =>
    rw [effect, effect, hslot slot rfl, hsession]
    cases s.get? slot with
    | none => rfl
    | some v =>
      have hcall := (Call.sequence memory v name max min).made_extend s.session events warnings
      simp only [hcall.1, hcall.2]
  | _ => rfl

/-- `effect s step` writes no slot but that of `step`. -/
theorem slot?_of_written {s : State} {step : Step} {slot : String} {v : Value}
    (h : (effect s step).written = some (slot, v)) : step.slot? = some slot := by
  cases step with
  | markSequence memory slot' name max min =>
    rw [effect] at h
    cases hslot : s.get? slot' with
    | none => simp [hslot] at h
    | some v' =>
      simp only [hslot] at h
      split at h
      · simp only [Option.some.injEq, Prod.mk.injEq] at h
        rw [Step.slot?, h.1]
      · simp only [Option.some.injEq, Prod.mk.injEq] at h
        rw [Step.slot?, h.1]
  | _ => cases h

/-- `effect s step` adds its events to the log and its warnings to the warnings. -/
theorem log_effect (s : State) (step : Step) :
    ((effect s step).applied s).session.engine.log
        = s.session.engine.log ++ (effect s step).events ∧
      ((effect s step).applied s).session.engine.warnings
        = s.session.engine.warnings ++ (effect s step).warnings := by
  have hcall (c : Call) := c.log_perform s.session
  simp only [Call.perform_eq_extend] at hcall
  have hempty : (s.session.extend [] []).engine.log = s.session.engine.log ++ [] ∧
      (s.session.extend [] []).engine.warnings = s.session.engine.warnings ++ [] := by
    rw [Session.extend_empty, List.append_nil, List.append_nil]
    exact ⟨rfl, rfl⟩
  -- a marking adds what its call adds, and every other step nothing
  cases step with
  | markInt n name max min => exact hcall (.int n name max min)
  | markSequence memory slot name max min =>
    rw [effect]
    cases s.get? slot with
    | none => exact hempty
    | some v =>
      have hv := hcall (.sequence memory v name max min)
      simp only
      split
      · exact hv
      · exact hv
  | _ => exact hempty

/-- `run s.told step` answers with `effect s step`, if `step` is a marking. -/
theorem run_told (s : State) {step : Step} (h : step.isMark = true) :
    run s.told step = (some (effect s step).answer, ((effect s step).applied s).told) := by
  have heffect : effect s.told step = effect s step :=
    effect_congr s.session.extend_empty.symm fun _ _ => rfl
  have hlog := log_effect s step
  rw [run_eq_perform s.told (Step.ne_atomic_of_isMark h), perform_eq_effect s.told h, heffect,
    State.answer_snd]
  let s' := (effect s step).applied s
  have hanswer : (((effect s step).applied s.told).answer (effect s step).outcome).1
      = (effect s step).answer := by
    show Answer.mk _ (s'.session.engine.log.drop s.session.engine.log.length)
      (s'.session.engine.warnings.drop s.session.engine.warnings.length) = _
    rw [hlog.1, hlog.2, List.drop_left, List.drop_left]
    rfl
  rw [hanswer]
  rfl

/-! ## Runs of markings -/

/-- The events that `steps` add, if each has the effect that it has on `s` alone. -/
def State.eventsOf (s : State) (steps : List Step) : List Event :=
  steps.flatMap fun step => (effect s step).events

/-- `s` after `steps`, if each has the effect that it has on `s` alone. -/
def State.marked (s : State) (steps : List Step) : State :=
  { s with
    session := s.session.extend (s.eventsOf steps)
      (steps.flatMap fun step => (effect s step).warnings)
    slots := s.overwritten (steps.reverse.flatMap fun step => (effect s step).written.toList) }

namespace State

/-- `s.marked [] = s`. -/
theorem marked_nil (s : State) : s.marked [] = s := by
  simp only [marked, eventsOf, List.flatMap_nil, List.reverse_nil, overwritten_nil,
    Session.extend_empty]

/-- `s.marked (steps ++ [step])` applies `effect s step` to `s.marked steps`. -/
theorem marked_append (s : State) (steps : List Step) (step : Step) :
    s.marked (steps ++ [step]) = (effect s step).applied (s.marked steps) := by
  have hslots (written written' : List (String × Value)) :
      s.overwritten (written ++ written')
        = fun slot => (written.lookup slot).or (s.overwritten written' slot) := by
    funext slot
    rw [overwritten, List.lookup_append, Option.or_assoc]
    rfl
  simp only [marked, eventsOf, Effect.applied, Session.extend_extend, List.flatMap_append,
    List.reverse_append, List.reverse_singleton, List.singleton_append, List.flatMap_cons,
    List.flatMap_nil, List.append_nil, hslots]
  rfl

/-- `steps` write no slot that is none of theirs. -/
theorem lookup_written_eq_none (s : State) {steps : List Step} {slot : String}
    (h : slot ∉ steps.filterMap Step.slot?) :
    (steps.reverse.flatMap fun step => (effect s step).written.toList).lookup slot = none := by
  rw [List.lookup_eq_none_iff]
  rintro ⟨slot', v⟩ hx
  obtain ⟨step, hstep, hwritten⟩ := List.mem_flatMap.1 hx
  have hslot' := slot?_of_written (Option.mem_toList.1 hwritten)
  rw [bne_iff_ne]
  rintro rfl
  exact h (List.mem_filterMap.2 ⟨step, List.mem_reverse.1 hstep, hslot'⟩)

/-- `s.marked steps` has the values of `s` in the slots that are none of `steps`. -/
theorem get?_marked_of_notMem (s : State) {steps : List Step} {slot : String}
    (h : slot ∉ steps.filterMap Step.slot?) : (s.marked steps).get? slot = s.get? slot := by
  simp only [get?, marked, overwritten, lookup_written_eq_none s h, Option.none_or]

/-- If `steps` have different slots, `s.marked steps` has in the slot of `step` what
`s.marked [step]` has. -/
theorem get?_marked_of_mem (s : State) {steps : List Step}
    (hslots : (steps.filterMap Step.slot?).Nodup) {step : Step} (hstep : step ∈ steps)
    {slot : String} (hslot : step.slot? = some slot) :
    (s.marked steps).get? slot = (s.marked [step]).get? slot := by
  obtain ⟨before, after, rfl⟩ := List.append_of_mem hstep
  rw [List.filterMap_append, List.filterMap_cons_some hslot, List.nodup_middle,
    List.nodup_cons, List.mem_append, not_or] at hslots
  -- the latest value of the slot is looked up, and only this marking can have set it
  obtain ⟨⟨hbefore, hafter⟩, -⟩ := hslots
  rw [← List.singleton_append]
  simp only [get?, marked, overwritten, List.reverse_append, List.flatMap_append,
    List.lookup_append, lookup_written_eq_none s hbefore, lookup_written_eq_none s hafter,
    Option.none_or, Option.or_none]

end State

/-- After markings `done` of other slots, `step` is answered with `effect s step`. -/
theorem run_marked (s : State) (done : List Step) {step : Step} (h : step.isMark = true)
    (hslot : ∀ slot, step.slot? = some slot → slot ∉ done.filterMap Step.slot?) :
    run (s.marked done).told step
      = (some (effect s step).answer, (s.marked (done ++ [step])).told) := by
  have heffect : effect (s.marked done) step = effect s step :=
    effect_congr rfl fun slot hstep => s.get?_marked_of_notMem (hslot slot hstep)
  rw [run_told _ h, heffect, State.marked_append]

/-- After `done`, markings `steps` of different slots are each answered with `effect s step`, and
leave `s.marked (done ++ steps)`. -/
theorem runAll_marked (s : State) (done : List Step) {steps : List Step}
    (hmarks : ∀ step ∈ steps, step.isMark = true)
    (hslots : ((done ++ steps).filterMap Step.slot?).Nodup) :
    runAll (s.marked done).told false steps
      = (steps.map fun step => (effect s step).answer, false, (s.marked (done ++ steps)).told) := by
  -- the markings done so far grow along the run; none of them has the slot of one to come
  induction steps generalizing done with
  | nil => rw [runAll, List.append_nil]; rfl
  | cons step steps ih =>
    have hslot : ∀ slot, step.slot? = some slot → slot ∉ done.filterMap Step.slot? := by
      intro slot hstep
      rw [List.filterMap_append, List.filterMap_cons_some hstep, List.nodup_middle,
        List.nodup_cons, List.mem_append, not_or] at hslots
      exact hslots.1.1
    rw [← List.singleton_append, ← List.append_assoc] at hslots
    rw [runAll, run_marked s done (hmarks step List.mem_cons_self) hslot]
    simp only [Bool.false_and, Bool.false_eq_true, if_false]
    rw [ih (done ++ [step]) (fun step' hstep => hmarks step' (List.mem_cons_of_mem _ hstep)) hslots,
      List.append_assoc]
    rfl

/-- `s.marked steps` adds `s.eventsOf steps` to the log. -/
theorem log_marked (s : State) (steps : List Step) :
    (s.marked steps).session.engine.log = s.session.engine.log ++ s.eventsOf steps := by
  rw [State.marked]
  cases hengine : s.session.engine with
  | idle =>
    -- an idle engine keeps no log, and no marking adds to it
    have hevents : s.eventsOf steps = [] := by
      rw [State.eventsOf, List.flatMap_eq_nil_iff]
      intro step _
      have hlog := (log_effect s step).1
      rw [Effect.applied, Session.extend, hengine] at hlog
      exact hlog.symm
    rw [hevents, Session.extend, hengine]
    rfl
  | recording r =>
    rw [Session.engine_extend hengine]
    rfl

/-! ## Answers of markings -/

/-- What the buffers that `step` tracks say. -/
def readings (s : State) (step : Step) : List Reading :=
  match step.call? s with
  | none => []
  | some c => (c.made s.session).readings

/-- The buffers that `effect s step` tracks can all be read, as `readings s step`. -/
theorem readAnswer_effect (s : State) (step : Step) :
    ((effect s step).events.filterMap Event.tracked?).map readAnswer
      = (readings s step).map .ok := by
  rw [readings]
  cases step with
  | markInt n name max min => exact (Call.int n name max min).readAnswer_made s.session
  | markSequence memory slot name max min =>
    rw [effect, Step.call?]
    cases s.get? slot with
    | none => rfl
    | some v =>
      have hread := (Call.sequence memory v name max min).readAnswer_made s.session
      simp only [Option.map_some]
      split
      · exact hread
      · exact hread
  | _ => rfl

/-- All of `readings s step` are of the object `step.base?`. -/
theorem base?_of_mem_readings {s : State} {step : Step} {x : Reading} (h : x ∈ readings s step) :
    step.base? = some x.key := by
  rw [readings] at h
  cases step with
  | markInt n name max min =>
    rw [Step.base?, Made.key_of_mem_readings h]
    rfl
  | markSequence memory slot name max min =>
    rw [Step.call?] at h
    cases hslot : s.get? slot with
    | none => simp [hslot] at h
    | some v =>
      simp only [hslot, Option.map_some] at h
      rw [Step.base?, Made.key_of_mem_readings h]
      rfl
  | _ => cases h

/-- If `steps` have different names, the tracked buffers of `s.eventsOf order` read back alike for
every permutation `order` of `steps`, behind any `answers`. -/
theorem write_perm (s : State) {steps order : List Step}
    (hnames : (steps.filterMap Step.base?).Nodup) (hperm : order.Perm steps)
    (answers : List (String × List UInt8)) :
    Assignments.write .empty (answers ++ (s.eventsOf order).filterMap Event.tracked?)
      = Assignments.write .empty (answers ++ (s.eventsOf steps).filterMap Event.tracked?) := by
  have hread (steps : List Step) :
      readAnswers ((s.eventsOf steps).filterMap Event.tracked?)
        = (none, steps.flatMap (readings s)) := by
    apply readAnswers_of_map
    rw [State.eventsOf, List.filterMap_flatMap, List.map_flatMap, List.map_flatMap]
    exact List.flatMap_congr fun step _ => readAnswer_effect s step
  have hlength : ((s.eventsOf order).filterMap Event.tracked?).length
      = ((s.eventsOf steps).filterMap Event.tracked?).length :=
    ((hperm.flatMap_right _).filterMap _).length_eq
  have hblocks (a : Assignments) :
      a.assignAll (order.flatMap (readings s)) = a.assignAll (steps.flatMap (readings s)) :=
    (Assignments.assignAll_perm (fun step x hx => base?_of_mem_readings hx) hperm.symm hnames
      a).symm
  -- an answer before that cannot be read stops both batches at the same place
  rw [Assignments.write_eq, Assignments.write_eq, readAnswers_append, readAnswers_append, hread,
    hread]
  cases (readAnswers answers).1 with
  | none => simp only [Assignments.assignAll_append, hblocks, List.length_append, hlength]
  | some error => rfl

/-! ## Orders of markings -/

/-- **Independent markings commute.** Run in any order, markings of different slots under different
names are answered, each with its outcome, events and warnings, and leave their slots, as if each
was the only one; no other slot is set; the log gets the events of `answers` in the order of the
run; and the tracked buffers of the log read back to the same assignments in every order. -/
theorem marks_commute (s : State) {steps order : List Step}
    (hmarks : ∀ step ∈ steps, step.isMark = true) (hnames : (steps.filterMap Step.base?).Nodup)
    (hslots : (steps.filterMap Step.slot?).Nodup) (hperm : order.Perm steps) :
    ∃ answers after, runAll s.told false order = (answers, false, after) ∧
      answers.map some = order.map (fun step => (run s.told step).1) ∧
      (∀ step ∈ order, ∀ slot, step.slot? = some slot →
        after.get? slot = (run s.told step).2.get? slot) ∧
      (∀ slot, slot ∉ order.filterMap Step.slot? → after.get? slot = s.get? slot) ∧
      after.session.engine.log = s.session.engine.log ++ answers.flatMap Answer.events ∧
      ∃ answers' after', runAll s.told false steps = (answers', false, after') ∧
        (after.session.engine.recorder?.map fun r => Assignments.write .empty r.tracked)
          = after'.session.engine.recorder?.map fun r => Assignments.write .empty r.tracked := by
  have hmarks' : ∀ step ∈ order, step.isMark = true := fun step hstep =>
    hmarks step (hperm.mem_iff.1 hstep)
  have hslots' : (order.filterMap Step.slot?).Nodup := (hperm.filterMap _).nodup_iff.2 hslots
  have hrun := runAll_marked s [] hmarks' hslots'
  have hrun' := runAll_marked s [] hmarks hslots
  rw [State.marked_nil, List.nil_append] at hrun hrun'
  -- a marking alone is a run of one marking
  have halone {step : Step} (hstep : step ∈ order) :
      run s.told step = (some (effect s step).answer, (s.marked [step]).told) := by
    have hrun := run_marked s [] (hmarks' step hstep) (by simp)
    rwa [State.marked_nil, List.nil_append] at hrun
  refine ⟨_, _, hrun, ?_, ?_, ?_, ?_,
    _, _, hrun', ?_⟩
  · rw [List.map_map]
    exact List.map_congr_left fun step hstep => by rw [halone hstep]; rfl
  · intro step hstep slot hslot
    rw [halone hstep]
    exact s.get?_marked_of_mem hslots' hstep hslot
  · intro slot hslot
    exact s.get?_marked_of_notMem hslot
  · rw [List.flatMap_map]
    exact log_marked s order
  · simp only [State.told, State.marked, Session.recorder?_extend, Option.map_map]
    congr 1
    funext r
    rw [Function.comp_apply, Function.comp_apply, Recorder.tracked_extend,
      Recorder.tracked_extend, write_perm s hnames hperm]

/-- An integer with a replay, one out of its range, and a string whose name is the buffer name of
the first integer: the string may be marked first. -/
theorem marks_commute_names_alike :
    let s : State := State.set
      ⟨⟨.recording { replays := [("x.i#value", [7, 0, 0, 0])] }, 1000, false⟩, fun _ => none, 0, 0⟩
      "t" (.ofBytes [104, 105])
    ∃ answers after,
      runAll s.told false
          [.markSequence .unlimited "t" "x.i#value" (-1) 0, .markInt 50 "y" 10 0,
            .markInt 5 "x" 10 0]
        = (answers, false, after) ∧
      answers.map some
        = [some (.mk (.marked (.str 2 [104, 105])) [.tracked "x.i#value.s#value" [104, 105]] []),
          some (.mk (.failed (.rangeViolation .value 50 0 (some 10)) none) [] []),
          some (.mk (.int 7) [.tracked "x.i#value" [7, 0, 0, 0], .assumed ⟨7, .ge, 0⟩,
            .assumed ⟨7, .le, 10⟩] [])] ∧
      after.get? "t" = some (.str 2 [104, 105]) := by
  intro s
  have hperm := List.reverse_perm
    [Step.markInt 5 "x" 10 0, .markInt 50 "y" 10 0, .markSequence .unlimited "t" "x.i#value" (-1) 0]
  -- the answers are computed in the order of the first run, and the theorem puts them in the other
  obtain ⟨answers, after, hrun, hanswers, hslots, -⟩ :=
    marks_commute s (by decide) (by decide) (by decide) hperm
  exact ⟨answers, after, hrun, hanswers.trans rfl,
    (hslots (.markSequence .unlimited "t" "x.i#value" (-1) 0) List.mem_cons_self "t" rfl).trans rfl⟩

end Script
end Concolic

import Concolic.Proofs.Calls

/-! # Runs of calls

A `Program` is what a client does with a session: the calls it makes, in order, and the atomic
regions it makes them in. A client may choose its calls by the results of earlier ones, and it may
abandon a region half-way; the calls that it makes are in each case those of one program. A run
keeps a record of every call, and over an active recorder it only adds to the log
(`Program.adds_run`): the tracked buffers it adds are those that its calls added. -/

namespace Concolic

/-- The calls of a client in order, and the atomic regions they are made in. -/
inductive Program where
  /-- Makes no more calls. -/
  | done
  /-- Makes a call and goes on. -/
  | call (c : Call) (next : Program)
  /-- Does what the body does in an atomic region, and goes on. -/
  | region (body next : Program)

/-- The record of a call that was made. -/
structure Made where
  /-- The call. -/
  call : Call
  /-- What it gave. -/
  outcome : Except MarkError Value
  /-- The events that it added to the log. -/
  events : List Event

/-- The record of `c`, made over `s`. -/
def Call.made (c : Call) (s : Session) : Made where
  call := c
  outcome := (c.perform s).1
  events := (c.perform s).2.engine.log.drop s.engine.log.length

/-- If `(c.made s).outcome = .ok v`, then `c` was accepted over an active recorder, `v` is its
result, and the recorder holds its buffers. -/
theorem Call.made_eq_ok {c : Call} {s : Session} {v : Value} (h : (c.made s).outcome = .ok v) :
    ∃ r, s.engine = .recording r ∧ r.active = true ∧ c.accept = .ok () ∧ v = c.result r.replays ∧
      (c.perform s).2
        = { s with engine := .recording (r.hold (c.buffers s.bound (c.result r.replays))) } ∧
      (c.made s).events = (c.buffers s.bound (c.result r.replays)).flatMap Buffer.events := by
  have hperform : c.perform s = (.ok v, (c.perform s).2) := by
    rw [← h]
    rfl
  obtain ⟨r, hengine, hactive, haccept, hv, hafter⟩ := perform_eq_ok hperform
  refine ⟨r, hengine, hactive, haccept, hv, hafter, ?_⟩
  rw [made, hafter, hengine]
  exact List.drop_left

namespace Made

/-- The buffers that the call `m` tracked. -/
def tracked (m : Made) : List (String × List UInt8) := m.events.filterMap Event.tracked?

/-- A call `m` that was refused added nothing, and an accepted one gave its result and added the
events of its buffers. -/
def Lawful (replays : Replays) (bound : Int64) (m : Made) : Prop :=
  match m.call.accept with
  | .error error => m.outcome = .error error ∧ m.events = []
  | .ok () =>
    m.outcome = .ok (m.call.result replays) ∧
      m.events = (m.call.buffers bound (m.call.result replays)).flatMap Buffer.events

end Made

/-! ## Regions -/

namespace Session

/-- The session that the body of an outermost atomic region over `s` starts with. -/
def entered (s : Session) : Session :=
  { s with engine := s.engine.update (·.record .atomicBegin), inAtomic := true }

/-- The session after an outermost atomic region whose body ended with `s`. -/
def left (s : Session) : Session :=
  { s with engine := s.engine.update (·.record .atomicEnd), inAtomic := false }

/-- Outside a region `s.inAtomicRegion body` is `body s.entered`, and then `left`. -/
theorem inAtomicRegion_eq {α : Type} {s : Session} (hatomic : s.inAtomic = false)
    (body : Session → α × Session) :
    s.inAtomicRegion body = ((body s.entered).1, (body s.entered).2.left) := by
  rw [inAtomicRegion, hatomic]
  rfl

/-- If `s.engine = .recording r`, then `s.entered` has the recorder `r.record .atomicBegin`. -/
theorem engine_entered {s : Session} {r : Recorder} (hengine : s.engine = .recording r) :
    s.entered.engine = .recording (r.record .atomicBegin) := by
  rw [entered, hengine]
  rfl

/-- If the body of an outermost region only extends the recorder by `events`, the region extends it
by `.atomicBegin`, `events` and `.atomicEnd`. -/
theorem inAtomicRegion_of_outermost {α : Type} {s : Session} {r : Recorder}
    {body : Session → α × Session} (hatomic : s.inAtomic = false) {events : List Event}
    {warnings : List Warning}
    (hafter : (body s.entered).2
      = { s.entered with engine := .recording ((r.record .atomicBegin).extend events warnings) }) :
    s.inAtomicRegion body
      = ((body s.entered).1,
        { s with
          engine := .recording
            (r.extend (.atomicBegin :: (events ++ [.atomicEnd])) warnings) }) := by
  -- the ends of the region are events like those of the body
  have hbegin : (r.record .atomicBegin).extend events warnings
      = r.extend (.atomicBegin :: events) warnings := by
    rw [Recorder.record_eq, Recorder.extend_extend]
    rfl
  have hend : (r.extend (.atomicBegin :: events) warnings).record .atomicEnd
      = r.extend (.atomicBegin :: (events ++ [.atomicEnd])) warnings := by
    rw [Recorder.record_eq, Recorder.extend_extend, List.append_nil]
    rfl
  rw [inAtomicRegion_eq hatomic, hafter, ← hend, ← hbegin, hatomic]
  rfl

end Session

/-! ## What calls add -/

/-- The calls `made` over `s` with the recorder `r` lead to `s'`: the recorder got events and
warnings and nothing else changed, the buffers tracked by the events are those that `made` tracked,
and each call is `Lawful`. -/
def Adds (s : Session) (r : Recorder) (made : List Made) (s' : Session) : Prop :=
  ∃ events warnings,
    s' = { s with engine := .recording (r.extend events warnings) } ∧
    events.filterMap Event.tracked? = made.flatMap Made.tracked ∧
    ∀ m ∈ made, m.Lawful r.replays s.bound

namespace Adds

variable {s s' s'' : Session} {r : Recorder} {made made' : List Made}

/-- `Adds s r [] s`. -/
theorem refl (hengine : s.engine = .recording r) : Adds s r [] s := by
  refine ⟨[], [], ?_, rfl, fun m hm => by cases hm⟩
  rw [Recorder.extend_nil, ← hengine]

/-- `Adds` for `made` and then for `made'` gives it for `made ++ made'`. -/
theorem trans (h : Adds s r made s')
    (h' : ∀ r', s'.engine = .recording r' → r'.active = r.active → Adds s' r' made' s'') :
    Adds s r (made ++ made') s'' := by
  obtain ⟨events, warnings, rfl, htracked, hlawful⟩ := h
  obtain ⟨events', warnings', rfl, htracked', hlawful'⟩ := h' _ rfl rfl
  refine ⟨events ++ events', warnings ++ warnings', ?_, ?_, ?_⟩
  · rw [Recorder.extend_extend]
  · rw [List.filterMap_append, List.flatMap_append, htracked, htracked']
  · intro m hm
    rcases List.mem_append.1 hm with hm | hm
    · exact hlawful m hm
    · exact hlawful' m hm

/-- `Adds s r made s'` gives that all of `made` are `Lawful`. -/
theorem lawful (h : Adds s r made s') : ∀ m ∈ made, m.Lawful r.replays s.bound := by
  obtain ⟨-, -, -, -, hlawful⟩ := h
  exact hlawful

/-- `Adds s r made s'` over a fresh log gives that the recorder of `s'` tracked the buffers of
`made`. -/
theorem exists_recorder (h : Adds s r made s') (hlog : r.log = []) :
    ∃ r', s'.engine = .recording r' ∧ r'.tracked = made.flatMap Made.tracked := by
  obtain ⟨events, warnings, rfl, htracked, -⟩ := h
  refine ⟨r.extend events warnings, rfl, ?_⟩
  rw [Recorder.tracked_extend, Recorder.tracked_eq, hlog, htracked]
  rfl

/-- Over an active recorder `Adds s r [c.made s] (c.perform s).2`. -/
theorem call (hengine : s.engine = .recording r) (hactive : r.active = true) (c : Call) :
    Adds s r [c.made s] (c.perform s).2 := by
  have hperform := c.perform_of_active hengine hactive
  have hcall : (c.made s).call = c := rfl
  cases haccept : c.accept with
  | error error =>
    -- a refused call leaves the session, so its record holds no event
    simp only [haccept] at hperform
    have hevents : (c.made s).events = [] := by
      rw [Call.made, hperform]
      exact List.drop_length
    refine ⟨[], [], ?_, ?_, ?_⟩
    · rw [hperform, Recorder.extend_nil, ← hengine]
    · rw [List.flatMap_singleton, Made.tracked, hevents]
    · intro m hm
      rw [List.mem_singleton.1 hm, Made.Lawful, hcall, haccept]
      exact ⟨by rw [Call.made, hperform], hevents⟩
  | ok _ =>
    simp only [haccept] at hperform
    let buffers := c.buffers s.bound (c.result r.replays)
    have hevents : (c.made s).events = buffers.flatMap Buffer.events := by
      rw [Call.made, hperform, hengine]
      exact List.drop_left
    refine ⟨(c.made s).events, buffers.flatMap (Buffer.warnings r.replays), ?_, ?_, ?_⟩
    · rw [hevents, hperform]
      rfl
    · rw [List.flatMap_singleton, Made.tracked]
    · intro m hm
      rw [List.mem_singleton.1 hm, Made.Lawful, hcall, haccept]
      exact ⟨by rw [Call.made, hperform], hevents⟩

/-- `inAtomicRegion` adds what its body adds: `.atomicBegin` and `.atomicEnd` track nothing. -/
theorem region {body : Session → List Made × Session} (hengine : s.engine = .recording r)
    (hactive : r.active = true)
    (hbody : ∀ t q, t.engine = .recording q → q.active = true →
      Adds t q (body t).1 (body t).2) :
    Adds s r (s.inAtomicRegion body).1 (s.inAtomicRegion body).2 := by
  cases hatomic : s.inAtomic with
  | true =>
    rw [Session.inAtomicRegion, if_pos hatomic]
    exact hbody s r hengine hactive
  | false =>
    obtain ⟨events, warnings, hafter, htracked, hlawful⟩ :=
      hbody s.entered (r.record .atomicBegin) (Session.engine_entered hengine) hactive
    rw [Session.inAtomicRegion_of_outermost hatomic hafter]
    refine ⟨.atomicBegin :: (events ++ [.atomicEnd]), warnings, rfl, ?_, hlawful⟩
    rw [List.filterMap_cons, List.filterMap_append, htracked]
    exact List.append_nil _

end Adds

/-! ## Runs -/

namespace Program

/-- Runs a program over a session: the records of its calls in order, and the session after them. -/
def run : Program → Session → List Made × Session
  | done, s => ([], s)
  | call c next, s =>
    let (made, s') := next.run (c.perform s).2
    (c.made s :: made, s')
  | region body next, s =>
    let (made, s') := s.inAtomicRegion body.run
    let (made', s'') := next.run s'
    (made ++ made', s'')

/-- Over an active recorder `Adds s r (p.run s).1 (p.run s).2`. -/
theorem adds_run (p : Program) {s : Session} {r : Recorder} (hengine : s.engine = .recording r)
    (hactive : r.active = true) : Adds s r (p.run s).1 (p.run s).2 := by
  -- the recorder grows from call to call; its replays, on which the lawful results depend, do not
  induction p generalizing s r with
  | done => exact .refl hengine
  | call c next ih =>
    exact (Adds.call hengine hactive c).trans fun r' hengine' hactive' =>
      ih hengine' (hactive'.trans hactive)
  | region body next ihBody ihNext =>
    have hregion := Adds.region hengine hactive fun t q ht hq => ihBody ht hq
    exact hregion.trans fun r' hengine' hactive' => ihNext hengine' (hactive'.trans hactive)

end Program
end Concolic

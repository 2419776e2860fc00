import Concolic.Proofs.Sizes
import Concolic.Proofs.Soundness
import Concolic.Proofs.Steps

/-! # Marking without replays changes nothing

A marking copies the content of its value to a buffer, builds the value anew from what the engine
gives back and sets the size word from the number of elements. Without replays the engine gives back
what it got, so a value that counts its elements is built as it was. Values as they are made count
their elements, and every step keeps a state in which all slots hold such values
(`Script.State.Faithful`). So in a run that starts in one nothing changes by marking, and what is
assumed of the values holds, but for structures that have too many elements
(`Script.marks_transparent`). -/

namespace Concolic

/-! ## Calls without replays -/

/-- Without replays every buffer is `Unreplayed`. -/
theorem Unreplayed.nil (tracked : List (String × List UInt8)) : Unreplayed [] tracked :=
  fun _ _ _ hlookup => by cases hlookup

/-- `v.Counted` gives `v.Sized`. -/
theorem Value.Counted.sized {v : Value} (h : v.Counted) : v.Sized := by
  intro n hn
  cases v with
  | str word bytes =>
    cases hn
    exact h.size?_eq rfl
  | unicode word units =>
    cases hn
    exact h.size?_eq rfl
  | _ => cases hn

namespace Call

open Marking

/-- `a` asks of the structure of `c` to have fewer elements than it has: it has `bound` or more. -/
def Exceeds (c : Call) (bound : Int64) (a : Assumption) : Prop :=
  (c.value.kind = .dict ∨ c.value.kind = .tuple) ∧
    ∃ n : Nat, c.value.count? = some n ∧ bound.toInt ≤ n ∧ a = ⟨sizeWordOf n, .lt, bound⟩

/-- `c.result [] = c.value` if `c.value.Counted`. -/
theorem result_nil {c : Call} (h : c.value.Counted) : c.result [] = c.value := by
  have hsize (base : String) (word : Int64) : sizeRead [] base word = word := by
    have hread : Recorder.replayed [] (BufferName.ofSize base).text (LittleEndian.ofInt64 word)
        = LittleEndian.ofInt64 word := Recorder.replayed_eq_self fun _ hlookup => by cases hlookup
    rw [sizeRead, hread, LittleEndian.toInt64_ofInt64]
  have hafter (base : String) (p : SizePolicy) (word : Int64) : sizeAfter [] base p word = word :=
    sizeAfter_eq_self fun _ hlookup => by cases hlookup
  cases c with
  | int n base max min =>
    have hread : intRead [] base n = n := intRead_eq_self fun _ hlookup => by cases hlookup
    rw [result, hread]
    rfl
  | sequence memory v base max min =>
    cases v with
    | str word bytes =>
      have hread : bytesRead [] base bytes = bytes :=
        bytesRead_eq_self fun _ hlookup => by cases hlookup
      -- the size word is set anew, to what it was
      have hword : word = sizeWordOf bytes.length := Option.some.inj (h.size?_eq rfl)
      simp only [result, value, hread, hafter, ← hword]
    | unicode word units =>
      have hread : unitsRead [] base units = units :=
        unitsRead_eq_self fun _ hlookup => by cases hlookup
      have hword : word = sizeWordOf units.length := Option.some.inj (h.size?_eq rfl)
      simp only [result, value, hread, hafter, ← hword]
    | list word items => simp only [result, value, hafter]
    | dict word entries => simp only [result, value, hsize]
    | tuple word items => simp only [result, value, hsize]
    | _ => rfl

/-- If `word` counts the elements, the assumptions on `structureBuffer base bound word` hold, but
for the one that asks for fewer elements. -/
theorem structure_holds_or_exceeds {word bound : Int64} {n : Nat} (hword : word = sizeWordOf n)
    (hroom : n < lengthLimit) {a : Assumption} (base : String)
    (ha : a ∈ (structureBuffer base bound word).assumptions) :
    a.holds = true ∨ bound.toInt ≤ n ∧ a = ⟨sizeWordOf n, .lt, bound⟩ := by
  have hint : word.toInt = n := by
    rw [hword]
    exact toInt_sizeWordOf hroom
  rcases List.mem_cons.1 ha with rfl | ha
  · have hnonneg : (0 : Int64) ≤ word := by
      rw [Int64.le_iff_toInt_le, hint]
      exact Int.natCast_nonneg n
    exact .inl (decide_eq_true hnonneg)
  · rw [List.mem_singleton.1 ha]
    by_cases hbound : word < bound
    · exact .inl (decide_eq_true hbound)
    · rw [Int64.not_lt, Int64.le_iff_toInt_le, hint] at hbound
      exact .inr ⟨hbound, by rw [hword]⟩

/-- Without replays the assumptions of an accepted call with `c.value.Counted` hold, but for those
that `c.Exceeds`. -/
theorem holds_or_exceeds {c : Call} (haccept : c.accept = .ok ()) (hcounted : c.value.Counted)
    (hroom : ∀ n, c.value.count? = some n → n < lengthLimit) {bound : Int64} {a : Assumption}
    (ha : a ∈ (c.buffers bound (c.result [])).flatMap Buffer.assumptions) :
    a.holds = true ∨ c.Exceeds bound a := by
  -- the check before the first buffer guarantees the assumptions on all values but structures
  have hchecked (hdict : c.value.kind ≠ .dict) (htuple : c.value.kind ≠ .tuple) :
      a.holds = true := by
    have hfits : c.Fits := fits_of_sized haccept hcounted.sized
    exact (assumptions_hold_iff haccept hdict htuple (Unreplayed.nil _)).2 hfits a ha
  cases c with
  | int n base max min => exact .inl (hchecked (by rintro ⟨⟩) (by rintro ⟨⟩))
  | sequence memory v base max min =>
    cases v with
    | dict word entries =>
      rw [result_nil hcounted, value, buffers, List.flatMap_singleton] at ha
      have hword : word = sizeWordOf entries.length := Option.some.inj (hcounted.size?_eq rfl)
      rcases structure_holds_or_exceeds hword (hroom _ rfl) base ha with hholds | hexceeds
      · exact .inl hholds
      · exact .inr ⟨.inl rfl, entries.length, rfl, hexceeds⟩
    | tuple word items =>
      rw [result_nil hcounted, value, buffers, List.flatMap_singleton] at ha
      have hword : word = sizeWordOf items.length := Option.some.inj (hcounted.size?_eq rfl)
      rcases structure_holds_or_exceeds hword (hroom _ rfl) base ha with hholds | hexceeds
      · exact .inl hholds
      · exact .inr ⟨.inr rfl, items.length, rfl, hexceeds⟩
    | _ => exact .inl (hchecked (by rintro ⟨⟩) (by rintro ⟨⟩))

end Call

/-! ## Steps -/

/-- The engine of `s` has no replays. -/
def Session.Unaided (s : Session) : Prop := ∀ r, s.engine = .recording r → r.replays = []

namespace Session.Unaided

variable {s : Session}

/-- `s.Unaided` gives `(c.perform s).2.Unaided`. -/
theorem call (h : s.Unaided) (c : Call) : (c.perform s).2.Unaided := by
  rcases c.perform_cases s with ⟨error, hperform⟩ | ⟨r, hengine, -, -, hperform⟩
  · rw [hperform]
    exact h
  · rw [hperform]
    intro r' hr
    cases hr
    exact h r hengine

/-- To record an event keeps `Unaided`. -/
theorem record {s' : Session} (h : s.Unaided) {e : Event}
    (hengine : s'.engine = s.engine.update (·.record e)) : s'.Unaided := by
  intro r' hr
  rw [hengine] at hr
  cases hs : s.engine with
  | idle =>
    rw [hs] at hr
    cases hr
  | recording r =>
    rw [hs] at hr
    cases hr
    exact h r hs

/-- If `s.Unaided` and `c.value.Counted`, a call that gives `v` gives `v = c.value`. -/
theorem eq_of_perform (h : s.Unaided) {c : Call} (hcounted : c.value.Counted) {v : Value}
    {s' : Session} (hperform : c.perform s = (.ok v, s')) : v = c.value := by
  obtain ⟨r, hengine, -, -, hresult, -⟩ := Call.perform_eq_ok hperform
  rw [hresult, h r hengine]
  exact Call.result_nil hcounted

end Session.Unaided

namespace Script

/-- What a step puts into a slot, an item or an entry is `Built`. -/
def Step.Builds : Step → Prop
  | .bind _ value => value.Built
  | .push _ item => item.Built
  | .insert _ key value => key.Built ∧ value.Built
  | _ => True

namespace State

/-- In `s` there are no replays, and all slots hold values that are `Built`. -/
structure Faithful (s : State) : Prop where
  /-- The engine has no replays. -/
  unaided : s.session.Unaided
  /-- The slots hold values as they are made. -/
  built : ∀ slot v, s.get? slot = some v → v.Built

namespace Faithful

variable {s : State}

/-- A state with the slots of a `Faithful` one and an `Unaided` session is `Faithful`. -/
theorem of_slots (h : s.Faithful) {s' : State} (hunaided : s'.session.Unaided)
    (hslots : s'.slots = s.slots) : s'.Faithful := by
  refine ⟨hunaided, fun slot v hv => h.built slot v ?_⟩
  rw [get?, hslots] at hv
  exact hv

end Faithful
end State

/-- `step.call? s` is the call of an integer, or that of the sequence in a slot. -/
theorem call?_cases {s : State} {step : Step} {c : Call} (hcall : step.call? s = some c) :
    (∃ n name max min, step = .markInt n name max min ∧ c = .int n name max min) ∨
      ∃ memory slot name max min v, step = .markSequence memory slot name max min ∧
        s.get? slot = some v ∧ c = .sequence memory v name max min := by
  cases step with
  | markInt n name max min =>
    cases hcall
    exact .inl ⟨n, name, max, min, rfl, rfl⟩
  | markSequence memory slot name max min =>
    obtain ⟨v, hv, rfl⟩ := Option.map_eq_some_iff.1 hcall
    exact .inr ⟨memory, slot, name, max, min, v, rfl, hv, rfl⟩
  | _ => cases hcall

/-- `s.Faithful` and `step.call? s = some c` give `c.value.Built`. -/
theorem built_of_call? {s : State} (h : s.Faithful) {step : Step} {c : Call}
    (hcall : step.call? s = some c) : c.value.Built := by
  rcases call?_cases hcall with ⟨n, name, max, min, -, rfl⟩ |
    ⟨memory, slot, name, max, min, v, -, hv, rfl⟩
  · exact .int n
  · exact h.built slot v hv

/-- In a `Faithful` state a marking that gives `.marked v'` gives what its slot holds, and leaves it
there. -/
theorem eq_of_marked {s : State} (h : s.Faithful) {memory : Allocator} {slot name : String}
    {max min : Int64} {v' : Value}
    (hmarked : (perform s (.markSequence memory slot name max min)).1 = .marked v') :
    s.get? slot = some v' ∧
      (perform s (.markSequence memory slot name max min)).2.get? slot = some v' := by
  rw [perform] at hmarked ⊢
  cases hslot : s.get? slot with
  | none =>
    rw [hslot] at hmarked
    cases hmarked
  | some v =>
    simp only [hslot] at hmarked ⊢
    split at hmarked
    · rename_i result session hmark
      have hresult : result = v' := Outcome.marked.inj hmarked
      have hcounted : v.Counted := (h.built slot v hslot).counted
      have heq : result = v :=
        h.unaided.eq_of_perform (c := .sequence memory v name max min) hcounted
          (Call.perform_of_markSequence hmark)
      refine ⟨congrArg some (heq.symm.trans hresult), ?_⟩
      rw [State.get?_set_self, hresult]
    · cases hmarked

/-- In a `Faithful` state a marking that gives `.int n'` gives `n' = n`. -/
theorem eq_of_int {s : State} (h : s.Faithful) {n n' : Int32} {name : String} {max min : Int32}
    (hint : (perform s (.markInt n name max min)).1 = .int n') : n' = n := by
  rw [perform] at hint
  split at hint
  · rename_i result session hmark
    have hresult : result = n' := Outcome.int.inj hint
    have hcounted : (Call.int n name max min).value.Counted := (Value.Built.int n).counted
    have hperform : (Call.int n name max min).perform s.session = (.ok (.int n'), session) := by
      rw [Call.perform, hmark, hresult]
      rfl
    exact Value.int.inj (h.unaided.eq_of_perform hcounted hperform)
  · cases hint

/-- A step with `leavesEngine` and `Builds` keeps a state `Faithful`. -/
theorem State.Faithful.perform {s : State} (h : s.Faithful) {step : Step}
    (hleaves : step.leavesEngine = true) (hbuilds : step.Builds) :
    (perform s step).2.Faithful := by
  have hunaided : (Script.perform s step).2.session.Unaided := by
    rw [session_perform hleaves]
    cases step.call? s with
    | none => exact h.unaided
    | some c => exact h.unaided.call c
  refine ⟨hunaided, ?_⟩
  intro slot v hv
  rcases puts_or_held hv with hputs | ⟨slot', hheld⟩
  · cases hputs with
    | bind _ value => exact hbuilds
    | @marked memory _ name max min w _ _ hslot hmark =>
      -- the marking gives the value that was in the slot
      have hsame : v = w := h.unaided.eq_of_perform (c := .sequence memory w name max min)
        (h.built _ w hslot).counted (Call.perform_of_markSequence hmark)
      rw [hsame]
      exact h.built _ w hslot
    | push item hslot => exact .push (h.built _ _ hslot) hbuilds
    | insert key value hslot => exact .insert (h.built _ _ hslot) hbuilds.1 hbuilds.2
  · exact h.built slot' v hheld

/-! ## Runs -/

namespace Performed

/-- The step `p` adds the assumption `a` by the call that it makes. -/
def Assumes (p : Performed) (a : Assumption) : Prop :=
  ∃ c r, p.step.call? p.before = some c ∧ p.before.session.engine = .recording r ∧
    c.accept = .ok () ∧
    a ∈ (c.buffers p.before.session.bound (c.result r.replays)).flatMap Buffer.assumptions

/-- In a `Faithful` state the assumptions of a step hold, but for the one that asks a table or a
tuple to have fewer elements than it has. -/
theorem Assumes.holds_or_exceeds {p : Performed} {a : Assumption} (h : p.Assumes a)
    (hbefore : p.before.Faithful)
    (hroom : ∀ slot v n, p.before.get? slot = some v → v.count? = some n → n < lengthLimit) :
    a.holds = true ∨
      ∃ memory slot name max min v, ∃ n : Nat, p.step = .markSequence memory slot name max min ∧
        p.before.get? slot = some v ∧ (v.kind = .dict ∨ v.kind = .tuple) ∧
        v.count? = some n ∧ p.before.session.bound.toInt ≤ n ∧
        a = ⟨sizeWordOf n, .lt, p.before.session.bound⟩ := by
  obtain ⟨c, r, hcall, hengine, haccept, ha⟩ := h
  have hcounted : c.value.Counted := (built_of_call? hbefore hcall).counted
  -- without replays every buffer is read back as it was
  rw [hbefore.unaided r hengine] at ha
  rcases call?_cases hcall with ⟨n, name, max, min, -, rfl⟩ |
    ⟨memory, slot, name, max, min, v, hstep, hv, rfl⟩
  · -- an integer has no elements, and it is no structure
    have hroom : ∀ k, (Call.int n name max min).value.count? = some k → k < lengthLimit := by
      rintro k ⟨⟩
    rcases Call.holds_or_exceeds haccept hcounted hroom ha with hholds | ⟨hkind | hkind, -⟩
    · exact .inl hholds
    · cases hkind
    · cases hkind
  · have hroom : ∀ k, v.count? = some k → k < lengthLimit := fun k => hroom slot v k hv
    rcases Call.holds_or_exceeds haccept hcounted hroom ha with
      hholds | ⟨hkind, n, hcount, hexceeds, ha⟩
    · exact .inl hholds
    · exact .inr ⟨memory, slot, name, max, min, v, n, hstep, hv, hkind, hcount, hexceeds, ha⟩

end Performed

/-- Every assumption that a step adds to the log is one that it `Assumes`. -/
theorem assumes_of_mem_log {s : State} {step : Step} (hleaves : step.leavesEngine = true)
    {a : Assumption} (ha : .assumed a ∈ (perform s step).2.session.engine.log) :
    .assumed a ∈ s.session.engine.log ∨ (Performed.mk s step).Assumes a := by
  rw [session_perform hleaves] at ha
  cases hcall : step.call? s with
  | none =>
    rw [hcall] at ha
    exact .inl ha
  | some c =>
    simp only [hcall] at ha
    -- a call that is refused adds nothing, and one that is accepted the buffers of its result
    rcases c.perform_cases s.session with ⟨error, hperform⟩ | ⟨r, hengine, -, haccept, hperform⟩
    · rw [hperform] at ha
      exact .inl ha
    · rw [hperform] at ha
      rcases List.mem_append.1 ha with ha | ha
      · rw [hengine]
        exact .inl ha
      · rw [Event.assumed_mem_iff, assumed_flatMap_events] at ha
        exact .inr ⟨c, r, hcall, hengine, haccept, ha⟩

/-- The steps `ps` lead from `s`, where it is `Faithful`, to `s'` with the same bound. All of them
are performed in such states, and the assumptions that are added are those of their calls. -/
structure Follows (s : State) (ps : List Performed) (s' : State) : Prop where
  /-- The state after the steps is faithful. -/
  faithful : s'.Faithful
  /-- The bound stays. -/
  bound : s'.session.bound = s.session.bound
  /-- The steps are performed in faithful states, and lead to such. -/
  performed : ∀ p ∈ ps,
    p.before.Faithful ∧ p.after.Faithful ∧ p.before.session.bound = s.session.bound
  /-- The assumptions are those of the steps. -/
  assumed : ∀ a, .assumed a ∈ s'.session.engine.log →
    .assumed a ∈ s.session.engine.log ∨ ∃ p ∈ ps, p.Assumes a

/-- Runs from `Faithful` states, of steps with `leavesEngine` and `Builds`, compose to `Follows`. -/
theorem composes_follows : Composes fun s ps s' =>
    (∀ p ∈ ps, p.step.leavesEngine = true ∧ p.step.Builds) → s.Faithful → Follows s ps s' where
  refl s _ hs := ⟨hs, rfl, by simp, fun a ha => .inl ha⟩
  trans {s s' s'' ps ps'} h h' hsteps hs := by
    -- the rest starts in the faithful state that the first steps lead to
    have hfirst := h (fun p hp => hsteps p (List.mem_append_left _ hp)) hs
    have hrest := h' (fun p hp => hsteps p (List.mem_append_right _ hp)) hfirst.faithful
    refine ⟨hrest.faithful, hrest.bound.trans hfirst.bound, ?_, ?_⟩
    · intro p hp
      rcases List.mem_append.1 hp with hp | hp
      · exact hfirst.performed p hp
      · obtain ⟨hbefore, hafter, hbound⟩ := hrest.performed p hp
        exact ⟨hbefore, hafter, hbound.trans hfirst.bound⟩
    · intro a ha
      rcases hrest.assumed a ha with ha | ⟨p, hp, hassumes⟩
      · rcases hfirst.assumed a ha with ha | ⟨p, hp, hassumes⟩
        · exact .inl ha
        · exact .inr ⟨p, List.mem_append_left _ hp, hassumes⟩
      · exact .inr ⟨p, List.mem_append_right _ hp, hassumes⟩
  perform s step hsteps hs := by
    obtain ⟨hleaves, hbuilds⟩ := hsteps _ List.mem_cons_self
    have hafter : (perform s step).2.Faithful := hs.perform hleaves hbuilds
    refine ⟨hafter, bound_perform s step, ?_, ?_⟩
    · intro p hp
      rw [List.mem_singleton.1 hp]
      exact ⟨hs, hafter, rfl⟩
    · intro a ha
      rcases assumes_of_mem_log hleaves ha with ha | hassumes
      · exact .inl ha
      · exact .inr ⟨_, List.mem_cons_self, hassumes⟩
  told h hsteps hs := by
    have hrun := h hsteps hs
    exact ⟨hrun.faithful.of_slots hrun.faithful.unaided rfl, hrun.bound, hrun.performed,
      hrun.assumed⟩
  region {s s' ps} hatomic h hsteps hs := by
    have hentered : s.entered.Faithful := hs.of_slots (hs.unaided.record rfl) rfl
    have hbody := h hsteps hentered
    have hleft : s'.left.Faithful := hbody.faithful.of_slots (hbody.faithful.unaided.record rfl) rfl
    refine ⟨hleft, hbody.bound, hbody.performed, ?_⟩
    intro a ha
    -- the begin and the end of the region are no assumptions
    have hmem (t : Session) {e : Event} (he : e ≠ .assumed a)
        (ha : .assumed a ∈ (t.engine.update (·.record e)).log) : .assumed a ∈ t.engine.log := by
      rcases t.engine.log_record e with hlog | hlog
      · rwa [hlog] at ha
      · rw [hlog] at ha
        rcases List.mem_append.1 ha with ha | ha
        · exact ha
        · exact absurd (List.mem_singleton.1 ha).symm he
    exact (hbody.assumed a (hmem s'.session (by simp) ha)).imp (hmem s.session (by simp)) id

/-- **Marking is transparent without replays.** In a run over a recorder without replays, of
markings, copies, appended items and set keys, with values that are `Built`, every object held at
any point, or inside one held, has its number of elements as its size word; a marking that gives a
sequence gives the one that it was given and keeps it in the slot, and one that gives an integer
gives the one that it was given. If no object that is held has more elements than memory can hold,
every assumption in the log holds, but for those that ask a table or a tuple to have fewer elements
than it has. -/
theorem marks_transparent {s : State} {r : Recorder} {stopsOnError : Bool} {steps : List Step}
    (hengine : s.session.engine = .recording r) (hreplays : r.replays = []) (hlog : r.log = [])
    (hslots : ∀ slot v, s.get? slot = some v → v.Built)
    (hsteps : ∀ p ∈ performedAll s stopsOnError steps,
      p.step.leavesEngine = true ∧ p.step.Builds) :
    let ps := performedAll s stopsOnError steps
    let s' := (runAll s stopsOnError steps).2.2
    ((∀ p ∈ ps, ∀ slot v, p.before.get? slot = some v ∨ p.after.get? slot = some v → v.Exact) ∧
      ∀ slot v, s'.get? slot = some v → v.Exact) ∧
    (∀ p ∈ ps, ∀ memory slot name max min v', p.step = .markSequence memory slot name max min →
      p.outcome = .marked v' → p.before.get? slot = some v' ∧ p.after.get? slot = some v') ∧
    (∀ p ∈ ps, ∀ n name max min n', p.step = .markInt n name max min →
      p.outcome = .int n' → n' = n) ∧
    ((∀ p ∈ ps, ∀ slot v n, p.before.get? slot = some v → v.count? = some n → n < lengthLimit) →
      ∀ a, .assumed a ∈ s'.session.engine.log → a.holds = true ∨
        ∃ p ∈ ps, ∃ memory slot name max min v, ∃ n : Nat,
          p.step = .markSequence memory slot name max min ∧
          p.before.get? slot = some v ∧ (v.kind = .dict ∨ v.kind = .tuple) ∧
          v.count? = some n ∧ s.session.bound.toInt ≤ n ∧
          a = ⟨sizeWordOf n, .lt, s.session.bound⟩) := by
  intro ps s'
  -- all that follows is read off the states in which the steps are performed
  have hstart : s.Faithful := by
    refine ⟨?_, hslots⟩
    intro r' hr
    rw [hengine] at hr
    cases hr
    exact hreplays
  have hrun : Follows s ps s' := composes_follows.runAll s stopsOnError steps hsteps hstart
  refine ⟨⟨?_, ?_⟩, ?_, ?_, ?_⟩
  · intro p hp slot v hv
    obtain ⟨hbefore, hafter, -⟩ := hrun.performed p hp
    rcases hv with hv | hv
    · exact (hbefore.built slot v hv).counted.exact
    · exact (hafter.built slot v hv).counted.exact
  · intro slot v hv
    exact (hrun.faithful.built slot v hv).counted.exact
  · intro p hp memory slot name max min v' hstep hmarked
    rw [Performed.outcome, hstep] at hmarked
    rw [Performed.after, hstep]
    exact eq_of_marked (hrun.performed p hp).1 hmarked
  · intro p hp n name max min n' hstep hint
    rw [Performed.outcome, hstep] at hint
    exact eq_of_int (hrun.performed p hp).1 hint
  · intro hroom a ha
    rcases hrun.assumed a ha with ha | ⟨p, hp, hassumes⟩
    · -- the log was empty
      rw [hengine, Engine.log, hlog] at ha
      cases ha
    · obtain ⟨hbefore, -, hbound⟩ := hrun.performed p hp
      rw [← hbound]
      rcases hassumes.holds_or_exceeds hbefore (hroom p hp) with hholds | hexceeds
      · exact .inl hholds
      · exact .inr ⟨p, hp, hexceeds⟩

/-- A string, and a table with one entry more than the bound allows. The assumption that asks for
fewer entries fails, and the others hold. -/
theorem marks_transparent_table :
    let s : State := ⟨⟨.recording {}, 1, false⟩, fun _ => none, 0, 0⟩
    let table : Value := (Dict.ofEntries [(.int 1, .none), (.int 2, .ofBytes [104])]).value
    let steps : List Step := [.bind "t" (.ofBytes [104, 105]), .markSequence .unlimited "t" "s" 8 1,
      .bind "d" table, .markSequence .unlimited "d" "d" 0 0]
    let s' := (runAll s false steps).2.2
    (∀ slot v, s'.get? slot = some v → v.Exact) ∧ s'.get? "d" = some table ∧
      s'.session.engine.log
        = [.tracked "s.s#value" [104, 105], .tracked "s.l#size" [2, 0, 0, 0, 0, 0, 0, 0],
          .assumed ⟨2, .le, 8⟩, .assumed ⟨2, .ge, 1⟩,
          .tracked "d.l#size" [2, 0, 0, 0, 0, 0, 0, 0], .assumed ⟨2, .ge, 0⟩,
          .assumed ⟨2, .lt, 1⟩] := by
  intro s table steps s'
  have htable : table.Built := by
    apply Value.Built.ofEntries
    · simpa using ⟨Value.Built.int 1, Value.Built.int 2⟩
    · simpa using ⟨Value.Built.none, Value.Built.ofBytes [104]⟩
  -- the steps bind values that are built, and mark
  have hall : ∀ step ∈ steps, step.leavesEngine = true ∧ step.Builds := by
    intro step hstep
    simp only [steps, List.mem_cons, List.not_mem_nil, or_false] at hstep
    rcases hstep with rfl | rfl | rfl | rfl
    · exact ⟨rfl, .ofBytes _⟩
    · exact ⟨rfl, trivial⟩
    · exact ⟨rfl, htable⟩
    · exact ⟨rfl, trivial⟩
  have hperformed : (performedAll s false steps).map Performed.step = steps := rfl
  have hsteps : ∀ p ∈ performedAll s false steps, p.step.leavesEngine = true ∧ p.step.Builds := by
    intro p hp
    apply hall
    rw [← hperformed]
    exact List.mem_map_of_mem hp
  have hslots : ∀ slot v, s.get? slot = some v → v.Built := fun _ _ hv => by cases hv
  obtain ⟨⟨-, hexact⟩, -⟩ := marks_transparent (s := s) rfl rfl rfl hslots hsteps
  exact ⟨hexact, rfl, by decide +kernel⟩

end Script
end Concolic

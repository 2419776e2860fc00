import Concolic.Proofs.Steps

/-! # Assumptions are on the buffer tracked last

The engine ties an assumption to the symbolic value that was read last, so an assumption has to be
about the buffer tracked just before it. In the log of a run that leaves the engine to the session,
the events come in blocks: a begin or an end of a region alone, or a buffer with at most two
assumptions behind it, each on the number that the bytes of the buffer spell (`Attributed`). What
stands before an assumption in such a log is read off its block. -/

namespace Concolic

/-- Whether an event adds an assumption. -/
def Event.isAssumed : Event → Bool
  | tracked _ _ => false
  | assumed _ => true
  | atomicBegin => false
  | atomicEnd => false

/-- The number that a value is. -/
def BufferValue.number? : BufferValue → Option Int64
  | integer n => some n.toInt64
  | sizeWord n => some n
  | byteString _ => none
  | wideString _ => none
  | byteArray _ => none

/-- `bytes`, tracked under `name`, spell the value of `a`: by `name` they are an integer or a size,
and they read as the number that `a` is about. -/
def Spells (name : String) (bytes : List UInt8) (a : Assumption) : Prop :=
  ∃ parts value, BufferName.decode name = .ok parts ∧
    (parts.tag = Tag.int.char ∧ parts.field = BufferName.valueQualifier ∨
      parts.tag = Tag.size.char ∧ parts.field = BufferName.sizeQualifier) ∧
    BufferValue.ofBytes bytes parts.tag = .ok value ∧ value.number? = some a.value

/-! ## Buffers with their assumptions -/

/-- A buffer is numbered if it has at most two assumptions and they are on the integer or the size
that it holds. -/
structure Buffer.Numbered (b : Buffer) : Prop where
  /-- There are at most two assumptions. -/
  count : b.assumptions.length ≤ 2
  /-- What they are on is an integer or a size. -/
  part : b.assumptions ≠ [] →
    b.value.tag = .int ∧ b.qualifier = BufferName.valueQualifier ∨
      b.value.tag = .size ∧ b.qualifier = BufferName.sizeQualifier
  /-- They are on the number that the buffer holds. -/
  number : ∀ a ∈ b.assumptions, b.value.number? = some a.value

namespace Buffer.Numbered

open Marking

/-- `Marking.intBuffer base max min n` is `Numbered`. -/
theorem intBuffer (base : String) (max min n : Int32) :
    (intBuffer base max min n).Numbered := by
  by_cases hmin : min ≤ max
  · constructor <;> simp [Marking.intBuffer, hmin, BufferValue.tag, BufferValue.number?]
  · constructor <;> simp [Marking.intBuffer, hmin]

/-- `Marking.valueBuffer base value` is `Numbered`: it has no assumptions. -/
theorem valueBuffer (base : String) (value : BufferValue) : (valueBuffer base value).Numbered := by
  constructor <;> simp [Marking.valueBuffer]

/-- `Marking.sizeBuffer base p word` is `Numbered`. -/
theorem sizeBuffer (base : String) (p : SizePolicy) (word : Int64) :
    (sizeBuffer base p word).Numbered := by
  cases p <;> constructor <;>
    simp [Marking.sizeBuffer, SizePolicy.assumptions, BufferValue.tag, BufferValue.number?]

/-- `Marking.structureBuffer base bound word` is `Numbered`. -/
theorem structureBuffer (base : String) (bound word : Int64) :
    (structureBuffer base bound word).Numbered := by
  constructor <;> simp [Marking.structureBuffer, BufferValue.tag, BufferValue.number?]

/-- All of `Marking.sizeBuffers base p word` are `Numbered`. -/
theorem of_mem_sizeBuffers {base : String} {p : SizePolicy} {word : Int64} {b : Buffer}
    (h : b ∈ sizeBuffers base p word) : b.Numbered := by
  rw [sizeBuffers] at h
  split at h
  · rw [List.mem_singleton.1 h]
    exact sizeBuffer base p word
  · cases h

/-- All of `c.buffers bound v` are `Numbered`. -/
theorem of_mem_buffers {c : Call} {bound : Int64} {v : Value} {b : Buffer}
    (h : b ∈ c.buffers bound v) : b.Numbered := by
  rw [Call.buffers.eq_def] at h
  -- one case for each kind of value that has buffers, and one for the calls that leave none
  split at h
  · rw [List.mem_singleton.1 h]
    exact intBuffer _ _ _ _
  · rcases List.mem_cons.1 h with rfl | h
    · exact valueBuffer _ _
    · exact of_mem_sizeBuffers h
  · rcases List.mem_cons.1 h with rfl | h
    · exact valueBuffer _ _
    · exact of_mem_sizeBuffers h
  · exact of_mem_sizeBuffers h
  · rw [List.mem_singleton.1 h]
    exact structureBuffer _ _ _
  · rw [List.mem_singleton.1 h]
    exact structureBuffer _ _ _
  · cases h

/-- If the name of a `Numbered` buffer can be given, the bytes of `b` spell the value of each of its
assumptions. -/
theorem spells {b : Buffer} (h : b.Numbered) (hname : b.name.encode = .ok b.name.text)
    {a : Assumption} (ha : a ∈ b.assumptions) : Spells b.name.text b.value.toBytes a := by
  refine ⟨⟨b.base, b.qualifier, b.value.tag.char⟩, b.value, BufferName.decode_of_encode hname, ?_,
    b.value.ofBytes_toBytes, h.number a ha⟩
  rcases h.part (List.ne_nil_of_mem ha) with ⟨htag, hpart⟩ | ⟨htag, hpart⟩
  · exact .inl ⟨congrArg Tag.char htag, hpart⟩
  · exact .inr ⟨congrArg Tag.char htag, hpart⟩

end Buffer.Numbered

/-! ## Logs in blocks -/

/-- Events in which every assumption is on the buffer tracked before it. -/
inductive Attributed : List Event → Prop where
  /-- There are no events. -/
  | nil : Attributed []
  /-- A begin or an end of a region stands alone. -/
  | region {e : Event} {rest : List Event} (he : e = .atomicBegin ∨ e = .atomicEnd)
      (h : Attributed rest) : Attributed (e :: rest)
  /-- A buffer is followed by the assumptions on it. -/
  | buffer {name : String} {bytes : List UInt8} {assumptions : List Assumption} {rest : List Event}
      (hspells : ∀ a ∈ assumptions, Spells name bytes a) (hcount : assumptions.length ≤ 2)
      (h : Attributed rest) : Attributed (.tracked name bytes :: (assumptions.map .assumed ++ rest))

namespace Attributed

variable {events events' : List Event}

/-- `Attributed events` and `Attributed events'` give `Attributed (events ++ events')`. -/
theorem append (h : Attributed events) (h' : Attributed events') :
    Attributed (events ++ events') := by
  induction h with
  | nil => exact h'
  | region he _ ih => exact .region he ih
  | buffer hspells hcount _ ih =>
    rw [List.cons_append, List.append_assoc]
    exact .buffer hspells hcount ih

/-- The events of `Numbered` buffers whose names can be given are `Attributed`. -/
theorem of_buffers {buffers : List Buffer}
    (h : ∀ b ∈ buffers, b.Numbered ∧ b.name.encode = .ok b.name.text) :
    Attributed (buffers.flatMap Buffer.events) := by
  induction buffers with
  | nil => exact .nil
  | cons b buffers ih =>
    obtain ⟨hnumbered, hname⟩ := h b List.mem_cons_self
    have hrest := ih fun b' hb => h b' (List.mem_cons_of_mem _ hb)
    exact .buffer (fun a ha => hnumbered.spells hname ha) hnumbered.count hrest

/-- `Attributed` events do not start with an assumption. -/
theorem takeWhile_eq_nil (h : Attributed events) : events.takeWhile Event.isAssumed = [] := by
  cases h with
  | nil => rfl
  | region he _ => rcases he with rfl | rfl <;> rfl
  | buffer _ _ _ => rfl

/-- In `assumptions.map .assumed ++ rest` an event `e` is one of `rest`, or one of `assumptions`
with only assumptions before it. -/
theorem mem_assumptions_or_behind {assumptions : List Assumption} {rest before after : List Event}
    {e : Event} (h : assumptions.map .assumed ++ rest = before ++ e :: after) :
    (∃ before', before = assumptions.map .assumed ++ before' ∧ rest = before' ++ e :: after) ∨
      ∃ a ∈ assumptions, e = .assumed a ∧ ∀ e' ∈ before, e'.isAssumed = true := by
  -- where `before` ends: behind the block of assumptions, or with the rest `block` of it to come
  rcases List.append_eq_append_iff.1 h with ⟨before', hbefore, hbehind⟩ | ⟨block, hblock, hbehind⟩
  · exact .inl ⟨before', hbefore, hbehind⟩
  · cases block with
    | nil =>
      rw [List.append_nil] at hblock
      exact .inl ⟨[], by rw [hblock, List.append_nil], hbehind.symm⟩
    | cons e' block =>
      obtain ⟨rfl, -⟩ := List.cons.inj hbehind
      have hmem : e ∈ assumptions.map Event.assumed := by
        rw [hblock]
        exact List.mem_append_right _ List.mem_cons_self
      obtain ⟨a, ha, hassumed⟩ := List.mem_map.1 hmem
      refine .inr ⟨a, ha, hassumed.symm, ?_⟩
      intro e' he
      have hmem : e' ∈ assumptions.map Event.assumed := by
        rw [hblock]
        exact List.mem_append_left _ he
      obtain ⟨b, -, rfl⟩ := List.mem_map.1 hmem
      rfl

/-- The closest event before `.assumed a` that is no assumption is some `.tracked name bytes` with
`Spells name bytes a`. -/
theorem find?_before (h : Attributed events) {before after : List Event} {a : Assumption}
    (hevents : events = before ++ .assumed a :: after) :
    ∃ name bytes, before.reverse.find? (fun e => !e.isAssumed) = some (.tracked name bytes) ∧
      Spells name bytes a := by
  -- the first block ends before the assumption, or the assumption is in it
  induction h generalizing before with
  | nil => simp at hevents
  | region he _ ih =>
    cases before with
    | nil => rcases he with rfl | rfl <;> cases hevents
    | cons e before =>
      obtain ⟨rfl, hrest⟩ := List.cons.inj hevents
      obtain ⟨name, bytes, hfind, hspells⟩ := ih hrest
      refine ⟨name, bytes, ?_, hspells⟩
      rw [List.reverse_cons, List.find?_append, hfind]
      rfl
  | @buffer name bytes assumptions rest hspells _ _ ih =>
    cases before with
    | nil => cases hevents
    | cons e before =>
      obtain ⟨rfl, hrest⟩ := List.cons.inj hevents
      rcases mem_assumptions_or_behind hrest with
        ⟨before', rfl, hbehind⟩ | ⟨b, hb, hassumed, hbetween⟩
      · obtain ⟨name', bytes', hfind, hspells'⟩ := ih hbehind
        refine ⟨name', bytes', ?_, hspells'⟩
        rw [List.reverse_cons, List.reverse_append, List.append_assoc, List.find?_append, hfind]
        rfl
      · -- only assumptions stand between the buffer and this one
        cases hassumed
        have hnone : before.reverse.find? (fun e => !e.isAssumed) = none := by
          apply List.find?_eq_none.2
          intro e he
          simp [hbetween e (List.mem_reverse.1 he)]
        refine ⟨name, bytes, ?_, hspells a hb⟩
        rw [List.reverse_cons, List.find?_append, hnone]
        rfl

/-- At most two assumptions follow `.tracked name bytes`. -/
theorem length_takeWhile_le (h : Attributed events) {before after : List Event} {name : String}
    {bytes : List UInt8} (hevents : events = before ++ .tracked name bytes :: after) :
    (after.takeWhile Event.isAssumed).length ≤ 2 := by
  induction h generalizing before with
  | nil => simp at hevents
  | region he _ ih =>
    cases before with
    | nil => rcases he with rfl | rfl <;> cases hevents
    | cons e before => exact ih (List.cons.inj hevents).2
  | @buffer name' bytes' assumptions rest _ hcount hrest ih =>
    cases before with
    | nil =>
      -- the assumptions of the block end where the next block starts
      obtain ⟨-, rfl⟩ := List.cons.inj hevents
      have hassumed : ∀ e ∈ assumptions.map Event.assumed, e.isAssumed = true := by
        intro e he
        obtain ⟨a, -, rfl⟩ := List.mem_map.1 he
        rfl
      rw [List.takeWhile_append_of_pos hassumed, hrest.takeWhile_eq_nil, List.append_nil,
        List.length_map]
      exact hcount
    | cons e before =>
      rcases mem_assumptions_or_behind (List.cons.inj hevents).2 with
        ⟨before', -, hbehind⟩ | ⟨a, -, hassumed, -⟩
      · exact ih hbehind
      · cases hassumed

end Attributed

/-! ## Runs -/

/-- `s` goes on to `s'` by adding `Attributed` events to the log. -/
def Session.Attributes (s s' : Session) : Prop :=
  ∃ events, s'.engine.log = s.engine.log ++ events ∧ Attributed events

namespace Session.Attributes

variable {s s' s'' : Session}

/-- `Session.Attributes` is reflexive: nothing is added. -/
theorem refl (s : Session) : s.Attributes s := ⟨[], (List.append_nil _).symm, .nil⟩

/-- `Session.Attributes` is transitive. -/
theorem trans (h : s.Attributes s') (h' : s'.Attributes s'') : s.Attributes s'' := by
  obtain ⟨events, hlog, hevents⟩ := h
  obtain ⟨events', hlog', hevents'⟩ := h'
  exact ⟨events ++ events', by rw [hlog', hlog, List.append_assoc], hevents.append hevents'⟩

/-- `c.perform s` adds the blocks of its buffers. -/
theorem call (c : Call) (s : Session) : s.Attributes (c.perform s).2 := by
  rcases c.perform_cases s with ⟨error, hperform⟩ | ⟨r, hengine, -, haccept, hperform⟩
  · rw [hperform]
    exact .refl s
  · rw [hperform]
    refine ⟨_, by rw [hengine]; rfl, Attributed.of_buffers ?_⟩
    intro b hb
    exact ⟨.of_mem_buffers hb, Call.encode_of_mem_buffers haccept hb⟩

/-- To record `.atomicBegin` or `.atomicEnd` adds a block. -/
theorem record {e : Event} (he : e = .atomicBegin ∨ e = .atomicEnd)
    (hengine : s'.engine = s.engine.update (·.record e)) : s.Attributes s' := by
  rw [Attributes, hengine]
  rcases s.engine.log_record e with hlog | hlog
  · exact ⟨[], by rw [hlog, List.append_nil], .nil⟩
  · exact ⟨[e], hlog, .region he .nil⟩

end Session.Attributes

namespace Script

/-- Runs whose steps leave the engine to the session compose to `Session.Attributes`. -/
theorem composes_attributes : Composes fun s ps s' =>
    (∀ p ∈ ps, p.step.leavesEngine = true) → s.session.Attributes s'.session where
  refl s _ := .refl s.session
  trans h h' hleaves :=
    (h fun p hp => hleaves p (List.mem_append_left _ hp)).trans
      (h' fun p hp => hleaves p (List.mem_append_right _ hp))
  perform s step hleaves := by
    rw [session_perform (hleaves _ List.mem_cons_self)]
    cases step.call? s with
    | none => exact .refl s.session
    | some c => exact .call c s.session
  told h hleaves := h hleaves
  region {s s' ps} _ h hleaves := by
    have hbegin : s.session.Attributes s.session.entered := .record (.inl rfl) rfl
    have hend : s'.session.Attributes s'.session.left := .record (.inr rfl) rfl
    exact hbegin.trans ((h hleaves).trans hend)

/-- **Assumptions are about the buffer tracked last.** In the log of a run whose steps all have
`leavesEngine`, the closest event before an `.assumed a` that is no assumption itself is some
`.tracked name bytes` of an integer or a size, and `bytes` spell the value of `a`. At most two
assumptions follow a tracked buffer. -/
theorem assumptions_attributed {s : State} {stopsOnError : Bool} {steps : List Step}
    (hlog : s.session.engine.log = [])
    (hleaves : ∀ p ∈ performedAll s stopsOnError steps, p.step.leavesEngine = true) :
    let log := (runAll s stopsOnError steps).2.2.session.engine.log
    (∀ before a after, log = before ++ .assumed a :: after →
      ∃ name bytes, before.reverse.find? (fun e => !e.isAssumed) = some (.tracked name bytes) ∧
        Spells name bytes a) ∧
    ∀ before name bytes after, log = before ++ .tracked name bytes :: after →
      (after.takeWhile Event.isAssumed).length ≤ 2 := by
  intro log
  obtain ⟨events, hevents, hblocks⟩ := composes_attributes.runAll s stopsOnError steps hleaves
  rw [hlog, List.nil_append] at hevents
  exact ⟨fun before a after h => hblocks.find?_before (hevents.symm.trans h),
    fun before name bytes after h => hblocks.length_takeWhile_le (hevents.symm.trans h)⟩

/-- An integer with a replay, in a region, and a string. The second assumption on the integer is
about the number that the replay spells. -/
theorem assumptions_attributed_replayed :
    let replays : Replays := [("n.i#value", [7, 0, 0, 0])]
    let s : State := ⟨⟨.recording { replays := replays }, 1000, false⟩, fun _ => none, 0, 0⟩
    let steps : List Step := [.atomic [.markInt 5 "n" 10 0] false false true,
      .bind "t" (.ofBytes [104, 105]), .markSequence .unlimited "t" "s" 0 1]
    (runAll s false steps).2.2.session.engine.log
        = [.atomicBegin, .tracked "n.i#value" [7, 0, 0, 0], .assumed ⟨7, .ge, 0⟩]
          ++ .assumed ⟨7, .le, 10⟩ :: [.atomicEnd, .tracked "s.s#value" [104, 105],
            .tracked "s.l#size" [2, 0, 0, 0, 0, 0, 0, 0], .assumed ⟨2, .ge, 1⟩] ∧
      Spells "n.i#value" [7, 0, 0, 0] ⟨7, .le, 10⟩ := by
  intro replays s steps
  have hrun : (runAll s false steps).2.2.session.engine.log
      = [.atomicBegin, .tracked "n.i#value" [7, 0, 0, 0], .assumed ⟨7, .ge, 0⟩]
        ++ .assumed ⟨7, .le, 10⟩ :: [.atomicEnd, .tracked "s.s#value" [104, 105],
          .tracked "s.l#size" [2, 0, 0, 0, 0, 0, 0, 0], .assumed ⟨2, .ge, 1⟩] := by
    decide +kernel
  obtain ⟨hbefore, -⟩ := assumptions_attributed (s := s) rfl
    (show ∀ p ∈ performedAll s false steps, p.step.leavesEngine = true by decide +kernel)
  obtain ⟨name, bytes, hfind, hspells⟩ := hbefore _ _ _ hrun
  cases hfind
  exact ⟨hrun, hspells⟩

end Script
end Concolic

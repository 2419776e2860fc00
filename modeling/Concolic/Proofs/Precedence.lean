import Concolic.Proofs.Calls

/-! # Which refusal counts

More than one thing can stand against the marking of a sequence: the engine, the bounds, the kind of
the value, its size, the names of its buffers and the memory for its copy. `Session.objections`
lists all that does, in the order in which it counts, and each entry is there for a reason of its
own, whatever the others are. The marking fails with the first objection, and it succeeds if there
is none (`Session.markSequence_precedence`). -/

namespace Concolic

/-- The outcome of checks with these objections: the first one counts, and `.ok ()` if there is
none. -/
def firstOf : List MarkError → Except MarkError Unit
  | [] => .ok ()
  | error :: _ => .error error

/-- `firstOf (errors ++ errors')` is the first of `errors'` only if there are no `errors`. -/
theorem firstOf_append (errors errors' : List MarkError) :
    firstOf (errors ++ errors')
      = match firstOf errors with
        | .error error => .error error
        | .ok () => firstOf errors' := by
  cases errors with
  | nil => rfl
  | cons error errors => rfl

/-- `firstOf` of one error that is there if `p`. -/
theorem firstOf_ite (p : Prop) [Decidable p] (error : MarkError) :
    firstOf (if p then [error] else []) = if p then .error error else .ok () := by
  split
  · rfl
  · rfl

/-! ## Objections -/

namespace Kind

/-- The tag of the buffer for the content, where values of a kind have a flat one. -/
def contentTag? : Kind → Option Tag
  | str => some .str
  | unicode => some .unicode
  | _ => Option.none

/-- Whether values of a kind are structures, whose size is kept below the bound of the session. -/
def isStructure : Kind → Bool
  | dict => true
  | tuple => true
  | _ => false

/-- Whether the bounds of a call are on the size of values of a kind. -/
def isBounded : Kind → Bool
  | str => true
  | unicode => true
  | list => true
  | _ => false

/-- What stands against marking values of a kind as sequences. -/
def objections : Kind → List MarkError
  | none => [.nullValue]
  | int => [.unsupportedKind int]
  | float => [.unsupportedKind float]
  | byteArray => [.unsupportedKind byteArray]
  | _ => []

/-- The names of the buffers for values of a kind: one for a flat content, and one for the size. The
size of a structure always has one, and that of other sequences unless the maximum is negative. -/
def bufferNames (k : Kind) (base : String) (max : Int64) : List BufferName :=
  (k.contentTag?.toList.map fun tag => ⟨base, BufferName.valueQualifier, tag⟩)
    ++ if k.isStructure ∨ k.isBounded ∧ 0 ≤ max then [⟨base, BufferName.sizeQualifier, .size⟩]
      else []

end Kind

/-- `size` is outside what `max` and `min` allow. A negative `max` allows every size, and a zero one
every size from `min` on. -/
def OutOfBounds (max min size : Int64) : Prop :=
  0 ≤ max ∧ (size < min ∨ 0 < max ∧ max < size)

instance (max min size : Int64) : Decidable (OutOfBounds max min size) :=
  inferInstanceAs (Decidable (_ ∧ _))

/-- What stands against `size` under the bounds. The violation tells `max` if it is positive. -/
def sizeObjections (max min size : Int64) : List MarkError :=
  if OutOfBounds max min size then
    [.rangeViolation .size size min (if 0 < max then some max else none)]
  else []

/-- What stands against the recorded size of `v` under the bounds. -/
def Value.sizeObjections (v : Value) (max min : Int64) : List MarkError :=
  if v.kind.isBounded then v.size?.toList.flatMap (Concolic.sizeObjections max min) else []

/-- What stands against the name `n`: the error of `n.encode`. -/
def BufferName.objections (n : BufferName) : List MarkError :=
  match n.encode with
  | .error error => [.name error]
  | .ok _ => []

/-- What stands against `v` and the bounds of a call. -/
def Value.objections (v : Value) (max min : Int64) : List MarkError :=
  (if min < 0 then [.invalidSize min] else []) ++ (v.kind.objections ++ v.sizeObjections max min)

/-- What stands against the copy of `v`: the memory that `memory` refuses. -/
def Value.memoryObjections (v : Value) (memory : Allocator) : List MarkError :=
  v.copied?.toList.flatMap fun bytes => if memory.grants bytes then [] else [.outOfMemory bytes]

/-- What stands against marking a sequence, whatever the memory, in the order in which it counts. -/
def Session.refusals (s : Session) (v : Value) (base : String) (max min : Int64) :
    List MarkError :=
  (if s.engine.active then [] else [.engineInactive])
    ++ (v.objections max min ++ (v.kind.bufferNames base max).flatMap BufferName.objections)

/-- All that stands against marking a sequence, in the order in which it counts. -/
def Session.objections (s : Session) (memory : Allocator) (v : Value) (base : String)
    (max min : Int64) : List MarkError :=
  s.refusals v base max min ++ v.memoryObjections memory

/-! ## Checks by their objections -/

/-- `acceptNames names` fails with the first objection to one of `names`. -/
theorem acceptNames_eq_firstOf (names : List BufferName) :
    acceptNames names = firstOf (names.flatMap BufferName.objections) := by
  induction names with
  | nil => rfl
  | cons n names ih =>
    rw [acceptNames, List.flatMap_cons, BufferName.objections, firstOf_append]
    cases n.encode with
    | error error => rfl
    | ok name => exact ih

/-- `(SizePolicy.of max min).check size` fails with the first of `sizeObjections max min size`. -/
theorem SizePolicy.check_eq_firstOf (max min size : Int64) :
    (SizePolicy.of max min).check size = firstOf (sizeObjections max min size) := by
  rw [sizeObjections, firstOf_ite, SizePolicy.of]
  by_cases hneg : max < 0
  · -- a fixed size is never refused
    have hout : ¬ OutOfBounds max min size := fun h => absurd h.1 (Int64.not_le.2 hneg)
    rw [if_pos hneg, if_neg hout]
    rfl
  · have hmax : 0 ≤ max := Int64.not_lt.1 hneg
    rw [if_neg hneg]
    by_cases hzero : max = 0
    · have hpos : ¬ (0 : Int64) < max := by
        rw [hzero]
        decide
      have hout : OutOfBounds max min size ↔ ¬ min ≤ size := by
        simp [OutOfBounds, hmax, hpos, Int64.not_le]
      simp only [if_pos hzero, if_neg hpos, hout, check, ite_not]
    · have hpos : 0 < max := Int64.lt_of_le_of_ne hmax (Ne.symm hzero)
      have hout : OutOfBounds max min size ↔ ¬ (min ≤ size ∧ size ≤ max) := by
        rw [OutOfBounds, Decidable.not_and_iff_or_not, Int64.not_le, Int64.not_le]
        simp only [hmax, hpos, true_and]
      simp only [if_neg hzero, if_pos hpos, hout, check, ite_not]

namespace Call

/-- `(sequence memory v base max min).check` fails with the first of `v.objections max min`. -/
theorem check_eq_firstOf (memory : Allocator) (v : Value) (base : String) (max min : Int64) :
    (sequence memory v base max min).check = firstOf (v.objections max min) := by
  have hsize := SizePolicy.check_eq_firstOf max min
  rw [Value.objections, firstOf_append, firstOf_ite]
  by_cases hmin : min < 0
  · simp only [check, if_pos hmin]
  · rw [if_neg hmin]
    cases v with
    | str | unicode | list =>
      -- the bounds of the call are on the size of these, and on nothing of the others
      simp [check, hmin, hsize, Value.kind, Kind.objections, Value.sizeObjections, Kind.isBounded,
        Value.size?]
    | _ =>
      simp only [check, if_neg hmin]
      rfl

/-- `(sequence memory v base max min).names = v.kind.bufferNames base max`. -/
theorem names_eq_bufferNames (memory : Allocator) (v : Value) (base : String) (max min : Int64) :
    (sequence memory v base max min).names = v.kind.bufferNames base max := by
  have htracked : (SizePolicy.of max min).names base
      = if 0 ≤ max then [.ofSize base] else [] := by
    have hiff : (SizePolicy.of max min).tracked = true ↔ 0 ≤ max := by
      rw [SizePolicy.tracked_of_iff, Int64.not_lt]
    simp only [SizePolicy.names, hiff]
  cases v with
  | str word bytes => simp [names, htracked, Kind.bufferNames, Value.kind, Kind.contentTag?,
      Kind.isStructure, Kind.isBounded, BufferName.ofValue, BufferName.ofSize]
  | unicode word units => simp [names, htracked, Kind.bufferNames, Value.kind, Kind.contentTag?,
      Kind.isStructure, Kind.isBounded, BufferName.ofValue, BufferName.ofSize]
  | list word items => simp [names, htracked, Kind.bufferNames, Value.kind, Kind.contentTag?,
      Kind.isStructure, Kind.isBounded, BufferName.ofSize]
  | _ => rfl

/-- `(sequence memory v base max min).reserve` fails with the first of
`v.memoryObjections memory`. -/
theorem reserve_eq_firstOf (memory : Allocator) (v : Value) (base : String) (max min : Int64) :
    (sequence memory v base max min).reserve = firstOf (v.memoryObjections memory) := by
  simp only [reserve, Value.memoryObjections]
  cases v.copied? with
  | none => rfl
  | some bytes =>
    simp only [Option.toList_some, List.flatMap_singleton, Allocator.reserve]
    cases memory.grants bytes with
    | false => rfl
    | true => rfl

/-- `(sequence memory v base max min).accept` fails with the first objection to the value, the names
and the memory, in this order. -/
theorem accept_eq_firstOf (memory : Allocator) (v : Value) (base : String) (max min : Int64) :
    (sequence memory v base max min).accept
      = firstOf (v.objections max min
          ++ (v.kind.bufferNames base max).flatMap BufferName.objections
          ++ v.memoryObjections memory) := by
  rw [accept, check_eq_firstOf, names_eq_bufferNames, reserve_eq_firstOf, firstOf_append,
    firstOf_append, ← acceptNames_eq_firstOf]
  cases firstOf (v.objections max min) with
  | error error => rfl
  | ok _ => rfl

end Call

/-! ## Precedence -/

namespace Session

/-- `markSequence` fails with the first of `s.objections` and leaves `v` and `s`, or there is none
and it succeeds. -/
theorem markSequence_cases (s : Session) (memory : Allocator) (v : Value) (base : String)
    (max min : Int64) :
    (∃ error errors, s.objections memory v base max min = error :: errors ∧
      s.markSequence memory v base max min = (.error error, v, s)) ∨
      s.objections memory v base max min = [] ∧
        ∃ v' s', s.markSequence memory v base max min = (.ok (), v', s') := by
  unfold objections refusals
  rcases s.engine.inactive_or_recording with hinactive | ⟨r, hengine, hactive⟩
  · have hmark := Call.markSequence_of_inactive hinactive memory v base max min
    rw [hinactive]
    exact .inl ⟨.engineInactive, _, rfl, hmark⟩
  · have hmark := Call.markSequence_of_active hengine hactive memory v base max min
    have hengaged : s.engine.active = true := by
      rw [hengine]
      exact hactive
    rw [Call.accept_eq_firstOf] at hmark
    simp only [hengaged, if_true, List.nil_append]
    cases hobjections : v.objections max min
        ++ (v.kind.bufferNames base max).flatMap BufferName.objections
        ++ v.memoryObjections memory with
    | nil =>
      rw [hobjections] at hmark
      exact .inr ⟨rfl, _, _, hmark⟩
    | cons error errors =>
      rw [hobjections] at hmark
      exact .inl ⟨error, errors, rfl, hmark⟩

/-- `s.objections memory v base max min = s.refusals v base max min` if `memory` grants the copy. -/
theorem objections_eq_refusals (s : Session) {memory : Allocator} {v : Value}
    (hmemory : ∀ bytes, v.copied? = some bytes → memory.grants bytes = true) (base : String)
    (max min : Int64) : s.objections memory v base max min = s.refusals v base max min := by
  unfold objections Value.memoryObjections
  cases hcopied : v.copied? with
  | none => exact List.append_nil _
  | some bytes =>
    rw [Option.toList_some, List.flatMap_singleton, hmemory bytes hcopied, if_pos rfl,
      List.append_nil]

/-- For a structure `markSequence` depends neither on `max` and `min`, if `min` is not negative, nor
on `memory`. -/
theorem markSequence_of_isStructure (s : Session) {v : Value} (hkind : v.kind.isStructure = true)
    (base : String) {memory memory' : Allocator} {max min max' min' : Int64} (hmin : 0 ≤ min)
    (hmin' : 0 ≤ min') :
    s.markSequence memory' v base max' min' = s.markSequence memory v base max min := by
  have hvalid : ¬ min < 0 := Int64.not_lt.2 hmin
  have hvalid' : ¬ min' < 0 := Int64.not_lt.2 hmin'
  -- the bounds go into the policy alone, and no structure looks at that
  have hcall : ∀ c c' : Call, c = .sequence memory v base max min →
      c' = .sequence memory' v base max' min' → c'.perform s = c.perform s := by
    rintro c c' rfl rfl
    rcases s.engine.inactive_or_recording with hinactive | ⟨r, hengine, hactive⟩
    · rw [Call.perform_of_inactive hinactive, Call.perform_of_inactive hinactive]
    · rw [Call.perform_of_active hengine hactive, Call.perform_of_active hengine hactive]
      cases v with
      | dict used entries =>
        simp only [Call.accept, Call.check, if_neg hvalid, if_neg hvalid']
        rfl
      | tuple word items =>
        simp only [Call.accept, Call.check, if_neg hvalid, if_neg hvalid']
        rfl
      | _ => cases hkind
  rw [Call.markSequence_eq, Call.markSequence_eq, hcall _ _ rfl rfl]

/-- Over an active engine and with `max < 0` the marking of a list succeeds and changes nothing,
whatever `base` and `memory`. -/
theorem markSequence_of_fixed_list {s : Session} (hactive : s.engine.active = true)
    (memory : Allocator) (word : Int64) (items : List Value) (base : String) {max min : Int64}
    (hmax : max < 0) (hmin : 0 ≤ min) :
    s.markSequence memory (.list word items) base max min = (.ok (), .list word items, s) := by
  obtain ⟨r, hengine, hrecorder⟩ := Engine.eq_recording_of_active hactive
  have hvalid : ¬ min < 0 := Int64.not_lt.2 hmin
  have htracked : SizePolicy.of max min = .fixed := if_pos hmax
  have haccept : (Call.sequence memory (.list word items) base max min).accept = .ok () := by
    simp only [Call.accept, Call.check, if_neg hvalid, Call.names, htracked]
    rfl
  -- no buffer is held, and the recorder is put back
  have hmark := Call.markSequence_of_active hengine hrecorder memory (.list word items) base max min
  simp only [haccept, Call.result, Call.buffers, htracked] at hmark
  rw [hmark, Marking.sizeBuffers, Marking.sizeAfter]
  simp only [SizePolicy.tracked, Bool.false_eq_true, if_false, Recorder.hold_nil, ← hengine]

/-- **The marking of a sequence is decided by a fixed precedence.** It fails with `error` exactly if
`(s.objections memory v base max min).head? = some error`, and then the value and the session are
`(v, s)`; it succeeds exactly if `s.objections memory v base max min = []`. With the memory for the
copy given the objections are `s.refusals v base max min`. A table or a tuple is marked alike under
all allocators and all bounds with a minimum that is not negative, and over an active engine the
marking of a list with a negative maximum succeeds under every name and changes nothing. -/
theorem markSequence_precedence (s : Session) (memory : Allocator) (v : Value) (base : String)
    (max min : Int64) :
    (∀ error, (s.markSequence memory v base max min).1 = .error error ↔
      (s.objections memory v base max min).head? = some error) ∧
    (∀ error, (s.markSequence memory v base max min).1 = .error error →
      (s.markSequence memory v base max min).2 = (v, s)) ∧
    ((s.markSequence memory v base max min).1 = .ok () ↔
      s.objections memory v base max min = []) ∧
    ((∀ bytes, v.copied? = some bytes → memory.grants bytes = true) →
      s.objections memory v base max min = s.refusals v base max min) ∧
    ((v.kind = .dict ∨ v.kind = .tuple) → 0 ≤ min → ∀ memory' max' min', 0 ≤ min' →
      s.markSequence memory' v base max' min' = s.markSequence memory v base max min) ∧
    (v.kind = .list → s.engine.active = true → max < 0 → 0 ≤ min →
      s.markSequence memory v base max min = (.ok (), v, s)) := by
  -- the first three clauses are read off `markSequence_cases`
  refine ⟨?_, ?_, ?_, fun hmemory => s.objections_eq_refusals hmemory base max min, ?_, ?_⟩
  · intro error
    rcases s.markSequence_cases memory v base max min with
      ⟨error', errors, hobjections, hmark⟩ | ⟨hobjections, v', s', hmark⟩
    · simp [hobjections, hmark]
    · simp [hobjections, hmark]
  · intro error herror
    rcases s.markSequence_cases memory v base max min with
      ⟨error', errors, hobjections, hmark⟩ | ⟨hobjections, v', s', hmark⟩
    · rw [hmark]
    · rw [hmark] at herror
      cases herror
  · rcases s.markSequence_cases memory v base max min with
      ⟨error', errors, hobjections, hmark⟩ | ⟨hobjections, v', s', hmark⟩
    · simp [hobjections, hmark]
    · simp [hobjections, hmark]
  · intro hkind hmin memory' max' min' hmin'
    have hstructure : v.kind.isStructure = true := by
      rcases hkind with hkind | hkind <;> rw [hkind] <;> rfl
    exact s.markSequence_of_isStructure hstructure base hmin hmin'
  · intro hkind hactive hmax hmin
    cases v with
    | list word items => exact markSequence_of_fixed_list hactive memory word items base hmax hmin
    | _ => cases hkind

/-- A string that is too long for its maximum, under a name with a NUL and with no memory left: the
size counts before the names of both buffers, and these before the memory. A string that nothing but
the memory stands against is left as it was. A tuple of one element is marked alike with a greater
minimum, and a list of a fixed size is marked under the name that cannot be given. -/
theorem markSequence_precedence_faults :
    let s : Session := ⟨.recording {}, 1000, false⟩
    let base := "a\x00"
    let full : Allocator := fun _ => false
    (s.objections full (.ofBytes [104, 105]) base 1 0
        = [.rangeViolation .size 2 0 (some 1), .name (.malformed "a\x00.s#value" .interiorNul),
          .name (.malformed "a\x00.l#size" .interiorNul), .outOfMemory 2] ∧
      (s.markSequence full (.ofBytes [104, 105]) base 1 0).1
        = .error (.rangeViolation .size 2 0 (some 1)) ∧
      (s.markSequence full (.ofBytes [104, 105]) base 1 0).2 = (.ofBytes [104, 105], s)) ∧
    (s.markSequence full (.ofBytes [104, 105]) "s" 8 0).1 = .error (.outOfMemory 2) ∧
    (s.markSequence .unlimited (.ofBytes [104, 105]) "s" 8 0).1 = .ok () ∧
    s.markSequence full (.tupleOf [.none]) "t" 5 3
      = s.markSequence .unlimited (.tupleOf [.none]) "t" (-1) 0 ∧
    s.markSequence full (.ofItems [.none]) base (-1) 0 = (.ok (), .ofItems [.none], s) := by
  intro s base full
  have hobjections : s.objections full (.ofBytes [104, 105]) base 1 0
      = [.rangeViolation .size 2 0 (some 1), .name (.malformed "a\x00.s#value" .interiorNul),
        .name (.malformed "a\x00.l#size" .interiorNul), .outOfMemory 2] := by decide +kernel
  have hfull : s.objections full (.ofBytes [104, 105]) "s" 8 0 = [.outOfMemory 2] := by
    decide +kernel
  have hfree : s.refusals (.ofBytes [104, 105]) "s" 8 0 = [] := by decide +kernel
  -- with the objections computed, the theorem tells the outcomes
  obtain ⟨hfirst, hleft, -⟩ := markSequence_precedence s full (.ofBytes [104, 105]) base 1 0
  have herror : (s.markSequence full (.ofBytes [104, 105]) base 1 0).1
      = .error (.rangeViolation .size 2 0 (some 1)) := by
    rw [hfirst, hobjections]
    rfl
  obtain ⟨hmemory, -⟩ := markSequence_precedence s full (.ofBytes [104, 105]) "s" 8 0
  obtain ⟨-, -, hdone, hgiven, -⟩ :=
    markSequence_precedence s .unlimited (.ofBytes [104, 105]) "s" 8 0
  have hgrants : ∀ bytes, (Value.ofBytes [104, 105]).copied? = some bytes →
      Allocator.unlimited.grants bytes = true := by
    rintro bytes h
    cases h
    decide
  obtain ⟨-, -, -, -, halike, -⟩ :=
    markSequence_precedence s .unlimited (.tupleOf [.none]) "t" (-1) 0
  obtain ⟨-, -, -, -, -, hlist⟩ := markSequence_precedence s full (.ofItems [.none]) base (-1) 0
  refine ⟨⟨hobjections, herror, hleft _ herror⟩, ?_, hdone.2 ((hgiven hgrants).trans hfree),
    halike (.inr rfl) (by decide) full 5 3 (by decide), hlist rfl rfl (by decide) (by decide)⟩
  rw [hmemory, hfull]
  rfl

end Session
end Concolic

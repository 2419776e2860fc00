import Concolic.Proofs.Marking
import Concolic.Session.Basic

/-! # Calls of a session

A client makes a value symbolic by one of two calls. A call is refused for a reason that lies in the
call and the memory there is for it, or it is accepted, and then its result and the buffers that it
leaves in the log are known from the replays and the bound of the session
(`Call.perform_of_active`). The value of the client is returned either way, and it is the one that
was given where the call is refused. The buffers of a call spell its result: the value buffer the
content, and the size buffer the size word. -/

namespace Concolic

/-- The policy of the bounds `max` and `min`, if `min` is not negative. -/
def SizePolicy.of (max min : Int64) : SizePolicy :=
  if max < 0 then .fixed else if max = 0 then .atLeast min else .within min max

/-- `SizePolicy.ofBounds max min` is refused iff `min < 0`, and else it is
`SizePolicy.of max min`. -/
theorem SizePolicy.ofBounds_eq (max min : Int64) :
    SizePolicy.ofBounds max min
      = if min < 0 then .error (.invalidSize min) else .ok (SizePolicy.of max min) := by
  rw [ofBounds, SizePolicy.of]
  repeat' split
  all_goals rfl

/-- `SizePolicy.of max min` tracks the size unless `max < 0`. -/
theorem SizePolicy.tracked_of_iff (max min : Int64) :
    (SizePolicy.of max min).tracked = true ↔ ¬ max < 0 := by
  rw [SizePolicy.of]
  by_cases hneg : max < 0
  · simp [hneg, tracked]
  · by_cases hzero : max = 0
    · simp [hzero, tracked]
    · simp [hneg, hzero, tracked]

/-- The number of bytes that a flat content is copied into: each element of a byte string has one,
each unit of a wide string has four. -/
def Value.copied? : Value → Option Nat
  | .str _ bytes => some (Allocator.requested bytes.length 1)
  | .unicode _ units => some (Allocator.requested units.length 4)
  | _ => Option.none

/-- A call that makes a value symbolic. -/
inductive Call where
  /-- Makes an integer symbolic. -/
  | int (value : Int32) (base : String) (max min : Int32)
  /-- Makes a sequence symbolic, with the memory that the allocator has then. -/
  | sequence (memory : Allocator) (value : Value) (base : String) (max min : Int64)

namespace Call

open Marking

/-- The name of the object that a call makes symbolic. -/
def base : Call → String
  | int _ base _ _ => base
  | sequence _ _ base _ _ => base

/-- The value that a call is given. -/
def value : Call → Value
  | int n _ _ _ => .int n
  | sequence _ v _ _ _ => v

/-- Whether a call makes the size of its value symbolic. -/
def tracksSize : Call → Bool
  | int _ _ _ _ => false
  | sequence _ v _ max _ =>
    match v.kind with
    | .str => 0 ≤ max
    | .unicode => 0 ≤ max
    | .list => 0 ≤ max
    | .dict => true
    | .tuple => true
    | _ => false

/-- Makes a call: the value to go on with, unless it fails, and the session. -/
def perform (s : Session) : Call → Except MarkError Value × Session
  | int n base max min =>
    let (result, s') := s.markInt n base max min
    (result.map .int, s')
  | sequence memory v base max min =>
    let (result, v', s') := s.markSequence memory v base max min
    (result.map fun () => v', s')

/-! ## Acceptance -/

/-- What is asked of the value of a call: its size word, kind and bounds. -/
def check : Call → Except MarkError Unit
  | int n _ max min => checkRange n max min
  | sequence _ v _ max min =>
    if min < 0 then .error (.invalidSize min)
    else
      match v with
      | .none => .error .nullValue
      | .int _ => .error (.unsupportedKind .int)
      | .float _ => .error (.unsupportedKind .float)
      | .byteArray _ => .error (.unsupportedKind .byteArray)
      | .str word _ => (SizePolicy.of max min).check word
      | .unicode word _ => (SizePolicy.of max min).check word
      | .list word _ => (SizePolicy.of max min).check word
      | .dict _ _ => .ok ()
      | .tuple _ _ => .ok ()

/-- The names of the buffers that a call tracks, in order. -/
def names : Call → List BufferName
  | int _ base _ _ => [.ofValue base .int]
  | sequence _ v base max min =>
    match v with
    | .str _ _ => .ofValue base .str :: (SizePolicy.of max min).names base
    | .unicode _ _ => .ofValue base .unicode :: (SizePolicy.of max min).names base
    | .list _ _ => (SizePolicy.of max min).names base
    | .dict _ _ => [.ofSize base]
    | .tuple _ _ => [.ofSize base]
    | _ => []

/-- Asks for the memory that a call needs for a copy. -/
def reserve : Call → Except MarkError Unit
  | int _ _ _ _ => .ok ()
  | sequence memory v _ _ _ =>
    match v.copied? with
    | some bytes => memory.reserve bytes
    | none => .ok ()

/-- A call is accepted if its `check`, its `names` and its `reserve` pass, in this order. -/
def accept (c : Call) : Except MarkError Unit := Concolic.accept c.check c.names c.reserve

/-! ## Effect -/

/-- The result of a call that is accepted, with the contents that `replays` has for its buffers. -/
def result (replays : Replays) : Call → Value
  | int n base _ _ => .int (intRead replays base n)
  | sequence _ v base max min =>
    match v with
    | .str _ bytes =>
      let bytes' := bytesRead replays base bytes
      .str (sizeAfter replays base (.of max min) (sizeWordOf bytes'.length)) bytes'
    | .unicode _ units =>
      let units' := unitsRead replays base units
      .unicode (sizeAfter replays base (.of max min) (sizeWordOf units'.length)) units'
    | .list word items => .list (sizeAfter replays base (.of max min) word) items
    | .dict word entries => .dict (sizeRead replays base word) entries
    | .tuple word items => .tuple (sizeRead replays base word) items
    | v => v

/-- The buffers that a call leaves in the log, by its result; `bound` is that of the session. -/
def buffers (bound : Int64) : Call → Value → List Buffer
  | int _ base max min, .int n => [intBuffer base max min n]
  | sequence _ _ base max min, .str word bytes =>
    valueBuffer base (.byteString bytes) :: sizeBuffers base (.of max min) word
  | sequence _ _ base max min, .unicode word units =>
    valueBuffer base (.wideString units) :: sizeBuffers base (.of max min) word
  | sequence _ _ base max min, .list word _ => sizeBuffers base (.of max min) word
  | sequence _ _ base _ _, .dict word _ => [structureBuffer base bound word]
  | sequence _ _ base _ _, .tuple word _ => [structureBuffer base bound word]
  | _, _ => []

/-- The names of `sizeBuffers base policy word` are `policy.names base`. -/
theorem names_sizeBuffers (base : String) (policy : SizePolicy) (word : Int64) :
    (sizeBuffers base policy word).map Buffer.name = policy.names base := by
  rw [sizeBuffers, SizePolicy.names]
  cases policy.tracked <;> rfl

/-- The buffers of the result of `c` have the names `c.names`. -/
theorem names_buffers (replays : Replays) (bound : Int64) (c : Call) :
    (c.buffers bound (c.result replays)).map Buffer.name = c.names := by
  cases c with
  | int n base max min => rfl
  | sequence memory v base max min =>
    cases v with
    | str word bytes =>
      simp only [result, buffers, names, List.map_cons, names_sizeBuffers]
      rfl
    | unicode word units =>
      simp only [result, buffers, names, List.map_cons, names_sizeBuffers]
      rfl
    | list word items => simp only [result, buffers, names, names_sizeBuffers]
    | _ => rfl

/-- If `c.accept = .ok ()`, every buffer of the result of `c` has a name that can be given. -/
theorem encode_of_mem_buffers {c : Call} (h : c.accept = .ok ()) {replays : Replays} {bound : Int64}
    {b : Buffer} (hb : b ∈ c.buffers bound (c.result replays)) :
    b.name.encode = .ok b.name.text := by
  apply encode_of_acceptNames (accept_eq_ok_iff.1 h).2.1
  rw [← names_buffers replays bound c]
  exact List.mem_map_of_mem hb

/-! ## The equation of a call -/

/-- Over an engine that is not active `s.marking x m = (.error .engineInactive, x, s)`. -/
theorem marking_of_inactive {α β : Type} {s : Session} (h : s.engine.active = false) (x : α)
    (m : Marking α β) : s.marking x m = (.error .engineInactive, x, s) := by
  unfold Session.marking
  cases hengine : s.engine with
  | idle => rfl
  | recording r =>
    rw [hengine] at h
    exact if_neg (by rw [show r.active = false from h]; simp)

/-- Over an engine that is not active `markSequence` fails with `.engineInactive` and gives `v` and
`s` back. -/
theorem markSequence_of_inactive {s : Session} (h : s.engine.active = false) (memory : Allocator)
    (v : Value) (base : String) (max min : Int64) :
    s.markSequence memory v base max min = (.error .engineInactive, v, s) :=
  marking_of_inactive h v _

/-- Over an engine that is not active `c.perform s = (.error .engineInactive, s)`. -/
theorem perform_of_inactive {s : Session} (h : s.engine.active = false) (c : Call) :
    c.perform s = (.error .engineInactive, s) := by
  cases c with
  | int n base max min =>
    rw [perform, Session.markInt, marking_of_inactive h]
    rfl
  | sequence memory v base max min =>
    rw [perform, markSequence_of_inactive h]
    rfl

/-- Over an active recorder `r` the marking `m` is run on `x` and `r`. -/
theorem marking_of_active {α β : Type} {s : Session} {r : Recorder}
    (hengine : s.engine = .recording r) (hactive : r.active = true) (x : α) (m : Marking α β) :
    s.marking x m
      = match m.run (x, r) with
        | .ok result (x', r') => (.ok result, x', { s with engine := .recording r' })
        | .error error (x', r') => (.error error, x', { s with engine := .recording r' }) := by
  unfold Session.marking
  rw [hengine]
  exact if_pos hactive

/-- `Marking.sequence` under `.of max min` fails where the call is not accepted, and leaves `v` and
`r`; or else the result of the call takes the place of `v` and `r` holds its buffers. -/
theorem run_sequence (memory : Allocator) (v : Value) (base : String) (max min bound : Int64)
    (r : Recorder) (hmin : ¬ min < 0) :
    (Marking.sequence memory base (.of max min) bound).run (v, r)
      = match (sequence memory v base max min).accept with
        | .error error => .error error (v, r)
        | .ok () =>
          .ok () ((sequence memory v base max min).result r.replays,
            r.hold ((sequence memory v base max min).buffers bound
              ((sequence memory v base max min).result r.replays))) := by
  -- the kind of the value decides which marking is run
  have hheld : (held : Marking Value Value).run (v, r) = .ok v (v, r) := rfl
  unfold Marking.sequence
  rw [EStateM.run_bind, hheld]
  cases v with
  | none => simp only [accept, check, if_neg hmin]; rfl
  | int n => simp only [accept, check, if_neg hmin]; rfl
  | float x => simp only [accept, check, if_neg hmin]; rfl
  | byteArray bytes => simp only [accept, check, if_neg hmin]; rfl
  | str word bytes =>
    have hbytes : (BufferValue.byteString (bytesRead r.replays base bytes)).toBytes
        = Recorder.replayed r.replays (BufferName.ofValue base .str).text bytes := rfl
    have hrun := run_content (Value.str word bytes) memory (.of max min) 1 word List.length hbytes
    simp only [BufferValue.tag, BufferValue.toBytes] at hrun
    simp only [accept, check, if_neg hmin, names, reserve, Value.copied?, result, buffers,
      EStateM.run_bind, hrun]
    cases Concolic.accept ((SizePolicy.of max min).check word)
      (.ofValue base .str :: (SizePolicy.of max min).names base)
      (memory.reserve (Allocator.requested bytes.length 1)) with
    | error error => rfl
    | ok _ => rfl
  | unicode word units =>
    -- a replay of the same length has whole units too, so that the bytes read back spell a string
    have hbytes : (BufferValue.wideString (unitsRead r.replays base units)).toBytes
        = Recorder.replayed r.replays (BufferName.ofValue base .unicode).text
          (LittleEndian.ofUnits units) := ofUnits_unitsRead r.replays base units
    have hrun := run_content (Value.unicode word units) memory (.of max min) 4 word
      (fun bytes => (LittleEndian.toUnits bytes).length) hbytes
    simp only [BufferValue.tag, BufferValue.toBytes, LittleEndian.toUnits_ofUnits] at hrun
    simp only [accept, check, if_neg hmin, names, reserve, Value.copied?, result, buffers,
      EStateM.run_bind, hrun]
    cases Concolic.accept ((SizePolicy.of max min).check word)
      (.ofValue base .unicode :: (SizePolicy.of max min).names base)
      (memory.reserve (Allocator.requested units.length 4)) with
    | error error => rfl
    | ok _ => simp only [LittleEndian.toUnits_ofUnits]; rfl
  | list word items =>
    have hrun := run_list base (.of max min) word (Value.list · items) r
    simp only [accept, check, if_neg hmin, names, reserve, Value.copied?, result, buffers]
    exact hrun
  | dict word entries =>
    have hrun := run_structureSize base bound word (Value.dict · entries) r
    simp only [accept, check, if_neg hmin, names, reserve, Value.copied?, result, buffers,
      Concolic.accept]
    cases hnames : acceptNames [.ofSize base] with
    | error error => rw [hnames] at hrun; exact hrun
    | ok _ => rw [hnames] at hrun; exact hrun
  | tuple word items =>
    have hrun := run_structureSize base bound word (Value.tuple · items) r
    simp only [accept, check, if_neg hmin, names, reserve, Value.copied?, result, buffers,
      Concolic.accept]
    cases hnames : acceptNames [.ofSize base] with
    | error error => rw [hnames] at hrun; exact hrun
    | ok _ => rw [hnames] at hrun; exact hrun

/-- Over an active recorder `markSequence` fails where the call is not accepted, and leaves `v` and
`s`; or else the result of the call takes the place of `v` and the recorder holds its buffers. -/
theorem markSequence_of_active {s : Session} {r : Recorder} (hengine : s.engine = .recording r)
    (hactive : r.active = true) (memory : Allocator) (v : Value) (base : String)
    (max min : Int64) :
    s.markSequence memory v base max min
      = match (sequence memory v base max min).accept with
        | .error error => (.error error, v, s)
        | .ok () =>
          (.ok (), (sequence memory v base max min).result r.replays,
            { s with
              engine := .recording (r.hold ((sequence memory v base max min).buffers s.bound
                ((sequence memory v base max min).result r.replays))) }) := by
  -- a refused marking puts back the recorder that it took
  have hsame : { s with engine := .recording r } = s := by
    rw [← hengine]
  rw [Session.markSequence, marking_of_active hengine hactive, SizePolicy.ofBounds_eq max min]
  by_cases hmin : min < 0
  · simp only [if_pos hmin, accept, check, Concolic.accept]
    show (Except.error (MarkError.invalidSize min), v, { s with engine := .recording r }) = _
    rw [hsame]
  · simp only [if_neg hmin, run_sequence memory v base max min s.bound r hmin]
    cases (sequence memory v base max min).accept with
    | error error => simp only [hsame]
    | ok _ => rfl

/-- Over an active recorder `c.perform s` fails where `c.accept` does, and leaves `s`; or else it
gives `c.result r.replays` and the recorder holds its buffers. -/
theorem perform_of_active {s : Session} {r : Recorder} (hengine : s.engine = .recording r)
    (hactive : r.active = true) (c : Call) :
    c.perform s
      = match c.accept with
        | .error error => (.error error, s)
        | .ok () =>
          (.ok (c.result r.replays),
            { s with engine := .recording (r.hold (c.buffers s.bound (c.result r.replays))) }) := by
  cases c with
  | int n base max min =>
    -- a refused marking puts back the recorder that it took
    have hsame : { s with engine := .recording r } = s := by
      rw [← hengine]
    rw [perform, Session.markInt, marking_of_active hengine hactive, run_int]
    simp only [accept, check, names, reserve, result, buffers]
    cases Concolic.accept (checkRange n max min) [.ofValue base .int] (.ok ()) with
    | error error => simp only [hsame]; rfl
    | ok _ => rfl
  | sequence memory v base max min =>
    rw [perform, markSequence_of_active hengine hactive]
    cases (sequence memory v base max min).accept with
    | error error => rfl
    | ok _ => rfl

/-- `s.markSequence memory v base max min` is the call `sequence memory v base max min`, and gives
`v` back where that fails. -/
theorem markSequence_eq (s : Session) (memory : Allocator) (v : Value) (base : String)
    (max min : Int64) :
    s.markSequence memory v base max min
      = match (sequence memory v base max min).perform s with
        | (.ok v', s') => (.ok (), v', s')
        | (.error error, s') => (.error error, v, s') := by
  rcases s.engine.inactive_or_recording with hinactive | ⟨r, hengine, hactive⟩
  · rw [markSequence_of_inactive hinactive, perform_of_inactive hinactive]
  · rw [markSequence_of_active hengine hactive, perform_of_active hengine hactive]
    cases (sequence memory v base max min).accept with
    | error error => rfl
    | ok _ => rfl

/-- `c.perform s` fails and leaves `s`, or it is accepted over an active recorder, which then holds
the buffers of its result. -/
theorem perform_cases (c : Call) (s : Session) :
    (∃ error, c.perform s = (.error error, s)) ∨
      ∃ r, s.engine = .recording r ∧ r.active = true ∧ c.accept = .ok () ∧
        c.perform s
          = (.ok (c.result r.replays),
            { s with engine := .recording (r.hold (c.buffers s.bound (c.result r.replays))) }) := by
  rcases s.engine.inactive_or_recording with hinactive | ⟨r, hengine, hactive⟩
  · exact .inl ⟨_, perform_of_inactive hinactive c⟩
  · have hperform := c.perform_of_active hengine hactive
    cases haccept : c.accept with
    | error error =>
      rw [haccept] at hperform
      exact .inl ⟨error, hperform⟩
    | ok _ =>
      rw [haccept] at hperform
      exact .inr ⟨r, hengine, hactive, rfl, hperform⟩

/-- `(c.perform s).2.bound = s.bound`. -/
theorem bound_perform (c : Call) (s : Session) : (c.perform s).2.bound = s.bound := by
  rcases c.perform_cases s with ⟨error, hperform⟩ | ⟨r, -, -, -, hperform⟩
  · rw [hperform]
  · rw [hperform]

/-- `c.perform s` succeeds only over an active recorder and with `c.accept = .ok ()`. -/
theorem perform_eq_ok {c : Call} {s s' : Session} {v : Value} (h : c.perform s = (.ok v, s')) :
    ∃ r, s.engine = .recording r ∧ r.active = true ∧ c.accept = .ok () ∧ v = c.result r.replays ∧
      s' = { s with engine := .recording (r.hold (c.buffers s.bound (c.result r.replays))) } := by
  rcases c.perform_cases s with ⟨error, hperform⟩ | ⟨r, hengine, hactive, haccept, hperform⟩
  · rw [hperform] at h
    cases h
  · rw [hperform] at h
    obtain ⟨hv, hs⟩ := Prod.mk.inj h
    exact ⟨r, hengine, hactive, haccept, (Except.ok.inj hv).symm, hs.symm⟩

/-- If `c.perform s` fails, it leaves `s`. -/
theorem session_of_error {c : Call} {s : Session} {error : MarkError}
    (h : (c.perform s).1 = .error error) : (c.perform s).2 = s := by
  rcases c.perform_cases s with ⟨error', hperform⟩ | ⟨r, -, -, -, hperform⟩
  · rw [hperform]
  · rw [hperform] at h
    cases h

/-- If `s.markSequence memory v base max min = (.error error, v', s')`, then `v' = v` and
`s' = s`. -/
theorem eq_of_markSequence_error {s s' : Session} {memory : Allocator} {v v' : Value}
    {base : String} {max min : Int64} {error : MarkError}
    (h : s.markSequence memory v base max min = (.error error, v', s')) : v' = v ∧ s' = s := by
  rw [markSequence_eq] at h
  cases hperform : (sequence memory v base max min).perform s with
  | mk outcome session =>
    rw [hperform] at h
    cases outcome with
    | ok result => cases h
    | error error' =>
      have hsession := session_of_error (congrArg Prod.fst hperform)
      rw [hperform] at hsession
      cases h
      exact ⟨rfl, hsession⟩

/-- If `s.markSequence memory v base max min = (.ok (), v', s')`, the call
`sequence memory v base max min` gives `v'` and `s'`. -/
theorem perform_of_markSequence {s s' : Session} {memory : Allocator} {v v' : Value}
    {base : String} {max min : Int64}
    (h : s.markSequence memory v base max min = (.ok (), v', s')) :
    (sequence memory v base max min).perform s = (.ok v', s') := by
  rw [perform, h]
  rfl

end Call
end Concolic

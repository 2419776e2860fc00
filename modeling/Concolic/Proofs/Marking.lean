import Concolic.Proofs.Buffers
import Concolic.Session.Marking

/-! # What a marking does

Every marking first checks its value, its names and the memory for its copy and then holds its
buffers. The checks look neither at the place nor at the recorder, and what is held is known from
the replays. So each marking has one equation: over any place and recorder it fails with the error
of the checks and leaves both, or it gives its result and the recorder holds the buffers of that
result. -/

namespace Concolic

/-! ## Names and policies -/

/-- The name `base.tag#value` of the buffer for an object's content. -/
def BufferName.ofValue (base : String) (tag : Tag) : BufferName :=
  ⟨base, BufferName.valueQualifier, tag⟩

/-- The name `base.l#size` of the buffer for an object's size. -/
def BufferName.ofSize (base : String) : BufferName := ⟨base, BufferName.sizeQualifier, .size⟩

/-- `.ok ()` if all of `names` can be given, or the error of the first that cannot. -/
def acceptNames : List BufferName → Except MarkError Unit
  | [] => .ok ()
  | n :: names =>
    match n.encode with
    | .error error => .error (.name error)
    | .ok _ => acceptNames names

/-- `acceptNames (n :: names) = .ok ()` iff `n.encode = .ok n.text` and
`acceptNames names = .ok ()`. -/
theorem acceptNames_cons_eq_ok_iff {n : BufferName} {names : List BufferName} :
    acceptNames (n :: names) = .ok () ↔ n.encode = .ok n.text ∧ acceptNames names = .ok () := by
  rw [acceptNames]
  cases h : n.encode with
  | error error => simp
  | ok name =>
    rw [BufferName.eq_text_of_encode h]
    simp

/-- The checks of a marking in order: `checked` of the value, then `names`, and at last `room` for a
copy. -/
def accept (checked : Except MarkError Unit) (names : List BufferName)
    (room : Except MarkError Unit) : Except MarkError Unit :=
  match checked with
  | .error error => .error error
  | .ok () =>
    match acceptNames names with
    | .error error => .error error
    | .ok () => room

/-- `accept checked names room = .ok ()` iff all three are `.ok ()`. -/
theorem accept_eq_ok_iff {checked : Except MarkError Unit} {names : List BufferName}
    {room : Except MarkError Unit} :
    accept checked names room = .ok () ↔
      checked = .ok () ∧ acceptNames names = .ok () ∧ room = .ok () := by
  unfold accept
  cases checked with
  | error error => simp
  | ok _ => cases acceptNames names <;> simp

/-- If `acceptNames names = .ok ()`, then `n.encode = .ok n.text` for all `n ∈ names`. -/
theorem encode_of_acceptNames {names : List BufferName} (h : acceptNames names = .ok ())
    {n : BufferName} (hn : n ∈ names) : n.encode = .ok n.text := by
  induction names with
  | nil => cases hn
  | cons m names ih =>
    obtain ⟨hm, hnames⟩ := acceptNames_cons_eq_ok_iff.1 h
    rcases List.mem_cons.1 hn with rfl | hn
    · exact hm
    · exact ih hnames hn

/-- The name of the size buffer, where `p` makes the size symbolic. -/
def SizePolicy.names (p : SizePolicy) (base : String) : List BufferName :=
  if p.tracked then [.ofSize base] else []

namespace Marking

/-! ## What is read back -/

/-- The integer `n` read back from its buffer. -/
def intRead (replays : Replays) (base : String) (n : Int32) : Int32 :=
  LittleEndian.toInt32
    (Recorder.replayed replays (BufferName.ofValue base .int).text (LittleEndian.ofInt32 n))

/-- The bytes of a byte string read back from their buffer. -/
def bytesRead (replays : Replays) (base : String) (bytes : List UInt8) : List UInt8 :=
  Recorder.replayed replays (BufferName.ofValue base .str).text bytes

/-- The units of a wide string read back from their buffer. -/
def unitsRead (replays : Replays) (base : String) (units : List UInt32) : List UInt32 :=
  LittleEndian.toUnits
    (Recorder.replayed replays (BufferName.ofValue base .unicode).text
      (LittleEndian.ofUnits units))

/-- The size word `word` read back from its buffer. -/
def sizeRead (replays : Replays) (base : String) (word : Int64) : Int64 :=
  LittleEndian.toInt64
    (Recorder.replayed replays (BufferName.ofSize base).text (LittleEndian.ofInt64 word))

/-- If the replay of the size buffer is `LittleEndian.ofInt64 size`, then
`sizeRead replays base word = size`. -/
theorem sizeRead_of_lookup {replays : Replays} {base : String} {size : Int64} (word : Int64)
    (h : replays.lookup (BufferName.ofSize base).text = some (LittleEndian.ofInt64 size)) :
    sizeRead replays base word = size := by
  have hlength : (LittleEndian.ofInt64 size).length = (LittleEndian.ofInt64 word).length := by simp
  rw [sizeRead, Recorder.replayed_of_lookup h hlength, LittleEndian.toInt64_ofInt64]

/-- If the size buffer has no replay of eight bytes, then `sizeRead replays base word = word`. -/
theorem sizeRead_eq_self {replays : Replays} {base : String} {word : Int64}
    (h : ∀ replay, replays.lookup (BufferName.ofSize base).text = some replay →
      replay.length ≠ 8) : sizeRead replays base word = word := by
  rw [sizeRead, Recorder.replayed_eq_self h, LittleEndian.toInt64_ofInt64]

/-- The size word after a marking: `sizeRead` where `policy` makes it symbolic, and `word`
otherwise. -/
def sizeAfter (replays : Replays) (base : String) (policy : SizePolicy) (word : Int64) : Int64 :=
  if policy.tracked then sizeRead replays base word else word

/-! ## Buffers of a marking -/

/-- The buffer of the integer `n`, with `min ≤ n` and `n ≤ max` assumed unless the range is
inverted. -/
def intBuffer (base : String) (max min n : Int32) : Buffer where
  base := base
  qualifier := BufferName.valueQualifier
  value := .integer n
  assumptions :=
    if min ≤ max then [⟨n.toInt64, .ge, min.toInt64⟩, ⟨n.toInt64, .le, max.toInt64⟩] else []

/-- The buffer of an object's content. -/
def valueBuffer (base : String) (value : BufferValue) : Buffer where
  base := base
  qualifier := BufferName.valueQualifier
  value := value

/-- The buffer of a size word under a policy. -/
def sizeBuffer (base : String) (policy : SizePolicy) (word : Int64) : Buffer where
  base := base
  qualifier := BufferName.sizeQualifier
  value := .sizeWord word
  assumptions := policy.assumptions word

/-- The buffer of the size word, where `policy` makes it symbolic. -/
def sizeBuffers (base : String) (policy : SizePolicy) (word : Int64) : List Buffer :=
  if policy.tracked then [sizeBuffer base policy word] else []

/-- The buffer of the size word of a structure, assumed to be at least zero and below `bound`. -/
def structureBuffer (base : String) (bound word : Int64) : Buffer where
  base := base
  qualifier := BufferName.sizeQualifier
  value := .sizeWord word
  notices := if bound ≤ word then [.beyondBound base word bound] else []
  assumptions := [⟨word, .ge, 0⟩, ⟨word, .lt, bound⟩]

/-! ## Checks and tracking -/

/-- The check of an integer: `min ≤ value ≤ max`, unless the range is inverted. -/
def checkRange (value max min : Int32) : Except MarkError Unit :=
  if min ≤ max ∧ ¬ (min ≤ value ∧ value ≤ max) then
    .error (.rangeViolation .value value.toInt64 min.toInt64 (some max.toInt64))
  else .ok ()

section

variable {α : Type} (x : α)

/-- `nameOf` gives `n.encode`, its error as `.name error`, and keeps `x` and `r`. -/
theorem run_nameOf (n : BufferName) (r : Recorder) :
    (nameOf n.base n.qualifier n.tag).run (x, r)
      = match n.encode with
        | .ok name => .ok name (x, r)
        | .error error => .error (.name error) (x, r) := by
  rw [nameOf]
  cases n.encode <;> rfl

/-- `require checked` gives `checked`, and keeps `s`. -/
theorem run_require (checked : Except MarkError Unit) (s : α × Recorder) :
    (require checked).run s
      = match checked with
        | .ok () => .ok () s
        | .error error => .error error s := by
  cases checked <;> rfl

/-- `request f` changes the recorder by `f` and keeps what the place holds. -/
theorem run_request (f : Recorder → Recorder) (r : Recorder) :
    (request f).run (x, r) = .ok () (x, f r) := rfl

/-- `replace y` puts `y` into the place and keeps the recorder. -/
theorem run_replace (y : α) (r : Recorder) : (replace y).run (x, r) = .ok () (y, r) := rfl

/-- `track b.name.text bytes` gives `b.value.toBytes` and enters `b`, if `b.value` is spelt by the
replayed content. -/
theorem run_track {b : Buffer} {r : Recorder} {bytes : List UInt8}
    (h : b.value.toBytes = Recorder.replayed r.replays b.name.text bytes) :
    (track b.name.text bytes).run (x, r) = .ok b.value.toBytes (x, r.enter b) := by
  have hlength : b.value.toBytes.length = bytes.length := by
    rw [h, Recorder.length_replayed]
  unfold track
  rw [EStateM.run_modifyGet]
  simp only [Recorder.track_eq]
  rw [Recorder.enter, hlength, h]

/-! ## Integers -/

/-- The bytes of `intRead replays base n` are those that `Recorder.replayed` gives for the bytes of
`n`. -/
theorem ofInt32_intRead (replays : Replays) (base : String) (n : Int32) :
    LittleEndian.ofInt32 (intRead replays base n)
      = Recorder.replayed replays (BufferName.ofValue base .int).text (LittleEndian.ofInt32 n) := by
  rw [intRead]
  apply LittleEndian.ofInt32_toInt32
  rw [Recorder.length_replayed, LittleEndian.length_ofInt32]

/-- `int value base max min` fails where `accept` does, and leaves `x` and `r`; or else it gives
`intRead r.replays base value` and `r` holds its buffer. -/
theorem run_int (value : Int32) (base : String) (max min : Int32) (r : Recorder) :
    (int value base max min).run (x, r)
      = match accept (checkRange value max min) [.ofValue base .int] (.ok ()) with
        | .error error => .error error (x, r)
        | .ok () =>
          .ok (intRead r.replays base value)
            (x, r.hold [intBuffer base max min (intRead r.replays base value)]) := by
  have hname := run_nameOf x (.ofValue base .int) r
  have htrack : (track (BufferName.ofValue base .int).text (LittleEndian.ofInt32 value)).run (x, r)
      = .ok (LittleEndian.ofInt32 (intRead r.replays base value))
        (x, r.enter (intBuffer base max min (intRead r.replays base value))) :=
    run_track x (b := intBuffer base max min (intRead r.replays base value))
      (ofInt32_intRead r.replays base value)
  unfold int checkRange
  rw [Recorder.hold_singleton]
  by_cases hrange : min ≤ max ∧ ¬ (min ≤ value ∧ value ≤ max)
  · rw [if_pos hrange, if_pos hrange]
    rfl
  · rw [if_neg hrange, if_neg hrange]
    simp only [EStateM.run_bind, accept, acceptNames]
    simp only [BufferName.ofValue] at hname htrack ⊢
    rw [hname]
    cases hencode : BufferName.encode ⟨base, BufferName.valueQualifier, .int⟩ with
    | error error => rfl
    | ok name =>
      simp only [BufferName.eq_text_of_encode hencode, htrack, LittleEndian.toInt32_ofInt32]
      -- the constraints of an inverted range are none
      by_cases hmin : min ≤ max
      · simp only [if_pos hmin, EStateM.run_bind, run_request, EStateM.run_pure,
          Recorder.assumeRange, Recorder.assume_assume, intBuffer, Recorder.extend_nil]
      · simp only [if_neg hmin, EStateM.run_pure, intBuffer, List.map_nil, Recorder.failing,
          List.filter_nil, Recorder.extend_nil]

/-! ## Sizes -/

/-- The bytes of `sizeRead replays base word` are those that `Recorder.replayed` gives for the bytes
of `word`. -/
theorem ofInt64_sizeRead (replays : Replays) (base : String) (word : Int64) :
    LittleEndian.ofInt64 (sizeRead replays base word)
      = Recorder.replayed replays (BufferName.ofSize base).text (LittleEndian.ofInt64 word) := by
  rw [sizeRead]
  apply LittleEndian.ofInt64_toInt64
  rw [Recorder.length_replayed, LittleEndian.length_ofInt64]

/-- `size` gives `sizeRead r.replays base word` and enters the buffer `b` of it. -/
theorem run_size {b : Buffer} {r : Recorder} {base : String} {word : Int64}
    (hname : b.name = .ofSize base) (hvalue : b.value = .sizeWord (sizeRead r.replays base word)) :
    (size (BufferName.ofSize base).text word).run (x, r)
      = .ok (sizeRead r.replays base word) (x, r.enter b) := by
  have hbytes : b.value.toBytes
      = Recorder.replayed r.replays b.name.text (LittleEndian.ofInt64 word) := by
    rw [hvalue, hname]
    exact ofInt64_sizeRead r.replays base word
  have hrun := run_track x hbytes
  rw [hname] at hrun
  rw [size, EStateM.run_bind, hrun, hvalue]
  simp only [EStateM.run_pure, BufferValue.toBytes, LittleEndian.toInt64_ofInt64]

/-- `sizeName base policy` gives the name of the size buffer if `policy.tracked`, or its error, and
keeps `x` and `r`. -/
theorem run_sizeName (base : String) (policy : SizePolicy) (r : Recorder) :
    (sizeName base policy).run (x, r)
      = match acceptNames (policy.names base) with
        | .error error => .error error (x, r)
        | .ok () =>
          .ok (if policy.tracked then some (BufferName.ofSize base).text else none) (x, r) := by
  unfold sizeName SizePolicy.names
  cases policy.tracked with
  | false => rfl
  | true =>
    have hrun := run_nameOf x (.ofSize base) r
    simp only [if_true, EStateM.run_bind, acceptNames, BufferName.ofSize] at hrun ⊢
    rw [hrun]
    cases hname : BufferName.encode ⟨base, BufferName.sizeQualifier, .size⟩ with
    | error error => rfl
    | ok name => simp only [BufferName.eq_text_of_encode hname, EStateM.run_pure]

/-- To constrain `word` after its buffer is entered is to hold the buffer. -/
theorem constrain_enter (base : String) (policy : SizePolicy) (word : Int64) (r : Recorder) :
    policy.constrain word (r.enter (sizeBuffer base policy word))
      = r.hold [sizeBuffer base policy word] := by
  rw [SizePolicy.constrain, Recorder.foldl_assume, Recorder.hold_singleton]
  simp only [sizeBuffer, Recorder.extend_nil]

/-- `sizeWithin` gives `sizeAfter r.replays base policy word`, and `r` holds the buffers of it. -/
theorem run_sizeWithin (base : String) (policy : SizePolicy) (word : Int64) (r : Recorder) :
    (sizeWithin (if policy.tracked then some (BufferName.ofSize base).text else none) policy
        word).run (x, r)
      = .ok (sizeAfter r.replays base policy word)
          (x, r.hold (sizeBuffers base policy (sizeAfter r.replays base policy word))) := by
  unfold sizeAfter sizeBuffers
  cases policy.tracked with
  | false =>
    simp only [Bool.false_eq_true, if_false, sizeWithin, EStateM.run_pure, Recorder.hold_nil]
  | true =>
    have hrun : (size (BufferName.ofSize base).text word).run (x, r)
        = .ok (sizeRead r.replays base word)
          (x, r.enter (sizeBuffer base policy (sizeRead r.replays base word))) := run_size x rfl rfl
    simp only [if_true, sizeWithin, EStateM.run_bind, hrun, run_request, EStateM.run_pure,
      constrain_enter]

end

/-- `list base policy word rebuild` fails where `accept` does, and leaves `rebuild word` and `r`; or
else `sizeAfter` is the word in place and `r` holds the buffers of it. -/
theorem run_list {α : Type} (base : String) (policy : SizePolicy) (word : Int64)
    (rebuild : Int64 → α) (r : Recorder) :
    (list base policy word rebuild).run (rebuild word, r)
      = match accept (policy.check word) (policy.names base) (.ok ()) with
        | .error error => .error error (rebuild word, r)
        | .ok () =>
          .ok () (rebuild (sizeAfter r.replays base policy word),
            r.hold (sizeBuffers base policy (sizeAfter r.replays base policy word))) := by
  rw [list, EStateM.run_bind, run_require]
  cases policy.check word with
  | error error => rfl
  | ok _ =>
    simp only [EStateM.run_bind, run_sizeName, accept]
    cases acceptNames (policy.names base) with
    | error error => rfl
    | ok _ =>
      unfold sizeAfter sizeBuffers
      -- only a size that is tracked is put into the list
      cases policy.tracked with
      | false =>
        simp only [Bool.false_eq_true, if_false, EStateM.run_pure, Recorder.hold_nil]
      | true =>
        have hrun : (size (BufferName.ofSize base).text word).run (rebuild word, r)
            = .ok (sizeRead r.replays base word)
              (rebuild word, r.enter (sizeBuffer base policy (sizeRead r.replays base word))) :=
          run_size (rebuild word) rfl rfl
        simp only [if_true, EStateM.run_bind, hrun, run_replace, run_request, constrain_enter]

/-! ## Contents -/

/-- The bytes of `unitsRead replays base units` are those that `Recorder.replayed` gives for the
bytes of `units`. -/
theorem ofUnits_unitsRead (replays : Replays) (base : String) (units : List UInt32) :
    LittleEndian.ofUnits (unitsRead replays base units)
      = Recorder.replayed replays (BufferName.ofValue base .unicode).text
          (LittleEndian.ofUnits units) := by
  rw [unitsRead]
  apply LittleEndian.ofUnits_toUnits
  rw [Recorder.length_replayed, LittleEndian.length_ofUnits, Nat.mul_mod_right]

/-- `content` fails where `accept` does, and leaves `x` and `r`; or else it gives `value.toBytes`
and its number of elements under the policy, and `r` holds the buffers of both. -/
theorem run_content {α : Type} (x : α) {base : String} {bytes : List UInt8} {value : BufferValue}
    {r : Recorder} (memory : Allocator) (policy : SizePolicy) (width : Nat) (word : Int64)
    (count : List UInt8 → Nat)
    (hbytes : value.toBytes
      = Recorder.replayed r.replays (BufferName.ofValue base value.tag).text bytes) :
    (content memory base policy value.tag width word bytes count).run (x, r)
      = match accept (policy.check word) (.ofValue base value.tag :: policy.names base)
            (memory.reserve (Allocator.requested (count bytes) width)) with
        | .error error => .error error (x, r)
        | .ok () =>
          let word' := sizeAfter r.replays base policy (sizeWordOf (count value.toBytes))
          .ok (word', value.toBytes)
            (x, r.hold (valueBuffer base value :: sizeBuffers base policy word')) := by
  have hname := run_nameOf x (.ofValue base value.tag) r
  have htrack : (track (BufferName.ofValue base value.tag).text bytes).run (x, r)
      = .ok value.toBytes (x, r.hold [valueBuffer base value]) := by
    rw [Recorder.hold_singleton]
    simp only [valueBuffer, List.map_nil, Recorder.failing, List.filter_nil, Recorder.extend_nil]
    exact run_track x (b := valueBuffer base value) hbytes
  rw [content, EStateM.run_bind, run_require]
  cases policy.check word with
  | error error => rfl
  | ok _ =>
    simp only [EStateM.run_bind, accept, acceptNames]
    simp only [BufferName.ofValue] at hname htrack ⊢
    rw [hname]
    cases hencode : BufferName.encode ⟨base, BufferName.valueQualifier, value.tag⟩ with
    | error error => rfl
    | ok name =>
      simp only [run_sizeName, BufferName.eq_text_of_encode hencode]
      cases acceptNames (policy.names base) with
      | error error => rfl
      | ok _ =>
        simp only [run_require]
        -- only with both names given and room for the copy is the first buffer tracked
        cases memory.reserve (Allocator.requested (count bytes) width) with
        | error error => rfl
        | ok _ =>
          simp only [htrack, run_sizeWithin, EStateM.run_pure, Recorder.replays_hold,
            Recorder.hold_append]
          rfl

/-! ## Structures -/

/-- `structureSize` fails where the name of the size buffer does, and leaves `rebuild word` and `r`;
or else `sizeRead` is the word in place and `r` holds its buffer. -/
theorem run_structureSize {α : Type} (base : String) (bound word : Int64) (rebuild : Int64 → α)
    (r : Recorder) :
    (structureSize base bound word rebuild).run (rebuild word, r)
      = match acceptNames [.ofSize base] with
        | .error error => .error error (rebuild word, r)
        | .ok () =>
          .ok () (rebuild (sizeRead r.replays base word),
            r.hold [structureBuffer base bound (sizeRead r.replays base word)]) := by
  have hname := run_nameOf (rebuild word) (.ofSize base) r
  have hrun : (size (BufferName.ofSize base).text word).run (rebuild word, r)
      = .ok (sizeRead r.replays base word)
        (rebuild word, r.enter (structureBuffer base bound (sizeRead r.replays base word))) :=
    run_size (rebuild word) rfl rfl
  rw [structureSize, Recorder.hold_singleton]
  simp only [EStateM.run_bind, acceptNames]
  simp only [BufferName.ofSize] at hname hrun ⊢
  rw [hname]
  cases hencode : BufferName.encode ⟨base, BufferName.sizeQualifier, .size⟩ with
  | error error => rfl
  | ok name =>
    simp only [BufferName.eq_text_of_encode hencode, hrun, run_replace]
    -- a size beyond the bound is warned of between the buffer and the assumptions
    by_cases hbound : bound ≤ sizeRead r.replays base word
    · simp only [if_pos hbound, EStateM.run_bind, run_request, Recorder.warn_eq,
        Recorder.assume_assume, structureBuffer]
    · simp only [if_neg hbound, EStateM.run_bind, run_request, Recorder.assume_assume,
        structureBuffer, Recorder.extend_nil]

end Marking
end Concolic

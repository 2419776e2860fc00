import Concolic.Proofs.Runs
import Concolic.Session.Script

/-! # Checks and assumptions

Before a call tracks anything it checks the value against its bounds, and behind the buffers it adds
the bounds as assumptions. Where no replay changes what is tracked, the assumptions are those that
were checked. For a string they are about the number of elements, and the check is about the size
word, which an earlier replay may have set to something else; so the check guarantees the
assumptions of strings whose word agrees with the content (`Value.Sized`), and such are all strings
that no replayed size word went into (`Value.Genuine`). -/

namespace Concolic

/-- `p.check word = .ok ()` iff all of `p.assumptions word` hold. -/
theorem SizePolicy.check_eq_ok_iff (p : SizePolicy) (word : Int64) :
    p.check word = .ok () ↔ ∀ a ∈ p.assumptions word, a.holds = true := by
  cases p with
  | fixed => simp [check, assumptions]
  | atLeast min => simp [check, assumptions, Assumption.holds]
  | within min max => simp [check, assumptions, Assumption.holds, and_comm]

/-- The assumptions on `Marking.sizeBuffers base p word` are `p.assumptions word`. -/
theorem Marking.assumptions_sizeBuffers (base : String) (p : SizePolicy) (word : Int64) :
    (Marking.sizeBuffers base p word).flatMap Buffer.assumptions = p.assumptions word := by
  cases p with
  | fixed => rfl
  | atLeast min => rfl
  | within min max => rfl

/-- The assumptions on the buffers of a string are `p.assumptions word`. -/
theorem Marking.assumptions_string (base : String) (value : BufferValue) (p : SizePolicy)
    (word : Int64) :
    (Marking.valueBuffer base value :: Marking.sizeBuffers base p word).flatMap Buffer.assumptions
      = p.assumptions word := by
  rw [List.flatMap_cons, Marking.assumptions_sizeBuffers]
  rfl

/-- `Marking.checkRange n max min = .ok ()` gives that the assumptions on `intBuffer base max min n`
hold. -/
theorem Marking.holds_of_checkRange {n max min : Int32}
    (h : Marking.checkRange n max min = .ok ()) (base : String) :
    ∀ a ∈ (Marking.intBuffer base max min n).assumptions, a.holds = true := by
  rw [Marking.checkRange] at h
  by_cases hmin : min ≤ max
  · by_cases hrange : min ≤ n ∧ n ≤ max
    · simp [Marking.intBuffer, hmin, Assumption.holds, hrange]
    · rw [if_pos ⟨hmin, hrange⟩] at h
      cases h
  · simp [Marking.intBuffer, hmin]

/-! ## Strings and their sizes -/

/-- The number of elements of a string. -/
def Value.stringLength? : Value → Option Nat
  | .str _ bytes => some bytes.length
  | .unicode _ units => some units.length
  | _ => Option.none

/-- `v` is no string, or its size word is that of the number of its elements. -/
def Value.Sized (v : Value) : Prop := ∀ n ∈ v.stringLength?, v.size? = some (sizeWordOf n)

/-- A genuine value is no string, or it is one as it was made, or one that a marking gave without
replaying its size word. -/
inductive Value.Genuine : Value → Prop where
  /-- What is no string is genuine, whatever was done to it. -/
  | other {v : Value} (h : v.stringLength? = Option.none) : Genuine v
  /-- A byte string is genuine as it is made. -/
  | ofBytes (bytes : List UInt8) : Genuine (.ofBytes bytes)
  /-- A wide string is genuine as it is made. -/
  | ofUnits (units : List UInt32) : Genuine (.ofUnits units)
  /-- A marking gives a genuine value, unless it makes the size symbolic and there is a replay for
  the size word. -/
  | marked {memory : Allocator} {v v' : Value} {base : String} {max min : Int64} {s s' : Session}
      {r : Recorder} (hengine : s.engine = .recording r)
      (hmark : s.markSequence memory v base max min = (.ok (), v', s'))
      (hreplay : 0 ≤ max → ∀ replay, r.replays.lookup (BufferName.ofSize base).text = some replay →
        replay.length ≠ 8) : Genuine v'

/-- The bounds of a call allow the number of elements of its value, if that is a string. -/
def Call.Fits : Call → Prop
  | .int _ _ _ _ => True
  | .sequence _ v _ max min =>
    ∀ n ∈ v.stringLength?, (SizePolicy.of max min).check (sizeWordOf n) = .ok ()

/-- No replay has the length of the buffer in `tracked` under its name. -/
def Unreplayed (replays : Replays) (tracked : List (String × List UInt8)) : Prop :=
  ∀ buffer ∈ tracked, ∀ replay, replays.lookup buffer.1 = some replay →
    replay.length ≠ buffer.2.length

/-! ## What is read back without a replay -/

namespace Marking

variable {replays : Replays} {base : String}

/-- `intRead replays base n = n` if no replay of the integer has four bytes. -/
theorem intRead_eq_self {n : Int32}
    (h : ∀ replay, replays.lookup (BufferName.ofValue base .int).text = some replay →
      replay.length ≠ 4) : intRead replays base n = n := by
  rw [intRead, Recorder.replayed_eq_self h, LittleEndian.toInt32_ofInt32]

/-- `bytesRead replays base bytes = bytes` if no replay of the string has its length. -/
theorem bytesRead_eq_self {bytes : List UInt8}
    (h : ∀ replay, replays.lookup (BufferName.ofValue base .str).text = some replay →
      replay.length ≠ (bytesRead replays base bytes).length) :
    bytesRead replays base bytes = bytes := by
  rw [bytesRead, Recorder.length_replayed] at h
  exact Recorder.replayed_eq_self h

/-- `unitsRead replays base units = units` if no replay of the text has its length. -/
theorem unitsRead_eq_self {units : List UInt32}
    (h : ∀ replay, replays.lookup (BufferName.ofValue base .unicode).text = some replay →
      replay.length ≠ (LittleEndian.ofUnits (unitsRead replays base units)).length) :
    unitsRead replays base units = units := by
  rw [ofUnits_unitsRead, Recorder.length_replayed] at h
  rw [unitsRead, Recorder.replayed_eq_self h, LittleEndian.toUnits_ofUnits]

/-- `sizeAfter replays base policy word = word` if no replay of a tracked size has eight bytes. -/
theorem sizeAfter_eq_self {policy : SizePolicy} {word : Int64}
    (h : ∀ replay, replays.lookup (BufferName.ofSize base).text = some replay →
      policy.tracked = true → replay.length ≠ 8) :
    sizeAfter replays base policy word = word := by
  rw [sizeAfter]
  by_cases htracked : policy.tracked = true
  · rw [if_pos htracked]
    exact sizeRead_eq_self fun replay hlookup => h replay hlookup htracked
  · rw [if_neg htracked]

/-- `sizeAfter replays base policy word = word` if the size buffer is `Unreplayed`. -/
theorem sizeAfter_of_unreplayed {policy : SizePolicy} {word : Int64}
    (h : Unreplayed replays
      ((sizeBuffers base policy (sizeAfter replays base policy word)).map Buffer.answer)) :
    sizeAfter replays base policy word = word := by
  apply sizeAfter_eq_self
  intro replay hlookup htracked
  rw [sizeBuffers, if_pos htracked] at h
  exact h _ List.mem_cons_self replay hlookup

end Marking

/-- `v.Genuine` gives `v.Sized`. -/
theorem Value.Genuine.sized {v : Value} (h : v.Genuine) : v.Sized := by
  intro n hn
  cases h with
  | other hnone =>
    rw [hnone] at hn
    cases hn
  | ofBytes bytes =>
    cases hn
    rfl
  | ofUnits units =>
    cases hn
    rfl
  | @marked memory v _ base max min s s' r hengine hmark hreplay =>
    obtain ⟨r', hengine', -, -, hresult, -⟩ :=
      Call.perform_eq_ok (Call.perform_of_markSequence hmark)
    cases hengine.symm.trans hengine'
    -- a marking counts the elements anew, and no replay changes that
    have hword (word : Int64) :
        Marking.sizeAfter r.replays base (.of max min) word = word :=
      Marking.sizeAfter_eq_self fun replay hlookup htracked =>
        hreplay (Int64.not_lt.1 ((SizePolicy.tracked_of_iff max min).1 htracked)) replay hlookup
    cases v with
    | str word bytes =>
      simp only [Call.result, hword] at hresult
      subst hresult
      cases hn
      rfl
    | unicode word units =>
      simp only [Call.result, hword] at hresult
      subst hresult
      cases hn
      rfl
    | _ =>
      subst hresult
      cases hn

namespace Call

open Marking

/-- The check of bounds passes iff not `min < 0` and `checked = .ok ()`. -/
theorem ite_eq_ok_iff {min : Int64} {checked : Except MarkError Unit} :
    (if min < 0 then .error (.invalidSize min) else checked) = .ok ()
      ↔ ¬ min < 0 ∧ checked = .ok () := by
  by_cases hmin : min < 0
  · simp [hmin]
  · simp [hmin]

/-- `c.accept = .ok ()` and `c.value.Sized` give `c.Fits`. -/
theorem fits_of_sized {c : Call} (haccept : c.accept = .ok ()) (hsized : c.value.Sized) :
    c.Fits := by
  have hcheck := (accept_eq_ok_iff.1 haccept).1
  cases c with
  | int n base max min => trivial
  | sequence memory v base max min =>
    intro n hn
    have hword := hsized n hn
    cases v with
    | str word bytes =>
      cases hword
      exact (ite_eq_ok_iff.1 hcheck).2
    | unicode word units =>
      cases hword
      exact (ite_eq_ok_iff.1 hcheck).2
    | _ => cases hn

/-- All assumptions of an accepted call that is `Unreplayed` hold iff `c.Fits`. -/
theorem assumptions_hold_iff {c : Call} (haccept : c.accept = .ok ()) (hdict : c.value.kind ≠ .dict)
    (htuple : c.value.kind ≠ .tuple) {replays : Replays} {bound : Int64}
    (h : Unreplayed replays ((c.buffers bound (c.result replays)).map Buffer.answer)) :
    (∀ a ∈ (c.buffers bound (c.result replays)).flatMap Buffer.assumptions, a.holds = true)
      ↔ c.Fits := by
  have hcheck := (accept_eq_ok_iff.1 haccept).1
  cases c with
  | int n base max min =>
    have hread : intRead replays base n = n :=
      intRead_eq_self fun replay hlookup => h _ List.mem_cons_self replay hlookup
    simp only [result, buffers, hread, Fits, iff_true, List.flatMap_singleton]
    exact holds_of_checkRange hcheck base
  | sequence memory v base max min =>
    cases v with
    | str word bytes =>
      have hread : bytesRead replays base bytes = bytes :=
        bytesRead_eq_self (h _ List.mem_cons_self)
      -- what is assumed of is the number of elements, not the word that was checked
      have hword := sizeAfter_of_unreplayed fun b hb => h b (List.mem_cons_of_mem _ hb)
      rw [hread] at hword
      simp only [result, buffers, hread, hword, assumptions_string, ← SizePolicy.check_eq_ok_iff,
        Fits, Value.stringLength?]
      simp
    | unicode word units =>
      have hread : unitsRead replays base units = units :=
        unitsRead_eq_self (h _ List.mem_cons_self)
      have hword := sizeAfter_of_unreplayed fun b hb => h b (List.mem_cons_of_mem _ hb)
      rw [hread] at hword
      simp only [result, buffers, hread, hword, assumptions_string, ← SizePolicy.check_eq_ok_iff,
        Fits, Value.stringLength?]
      simp
    | list word items =>
      -- the word that was checked is the one that is assumed of, whatever the number of items
      have hword := sizeAfter_of_unreplayed h
      simp only [result, buffers, hword, assumptions_sizeBuffers, ← SizePolicy.check_eq_ok_iff,
        (ite_eq_ok_iff.1 hcheck).2, Fits, Value.stringLength?]
      simp
    | dict word entries => exact absurd rfl hdict
    | tuple word items => exact absurd rfl htuple
    | _ => simp [Fits, buffers, result, Value.stringLength?]

/-! ## Soundness -/

/-- **Assumptions are sound.** The assumptions that a call adds where its buffers are `Unreplayed`
hold if `c.value.Genuine`: the check before the first buffer guarantees them. For other strings they
hold if and only if `c.Fits`: the bounds fit the number of elements. -/
theorem assumptions_sound {c : Call} {s : Session} {r : Recorder} {v : Value}
    (hengine : s.engine = .recording r) (hok : (c.made s).outcome = .ok v)
    (hdict : c.value.kind ≠ .dict) (htuple : c.value.kind ≠ .tuple)
    (hunreplayed : Unreplayed r.replays (c.made s).tracked) :
    (c.value.Genuine → ∀ a, .assumed a ∈ (c.made s).events → a.holds = true) ∧
      ((∀ a, .assumed a ∈ (c.made s).events → a.holds = true) ↔ c.Fits) := by
  obtain ⟨r', hengine', -, haccept, -, -, hevents⟩ := made_eq_ok hok
  cases hengine.symm.trans hengine'
  have hassumed (a : Assumption) : .assumed a ∈ (c.made s).events
      ↔ a ∈ (c.buffers s.bound (c.result r.replays)).flatMap Buffer.assumptions := by
    rw [hevents, Event.assumed_mem_iff, assumed_flatMap_events]
  rw [Made.tracked, hevents, tracked_flatMap_events] at hunreplayed
  have hiff := assumptions_hold_iff haccept hdict htuple hunreplayed
  simp only [hassumed]
  exact ⟨fun hgenuine => hiff.2 (fits_of_sized haccept hgenuine.sized), hiff⟩

/-- A byte string of one element fits a minimum of one, and what is assumed of its size holds. -/
theorem assumptions_sound_letter :
    ((Call.sequence .unlimited (.ofBytes [97]) "b" 0 1).made ⟨.recording {}, 1000, false⟩).events
        = [.tracked "b.s#value" [97], .tracked "b.l#size" [1, 0, 0, 0, 0, 0, 0, 0],
          .assumed ⟨1, .ge, 1⟩] ∧
      (⟨1, .ge, 1⟩ : Assumption).holds = true := by
  have hevents : ((Call.sequence .unlimited (.ofBytes [97]) "b" 0 1).made
        ⟨.recording {}, 1000, false⟩).events
      = [.tracked "b.s#value" [97], .tracked "b.l#size" [1, 0, 0, 0, 0, 0, 0, 0],
        .assumed ⟨1, .ge, 1⟩] := by decide +kernel
  refine ⟨hevents, ?_⟩
  have hsound := assumptions_sound (c := .sequence .unlimited (.ofBytes [97]) "b" 0 1)
    (s := ⟨.recording {}, 1000, false⟩) (r := {}) (v := .ofBytes [97]) rfl rfl (by decide)
    (by decide) fun _ _ _ hlookup => by cases hlookup
  exact hsound.1 (.ofBytes [97]) ⟨1, .ge, 1⟩ (by simp [hevents])

end Call

/-- A string whose size word was replayed passes the check of its next marking by that word, and the
assumption on its one element is false, though no replay is for the buffers of that marking. -/
theorem Script.replayed_size_passes_check :
    let replays : Replays := [("a.l#size", [9, 0, 0, 0, 0, 0, 0, 0])]
    let (answers, aborted, s) := runAll
      ⟨⟨.recording { replays := replays }, 1000, false⟩, fun _ => none, 0, 0⟩ false
      [.bind "t" (.ofBytes [97]), .markSequence .unlimited "t" "a" 0 0,
        .markSequence .unlimited "t" "b" 0 5]
    answers = [
      .mk (.shown (.str 1 [97])) [] [],
      .mk (.marked (.str 9 [97]))
        [.tracked "a.s#value" [97], .tracked "a.l#size" [9, 0, 0, 0, 0, 0, 0, 0],
          .assumed ⟨9, .ge, 0⟩] [],
      .mk (.marked (.str 1 [97]))
        [.tracked "b.s#value" [97], .tracked "b.l#size" [1, 0, 0, 0, 0, 0, 0, 0],
          .assumed ⟨1, .ge, 5⟩] [.assumptionFails ⟨1, .ge, 5⟩]] ∧
      aborted = false ∧ s.get? "t" = some (.str 1 [97]) ∧
      replays.lookup "b.s#value" = none ∧ replays.lookup "b.l#size" = none ∧
      (⟨1, .ge, 5⟩ : Assumption).holds = false := by
  -- the run is computed
  refine ⟨?_, ?_, ?_, ?_, ?_, ?_⟩
  · rfl
  · rfl
  · rfl
  · decide
  · decide
  · decide

end Concolic

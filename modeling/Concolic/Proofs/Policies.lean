import Concolic.Proofs.Precedence
import Concolic.Proofs.Soundness

/-! # Policies by their constraints

A policy on sizes is given twice: by the test that a size has to pass before anything is tracked,
and by the constraints on the size that is read back. The two agree, whatever the bounds and the
size are (`SizePolicy.check_agrees_constrain`): a size passes exactly if all its constraints hold,
and exactly if the bounds allow it. Adding constraints to a recorder adds one event for each of
them, and one warning for each that does not hold. -/

namespace Concolic

/-- A size is not `OutOfBounds max min` iff `max < 0`, or `max = 0` and it reaches `min`, or it is
in the range from `min` to `max`. -/
theorem not_outOfBounds_iff (max min size : Int64) :
    ¬ OutOfBounds max min size
      ↔ max < 0 ∨ max = 0 ∧ min ≤ size ∨ 0 < max ∧ min ≤ size ∧ size ≤ max := by
  -- a linear question once the words are integers
  simp only [OutOfBounds, Int64.lt_iff_toInt_lt, Int64.le_iff_toInt_le, ← Int64.toInt_inj,
    Int64.toInt_zero]
  omega

namespace SizePolicy

variable {max min : Int64}

/-- `ofBounds max min = .error error` iff `min < 0` and `error = .invalidSize min`. -/
theorem ofBounds_eq_error_iff {error : MarkError} :
    ofBounds max min = .error error ↔ min < 0 ∧ error = .invalidSize min := by
  rw [ofBounds_eq]
  by_cases hmin : min < 0
  · simp [hmin, eq_comm]
  · simp [hmin]

/-- `ofBounds max min = .ok p` iff not `min < 0` and `SizePolicy.of max min = p`. -/
theorem ofBounds_eq_ok_iff {p : SizePolicy} :
    ofBounds max min = .ok p ↔ ¬ min < 0 ∧ SizePolicy.of max min = p := by
  rw [ofBounds_eq]
  by_cases hmin : min < 0
  · simp [hmin]
  · simp [hmin]

/-- `(SizePolicy.of max min).check size` is `.rangeViolation` if `OutOfBounds max min size`, and
`.ok ()` otherwise. -/
theorem check_of (max min size : Int64) :
    (SizePolicy.of max min).check size
      = if OutOfBounds max min size then
          .error (.rangeViolation .size size min (if 0 < max then some max else none))
        else .ok () := by
  rw [check_eq_firstOf, sizeObjections, firstOf_ite]

/-- `(SizePolicy.of max min).check size = .ok ()` iff `max < 0`, or `max = 0` and `min ≤ size`, or
`size` is in the range from `min` to `max`. -/
theorem check_of_eq_ok_iff (max min size : Int64) :
    (SizePolicy.of max min).check size = .ok ()
      ↔ max < 0 ∨ max = 0 ∧ min ≤ size ∨ 0 < max ∧ min ≤ size ∧ size ≤ max := by
  rw [check_of, ← not_outOfBounds_iff]
  by_cases hout : OutOfBounds max min size
  · simp [hout]
  · simp [hout]

/-- `p.constrain size r` adds `p.assumptions size` to the log, and warns of those that do not
hold. -/
theorem constrain_eq (p : SizePolicy) (size : Int64) (r : Recorder) :
    p.constrain size r
      = r.extend ((p.assumptions size).map .assumed) (Recorder.failing (p.assumptions size)) :=
  Recorder.foldl_assume r (p.assumptions size)

/-- If `p.check size` fails, one of `p.assumptions size` does not hold. -/
theorem exists_not_holds_of_check {p : SizePolicy} {size : Int64} {error : MarkError}
    (h : p.check size = .error error) : ∃ a ∈ p.assumptions size, a.holds = false := by
  have hnot : ¬ ∀ a ∈ p.assumptions size, a.holds = true := by
    intro hall
    rw [(check_eq_ok_iff p size).2 hall] at h
    cases h
  simpa using hnot

/-- **The check of a size and the constraints on it are the same predicate.** `ofBounds max min`
fails iff `min < 0`. For every other policy `p`, and over any recorder, `p.constrain size` adds to
the log the assumptions that are emitted, and one warning for each of them that does not hold;
`p.check size = .ok ()` if and only if all of them hold, and if and only if the bounds allow `size`;
and if the size is refused, one of them does not hold. So an inverted range refuses every size. -/
theorem check_agrees_constrain (max min : Int64) :
    (∀ error, ofBounds max min = .error error ↔ min < 0 ∧ error = .invalidSize min) ∧
    ∀ p, ofBounds max min = .ok p →
      (∀ size (r : Recorder), ∃ emitted : List Assumption,
        (p.constrain size r).log = r.log ++ emitted.map .assumed ∧
        (p.constrain size r).warnings
          = r.warnings ++ (emitted.filter fun a => !a.holds).map .assumptionFails ∧
        (p.check size = .ok () ↔ ∀ a ∈ emitted, a.holds = true) ∧
        (p.check size = .ok ()
          ↔ max < 0 ∨ max = 0 ∧ min ≤ size ∨ 0 < max ∧ min ≤ size ∧ size ≤ max) ∧
        ∀ error, p.check size = .error error →
          (∃ a ∈ emitted, a.holds = false) ∧
            error = .rangeViolation .size size min (if 0 < max then some max else none)) ∧
      (0 < max → max < min → ∀ size, p.check size ≠ .ok ()) := by
  refine ⟨fun error => ofBounds_eq_error_iff, ?_⟩
  intro p hp
  obtain ⟨-, rfl⟩ := ofBounds_eq_ok_iff.1 hp
  constructor
  · intro size r
    have hconstrain := constrain_eq (SizePolicy.of max min) size r
    refine ⟨(SizePolicy.of max min).assumptions size, ?_, ?_, check_eq_ok_iff _ _,
      check_of_eq_ok_iff max min size, ?_⟩
    · rw [hconstrain, Recorder.log_extend]
    · rw [hconstrain, Recorder.warnings_extend, Recorder.failing]
    · intro error herror
      refine ⟨exists_not_holds_of_check herror, ?_⟩
      rw [check_of] at herror
      split at herror
      · exact (Except.error.inj herror).symm
      · cases herror
  · intro hpos hinverted size hok
    -- a size in the range would be between the minimum and a smaller maximum
    rw [check_of_eq_ok_iff] at hok
    simp only [Int64.lt_iff_toInt_lt, Int64.le_iff_toInt_le, ← Int64.toInt_inj,
      Int64.toInt_zero] at hpos hinverted hok
    omega

/-- The range from five to two refuses three, which is below the one bound and above the other: both
constraints are emitted, and there is a warning for each of them. The same bounds with a negative
minimum make no policy. -/
theorem check_agrees_constrain_inverted :
    ofBounds 2 5 = .ok (.within 5 2) ∧
      (within 5 2).check 3 ≠ .ok () ∧
      (∃ a ∈ [(⟨3, .le, 2⟩ : Assumption), ⟨3, .ge, 5⟩], a.holds = false) ∧
      ((within 5 2).constrain 3 {}).warnings
        = [.assumptionFails ⟨3, .le, 2⟩, .assumptionFails ⟨3, .ge, 5⟩] ∧
      ofBounds 2 (-5) = .error (.invalidSize (-5)) := by
  have hbounds : ofBounds 2 5 = .ok (.within 5 2) := rfl
  obtain ⟨-, hpolicy⟩ := check_agrees_constrain 2 5
  obtain ⟨hconstrain, hinverted⟩ := hpolicy _ hbounds
  obtain ⟨emitted, hlog, hwarnings, -, -, hrefused⟩ := hconstrain 3 {}
  -- the theorem gives some assumptions; that they are these two is seen in the log
  have hemitted : emitted = [⟨3, .le, 2⟩, ⟨3, .ge, 5⟩] := by
    have hmap : emitted.map Event.assumed
        = [(⟨3, .le, 2⟩ : Assumption), ⟨3, .ge, 5⟩].map Event.assumed := hlog.symm
    exact (List.map_inj_right fun _ _ => Event.assumed.inj).1 hmap
  subst hemitted
  have hcheck : (within 5 2).check 3 = .error (.rangeViolation .size 3 5 (some 2)) := rfl
  exact ⟨hbounds, hinverted (by decide) (by decide) 3, (hrefused _ hcheck).1, hwarnings,
    ((check_agrees_constrain 2 (-5)).1 _).2 ⟨by decide, rfl⟩⟩

end SizePolicy
end Concolic

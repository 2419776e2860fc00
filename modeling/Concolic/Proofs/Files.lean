import Concolic.FileTree

/-! # Files that are written

Writing a file changes the entry at one place (`FileTree.get?_put`). A file is only ever put where
no directory is, and a path is followed through directories; so every path that led somewhere before
still leads there (`FileTree.follow_put`), and the path that was written to leads to what was
written (`FileTree.locate_put_target`). -/

namespace Concolic
namespace FileTree

variable {t : FileTree} {p q : Place}

/-- `(t.put p e).get? p = some e` for a place `p` other than the root, and all other places keep
their entries. -/
theorem get?_put (t : FileTree) (hp : p ≠ []) (e : Entry) (q : Place) :
    (t.put p e).get? q = if q = p then some e else t.get? q := by
  rw [get?, get?, put, List.lookup_cons]
  by_cases hq : q = p
  · simp [hq, hp]
  · simp [hq, beq_eq_false_iff_ne.2 hq]

/-- Where `t` has an entry, `t.put p e` has one. -/
theorem isSome_get?_put (hp : p ≠ []) (e : Entry) (h : (t.get? q).isSome) :
    ((t.put p e).get? q).isSome := by
  rw [get?_put t hp]
  split
  · rfl
  · exact h

/-! ## Following paths -/

/-- If `t.step q part = .ok p`, there is a directory at `q`. -/
theorem get?_of_step {part : String} (h : t.step q part = .ok p) : t.get? q = some .directory := by
  rw [step] at h
  cases hget : t.get? q with
  | none =>
    rw [hget] at h
    cases h
  | some entry =>
    rw [hget] at h
    cases entry with
    | directory => rfl
    | file bytes => cases h

/-- `t.follow q (parts ++ parts')` follows `parts` from `q` and then `parts'`. -/
theorem follow_append (t : FileTree) (q : Place) (parts parts' : List String) :
    t.follow q (parts ++ parts')
      = match t.follow q parts with
        | .error error => .error error
        | .ok q' => t.follow q' parts' := by
  induction parts generalizing q with
  | nil => rfl
  | cons part parts ih =>
    rw [List.cons_append, follow, follow]
    cases t.step q part with
    | error error => rfl
    | ok q' => exact ih q'

/-- `t.follow q ["."] = .ok q'` iff `q = q'` is a directory. -/
theorem follow_dot_eq_ok_iff {q' : Place} :
    t.follow q ["."] = .ok q' ↔ q = q' ∧ t.get? q = some .directory := by
  constructor
  · intro h
    cases hstep : t.step q "." with
    | error error =>
      rw [follow, hstep] at h
      cases h
    | ok q'' =>
      have hdirectory := get?_of_step hstep
      simp only [follow, hstep] at h
      simp only [step, hdirectory, or_true, if_true] at hstep
      exact ⟨(Except.ok.inj hstep).trans (Except.ok.inj h), hdirectory⟩
  · rintro ⟨rfl, hdirectory⟩
    simp [follow, step, hdirectory]

section Put

variable (hp : p ≠ []) (hnot : t.get? p ≠ some .directory) (bytes : List UInt8)
include hp hnot

/-- If no directory is at `p`, a directory of `t` is still one in `t.put p (.file bytes)`. -/
theorem get?_put_of_directory (h : t.get? q = some .directory) :
    (t.put p (.file bytes)).get? q = some .directory := by
  have hne : q ≠ p := by
    rintro rfl
    exact hnot h
  rw [get?_put t hp, if_neg hne, h]

/-- If no directory is at `p`, a step of `t` is still one in `t.put p (.file bytes)`. -/
theorem step_put {q' : Place} {part : String} (h : t.step q part = .ok q') :
    (t.put p (.file bytes)).step q part = .ok q' := by
  have hdirectory := get?_of_step h
  have hdirectory' := get?_put_of_directory hp hnot bytes hdirectory
  simp only [step, hdirectory, hdirectory'] at h ⊢
  -- only the last test looks at the tree, and there is no less in it than before
  by_cases hstay : part = "" ∨ part = "."
  · rw [if_pos hstay] at h ⊢
    exact h
  · rw [if_neg hstay] at h ⊢
    by_cases hback : part = ".."
    · rw [if_pos hback] at h ⊢
      exact h
    · rw [if_neg hback] at h ⊢
      by_cases hlong : nameLimit < Utf8.length part.toList
      · rw [if_pos hlong] at h
        cases h
      · rw [if_neg hlong] at h ⊢
        by_cases hthere : (t.get? (q ++ [part])).isSome
        · rw [if_pos hthere] at h
          rw [if_pos (isSome_get?_put hp _ hthere)]
          exact h
        · rw [if_neg hthere] at h
          cases h

/-- If `t.follow q parts = .ok q'` and no directory is at `p`, `t.put p (.file bytes)` follows
`parts` to `q'` as well. -/
theorem follow_put {q' : Place} {parts : List String} (h : t.follow q parts = .ok q') :
    (t.put p (.file bytes)).follow q parts = .ok q' := by
  induction parts generalizing q with
  | nil => exact h
  | cons part parts ih =>
    rw [follow] at h ⊢
    cases hstep : t.step q part with
    | error error =>
      rw [hstep] at h
      cases h
    | ok q'' =>
      rw [hstep] at h
      rw [step_put hp hnot bytes hstep]
      exact ih h

/-- If `t.locate workDir path = .ok q` and no directory is at `p`, `path` leads to `q` in
`t.put p (.file bytes)` as well. -/
theorem locate_put {workDir q : Place} {path : String} (h : t.locate workDir path = .ok q) :
    (t.put p (.file bytes)).locate workDir path = .ok q := by
  rw [locate] at h ⊢
  cases hcheck : checkPath path with
  | error error =>
    rw [hcheck] at h
    cases h
  | ok _ =>
    rw [hcheck] at h
    exact follow_put hp hnot bytes h

end Put

/-! ## Places of new files -/

/-- `path` leads to a place `p` where a file may be created: it is allowed, all but its last part
lead to a directory, and the last part is a name, under which there is no directory. -/
structure Creatable (t : FileTree) (workDir : Place) (path : String) (p : Place) : Prop where
  /-- The path is allowed. -/
  allowed : checkPath path = .ok ()
  /-- The name in a directory that the path leads to. -/
  named : ∃ dir name before, p = dir ++ [name] ∧ partsOf path = before ++ [name] ∧
    t.follow workDir before = .ok dir ∧ t.get? dir = some .directory ∧
    ¬ (name = "" ∨ name = ".") ∧ name ≠ ".." ∧ ¬ nameLimit < Utf8.length name.toList
  /-- There is no directory. -/
  notDirectory : t.get? p ≠ some .directory

/-- `(if c then .error error else x) = .ok a` iff `c` fails and `x = .ok a`. -/
theorem ite_error_eq_ok_iff {ε α : Type} {c : Prop} [Decidable c] {error : ε} {x : Except ε α}
    {a : α} : (if c then .error error else x) = .ok a ↔ ¬ c ∧ x = .ok a := by
  by_cases hc : c
  · simp [hc]
  · simp [hc]

/-- If `parts` do not end with an empty one, the last that is not empty is the last:
`parts = before.reverse ++ [name]`. -/
theorem eq_append_of_dropWhile {parts before : List String} {name : String}
    (h : parts.reverse.dropWhile (· == "") = name :: before) (hlast : parts.getLast? ≠ some "") :
    parts = before.reverse ++ [name] ∧ name ≠ "" := by
  -- the last part is not empty, so that nothing was dropped
  have hreverse : parts.reverse = name :: before := by
    cases hparts : parts.reverse with
    | nil =>
      rw [hparts] at h
      cases h
    | cons last rest =>
      have hne : ¬ (last == "") = true := by
        rw [← List.head?_reverse, hparts, List.head?_cons, ne_eq, Option.some.injEq] at hlast
        simpa using hlast
      rw [hparts, List.dropWhile_cons, if_neg hne] at h
      exact h
  have hparts : parts = before.reverse ++ [name] := by
    rw [← List.reverse_reverse parts, hreverse, List.reverse_cons]
  refine ⟨hparts, ?_⟩
  rintro rfl
  rw [hparts, List.getLast?_concat] at hlast
  exact hlast rfl

/-- `t.target workDir path = .ok p` gives `t.Creatable workDir path p`. -/
theorem creatable_of_target {workDir : Place} {path : String} (h : t.target workDir path = .ok p) :
    t.Creatable workDir path p := by
  rw [target] at h
  -- each check that fails is an error, which `h` excludes; what they let through makes the place
  cases hcheck : checkPath path with
  | error error =>
    rw [hcheck] at h
    cases h
  | ok _ =>
    simp only [hcheck] at h
    cases hnamed : (partsOf path).reverse.dropWhile (· == "") with
    | nil =>
      rw [hnamed] at h
      cases h
    | cons name before =>
      simp only [hnamed, follow_append] at h
      cases hbefore : t.follow workDir before.reverse with
      | error error =>
        rw [hbefore] at h
        cases h
      | ok dir =>
        simp only [hbefore] at h
        cases hdot : t.follow dir ["."] with
        | error error =>
          rw [hdot] at h
          cases h
        | ok dir' =>
          obtain ⟨rfl, hdir⟩ := follow_dot_eq_ok_iff.1 hdot
          simp only [hdot, ite_error_eq_ok_iff] at h
          obtain ⟨hslash, hdots, hlong, hdirectory, hplace⟩ := h
          cases hplace
          obtain ⟨hparts, hempty⟩ := eq_append_of_dropWhile hnamed hslash
          obtain ⟨hdot, hback⟩ := not_or.1 hdots
          exact ⟨hcheck, ⟨dir, name, before.reverse, rfl, hparts, hbefore, hdir,
            not_or.2 ⟨hempty, hdot⟩, hback, hlong⟩, hdirectory⟩

/-- `t.target workDir path = .ok p` iff `t.Creatable workDir path p`. -/
theorem target_eq_ok_iff {workDir : Place} {path : String} :
    t.target workDir path = .ok p ↔ t.Creatable workDir path p := by
  refine ⟨creatable_of_target, ?_⟩
  rintro ⟨hcheck, ⟨dir, name, before, rfl, hparts, hfollow, hdir, hstay, hback, hlong⟩, hdirectory⟩
  obtain ⟨hempty, hdot⟩ := not_or.1 hstay
  have hnamed : (partsOf path).reverse.dropWhile (· == "") = name :: before.reverse := by
    have hne : ¬ (name == "") = true := by simpa using hempty
    rw [hparts, List.reverse_append, List.reverse_singleton, List.singleton_append,
      List.dropWhile_cons, if_neg hne]
  have hslash : (partsOf path).getLast? ≠ some "" := by
    rw [hparts, List.getLast?_concat, ne_eq, Option.some.injEq]
    exact hempty
  have hstay' := follow_dot_eq_ok_iff.2 ⟨rfl, hdir⟩
  simp only [target, hcheck, hnamed, List.reverse_reverse, follow_append, hfollow, hstay',
    if_neg hslash, if_neg (not_or.2 ⟨hdot, hback⟩), if_neg hlong, if_neg hdirectory]

/-- `t.Creatable workDir path p` excludes the root, `p = []`. -/
theorem Creatable.ne_nil {workDir : Place} {path : String} (h : t.Creatable workDir path p) :
    p ≠ [] := by
  obtain ⟨dir, name, -, rfl, -⟩ := h.named
  simp

/-- If `t.Creatable workDir path p`, then `path` leads to `p` in `t.put p (.file bytes)`. -/
theorem locate_put_target {workDir : Place} {path : String} (h : t.Creatable workDir path p)
    (bytes : List UInt8) : (t.put p (.file bytes)).locate workDir path = .ok p := by
  have hp := h.ne_nil
  obtain ⟨dir, name, before, rfl, hparts, hfollow, hdir, hstay, hback, hlong⟩ := h.named
  have hfollow' := follow_put hp h.notDirectory bytes hfollow
  have hdir' := get?_put_of_directory hp h.notDirectory bytes hdir
  have hthere : ((t.put (dir ++ [name]) (.file bytes)).get? (dir ++ [name])).isSome := by
    rw [get?_put t hp, if_pos rfl]
    rfl
  have hstep : (t.put (dir ++ [name]) (.file bytes)).step dir name = .ok (dir ++ [name]) := by
    simp only [step, hdir', if_neg hstay, if_neg hback, if_neg hlong, if_pos hthere]
  rw [locate, h.allowed, hparts]
  simp only [follow_append, hfollow', follow, hstep]

end FileTree
end Concolic

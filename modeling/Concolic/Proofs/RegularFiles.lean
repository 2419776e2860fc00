import Concolic.Config.Search
import Concolic.Proofs.Files
import Mathlib.Data.List.Basic
import Mathlib.Data.List.Induction

/-! # Places of regular files

In a tree whose entries have names and lie in directories, a place is reached by its names
(`FileTree.Sound.follow_eq`). The configuration file of a name in a directory is looked for at
places (`FileTree.configPlace?`) and read there (`FileTree.configFile?_eq`). -/

namespace Concolic
namespace FileTree

variable {t : FileTree} {p q dir : Place} {name : String}

/-! ## Sound trees -/

/-- A directory can hold an entry under `name`. -/
def IsName (name : String) : Prop :=
  name ∉ ["", ".", ".."] ∧ (∀ c ∈ name.toList, c ≠ '/' ∧ c ≠ '\x00') ∧
    Utf8.length name.toList ≤ nameLimit

instance (name : String) : Decidable (IsName name) :=
  -- goes through the characters of the name, and not through all characters
  have : Decidable (∀ c ∈ name.toList, c ≠ '/' ∧ c ≠ '\x00') := List.decidableBAll _ _
  inferInstanceAs (Decidable (_ ∧ _ ∧ _))

/-- The entries of `t` have names and lie in directories. -/
def Sound (t : FileTree) : Prop :=
  ∀ e ∈ t.entries, (∀ name ∈ e.1.getLast?, IsName name) ∧ t.get? e.1.dropLast = some .directory

instance (t : FileTree) : Decidable t.Sound := inferInstanceAs (Decidable (∀ e ∈ t.entries, _ ∧ _))

/-- `t.get? (p ++ [name])` is some entry iff `t.entries` has one for it. -/
theorem isSome_get?_append_iff :
    (t.get? (p ++ [name])).isSome ↔ ∃ e, (p ++ [name], e) ∈ t.entries := by
  have hne : p ++ [name] ≠ [] := by simp
  rw [get?, if_neg hne, List.lookup_isSome_iff]
  constructor
  · rintro ⟨⟨q, e⟩, hmem, hq⟩
    obtain rfl : p ++ [name] = q := by simpa using hq
    exact ⟨e, hmem⟩
  · rintro ⟨e, hmem⟩
    exact ⟨(p ++ [name], e), hmem, by simp⟩

/-- `name ∈ t.names p` iff something is at `p ++ [name]`. -/
theorem mem_names_iff : name ∈ t.names p ↔ (t.get? (p ++ [name])).isSome := by
  rw [isSome_get?_append_iff, names, List.mem_filterMap]
  constructor
  · -- an entry with the directory `p` has a last name, which is the one that is listed
    rintro ⟨⟨q, e⟩, hmem, hname⟩
    cases hlast : q.getLast? with
    | none => simp [hlast] at hname
    | some last =>
      simp only [hlast] at hname
      split at hname
      · rename_i hinit
        obtain rfl : last = name := Option.some.inj hname
        have hq : q = p ++ [last] := by
          rw [← hinit]
          exact (List.dropLast_append_getLast? last hlast).symm
        exact ⟨e, hq ▸ hmem⟩
      · cases hname
  · rintro ⟨e, hmem⟩
    exact ⟨_, hmem, by simp⟩

/-- `t.hasEntry p start` iff something is at some `p ++ [name]` with `start` at the front of
`name`. -/
theorem hasEntry_iff {start : String} :
    t.hasEntry p start
      ↔ ∃ name, (t.get? (p ++ [name])).isSome ∧ start.toList <+: name.toList := by
  simp [hasEntry, mem_names_iff]

namespace Sound

variable (h : t.Sound)
include h

/-- If something is at `p ++ [name]` in a sound tree, then `IsName name`. -/
theorem isName (hget : (t.get? (p ++ [name])).isSome) : IsName name := by
  obtain ⟨e, hmem⟩ := isSome_get?_append_iff.1 hget
  exact (h _ hmem).1 name (by simp)

/-- If something is at `p ++ [name]` in a sound tree, then `p` is a directory. -/
theorem directory (hget : (t.get? (p ++ [name])).isSome) : t.get? p = some .directory := by
  obtain ⟨e, hmem⟩ := isSome_get?_append_iff.1 hget
  simpa using (h _ hmem).2

/-- If something is at `p ++ name :: parts` in a sound tree, then `p` is a directory. -/
theorem directory_of_append {parts : Place} (hget : (t.get? (p ++ name :: parts)).isSome) :
    t.get? p = some .directory := by
  induction parts using List.reverseRecOn with
  | nil => exact h.directory hget
  | append_singleton parts last ih =>
    have hlast : (t.get? ((p ++ name :: parts) ++ [last])).isSome := by simpa using hget
    exact ih (by rw [h.directory hlast]; rfl)

/-- `t.step p name` goes to `p ++ [name]` in a directory `p` if something is there, and fails
otherwise. -/
theorem step_eq (hdir : t.get? p = some .directory) (hname : name ∉ ["", ".", ".."]) :
    (∃ error, (t.get? (p ++ [name])).isSome = false ∧ t.step p name = .error error) ∨
      ((t.get? (p ++ [name])).isSome ∧ t.step p name = .ok (p ++ [name])) := by
  simp only [List.mem_cons, List.not_mem_nil, or_false, not_or] at hname
  obtain ⟨hempty, hdot, hback⟩ := hname
  simp only [step, hdir, hempty, hdot, hback, or_self, if_false]
  cases hget : (t.get? (p ++ [name])).isSome with
  | true =>
    have hshort : ¬ nameLimit < Utf8.length name.toList := Nat.not_lt.2 (h.isName hget).2.2
    simp [hshort]
  | false =>
    split <;> simp

/-- `t.follow p parts = .ok (p ++ parts)` in a sound tree if something is at `p ++ parts`. -/
theorem follow_eq {parts : Place} (hget : (t.get? (p ++ parts)).isSome) :
    t.follow p parts = .ok (p ++ parts) := by
  induction parts generalizing p with
  | nil => simp [follow]
  | cons part parts ih =>
    have hhere : t.get? p = some .directory := h.directory_of_append hget
    have hnext : (t.get? (p ++ [part] ++ parts)).isSome := by simpa using hget
    -- a sound tree has every directory on the way
    have hpart : (t.get? (p ++ [part])).isSome := by
      cases parts with
      | nil => simpa using hnext
      | cons part' parts =>
        rw [h.directory_of_append hnext]
        rfl
    rcases h.step_eq hhere (h.isName hpart).1 with ⟨error, hnone, -⟩ | ⟨-, hstep⟩
    · rw [hpart] at hnone
      cases hnone
    · rw [follow, hstep]
      simpa using ih hnext

end Sound

/-! ## Places of regular files -/

/-- The content of the regular file at `p`. -/
def content? (t : FileTree) (p : Place) : Option (List UInt8) :=
  match t.get? p with
  | some (.file bytes) => some bytes
  | _ => none

/-- `t.content? p = none` if `p` is a directory. -/
theorem content?_of_directory (h : t.get? p = some .directory) : t.content? p = none := by
  rw [content?, h]

/-- If `t.content? p` is some content, something is at `p`. -/
theorem isSome_get?_of_content? (h : (t.content? p).isSome) : (t.get? p).isSome := by
  rw [content?] at h
  split at h
  · rename_i hget
    rw [hget]
    rfl
  · cases h

/-- The place of the regular file that `parts` lead to from `start`. -/
def regularFile? (t : FileTree) (start : Place) (parts : List String) : Option Place :=
  match t.follow start parts with
  | .error _ => none
  | .ok p => if (t.content? p).isSome then some p else none

/-- The content that `t.follow start parts` leads to is that of `t.regularFile? start parts`. -/
theorem content?_of_follow (t : FileTree) (start : Place) (parts : List String) :
    (match t.follow start parts with
      | .error _ => none
      | .ok p => t.content? p)
      = (t.regularFile? start parts).bind t.content? := by
  rw [regularFile?]
  cases t.follow start parts with
  | error error => rfl
  | ok p => cases hcontent : t.content? p <;> simp [hcontent]

/-- `t.fileAt? p = (t.regularFile? [] p).bind t.content?`. -/
theorem fileAt?_eq (t : FileTree) (p : Place) :
    t.fileAt? p = (t.regularFile? [] p).bind t.content? :=
  content?_of_follow t [] p

/-- `t.contentAt? dir name = (t.regularFile? dir (partsOf name)).bind t.content?` for a relative
`name` without a NUL. -/
theorem contentAt?_eq (hnul : '\x00' ∉ name.toList) (hslash : name.toList.head? ≠ some '/') :
    t.contentAt? dir name = (t.regularFile? dir (partsOf name)).bind t.content? := by
  rw [← content?_of_follow]
  by_cases hempty : name = ""
  · -- the empty path is refused, and its only part leads to a directory
    subst hempty
    have hstay : ∀ p, t.follow dir (partsOf "") = .ok p → t.content? p = none := by
      intro p hp
      have hparts : partsOf "" = [""] := by decide
      rw [hparts, follow] at hp
      cases hstep : t.step dir "" with
      | error error => simp [hstep] at hp
      | ok q =>
        have hdir := get?_of_step hstep
        simp only [hstep, follow, Except.ok.injEq] at hp
        simp only [step, hdir, true_or, if_true, Except.ok.injEq] at hstep
        rw [← hp, ← hstep]
        exact content?_of_directory hdir
    have hrefused : t.contentAt? dir "" = none := by
      simp [contentAt?, openPath, locate, checkPath]
    rw [hrefused]
    cases hfollow : t.follow dir (partsOf "") with
    | error error => rfl
    | ok p => exact (hstay p hfollow).symm
  · -- a path that is checked is followed, and its entry decides
    have hcheck : checkPath name = .ok () := by
      simp [checkPath, hnul, hslash, hempty]
    simp only [contentAt?, openPath, locate, hcheck]
    cases t.follow dir (partsOf name) with
    | error error => rfl
    | ok p =>
      simp only [content?]
      cases t.get? p with
      | none => rfl
      | some entry => cases entry <;> rfl

/-- The file at `p` with `extension` behind its name, found from the root. -/
def extendedPlace? (t : FileTree) (p : Place) (extension : String) : Option (Format × Place) := do
  let named ← extended? p ("." ++ extension)
  let q ← t.regularFile? [] named
  let f ← Format.ofExtension? extension
  return (f, q)

/-- The configuration file of `name` in `dir`: its format and its place. -/
def configPlace? (t : FileTree) (dir : Place) (name : String) : Option (Format × Place) :=
  if '\x00' ∈ name.toList ∨ name.toList.head? = some '/' then none
  else
    match t.regularFile? dir (partsOf name) with
    | some p =>
      (((dir.join name).getLast?.bind extension?).bind Format.ofExtension?).map fun f => (f, p)
    | none =>
      Format.allExtensions.findSome? (t.extendedPlace? (dir.join name))

/-- The format of `c` with the content at its place. -/
def readPlace (t : FileTree) (c : Format × Place) : Option (Format × List UInt8) :=
  (t.content? c.2).map fun bytes => (c.1, bytes)

/-- If `t.regularFile? start parts = some p`, then `t.content? p` is some content. -/
theorem isSome_content?_of_regularFile? {start : Place} {parts : List String}
    (h : t.regularFile? start parts = some p) : (t.content? p).isSome := by
  rw [regularFile?] at h
  split at h
  · cases h
  · split at h
    · rename_i hcontent
      rwa [← Option.some.inj h]
    · cases h

/-- `findSome?` of `(f a).bind g` is `findSome?` of `f` and then `g`, if `g` succeeds on what `f`
gives. -/
theorem findSome?_bind {α β γ : Type} {f : α → Option β} {g : β → Option γ}
    (h : ∀ a b, f a = some b → (g b).isSome) (as : List α) :
    as.findSome? (fun a => (f a).bind g) = (as.findSome? f).bind g := by
  induction as with
  | nil => rfl
  | cons a as ih =>
    rw [List.findSome?_cons, List.findSome?_cons]
    cases hf : f a with
    | none => exact ih
    | some b =>
      obtain ⟨c, hc⟩ := Option.isSome_iff_exists.1 (h a b hf)
      simp [hc]

/-- If `t.extendedPlace? p extension = some c`, then `t.readPlace c` is some content. -/
theorem isSome_readPlace_of_extendedPlace? {extension : String} {c : Format × Place}
    (h : t.extendedPlace? p extension = some c) : (t.readPlace c).isSome := by
  simp only [extendedPlace?, Option.bind_eq_bind, Option.bind_eq_some_iff, Option.pure_def,
    Option.some.injEq] at h
  obtain ⟨named, -, q, hq, f, -, rfl⟩ := h
  simpa [readPlace] using isSome_content?_of_regularFile? hq

/-- `t.configFile? dir name = (t.configPlace? dir name).bind t.readPlace`. -/
theorem configFile?_eq (t : FileTree) (dir : Place) (name : String) :
    t.configFile? dir name = (t.configPlace? dir name).bind t.readPlace := by
  rw [configFile?, configPlace?]
  split
  · rfl
  · rename_i hallowed
    obtain ⟨hnul, hslash⟩ := not_or.1 hallowed
    rw [contentAt?_eq hnul hslash]
    cases hplace : t.regularFile? dir (partsOf name) with
    | some p =>
      obtain ⟨bytes, hbytes⟩ := Option.isSome_iff_exists.1 (isSome_content?_of_regularFile? hplace)
      cases ((dir.join name).getLast?.bind extension?).bind Format.ofExtension? with
      | none => simp [hbytes]
      | some f => simp [hbytes, readPlace]
    | none =>
      simp only [Option.bind_none]
      rw [← findSome?_bind fun extension c => isSome_readPlace_of_extendedPlace?]
      congr 1
      funext extension
      -- the place is read before the format is looked up
      simp only [extendedPlace?, fileAt?_eq, Option.bind_eq_bind, Option.bind_assoc]
      congr 1
      funext named
      congr 1
      funext q
      cases hcontent : t.content? q <;> cases Format.ofExtension? extension <;>
        simp [readPlace, hcontent]

end FileTree
end Concolic

import Concolic.BufferName
import Concolic.Config.Layers
import Concolic.Proofs.RegularFiles

/-! # Configuration files that are found

The search for a configuration file stops at the first directory with an entry whose name starts
like the file's (`FileTree.search?`), and only then is the file looked for by its whole name. So of
the directories upward the closest one with a configuration file counts only if no closer one has
an entry that starts alike, and no regular file of exactly the name lies beside
(`ConfigSource.file_of_closest`). -/

namespace Concolic

namespace FileTree

variable {t : FileTree} {dir : Place} {name : String}

/-! ## Names with extensions -/

/-- `extension ≠ ""` and `'.' ∉ extension.toList` for `extension ∈ Format.allExtensions`. -/
theorem point_not_mem {extension : String} (h : extension ∈ Format.allExtensions) :
    extension ≠ "" ∧ '.' ∉ extension.toList := by
  revert extension
  decide

/-- `Format.ofExtension? extension = some f` iff `extension ∈ f.extensions`. -/
theorem ofExtension?_eq_some_iff {extension : String} {f : Format} :
    Format.ofExtension? extension = some f ↔ extension ∈ f.extensions := by
  constructor
  · intro h
    simpa using List.find?_some h
  · revert extension
    cases f <;> decide

/-- `name` with a point and `extension` behind it. -/
def extendedName (name extension : String) : String := name ++ ("." ++ extension)

/-- `extendedName name extension ≠ name`. -/
theorem extendedName_ne (name extension : String) : extendedName name extension ≠ name := by
  intro heq
  have hlength := congrArg (fun s : String => s.toList.length) heq
  simp [extendedName] at hlength

section ExtendedName

variable {extension extension' name' : String} (h : extension ∈ Format.allExtensions)
include h

/-- `extendedName name extension` is split at its last point into `name` and `extension`. -/
theorem splitLast_extendedName (name : String) :
    splitLast '.' (extendedName name extension).toList = some (name.toList, extension.toList) := by
  have hchars : (extendedName name extension).toList
      = name.toList ++ '.' :: extension.toList := by simp [extendedName]
  rw [hchars]
  exact BufferName.splitLast_append (point_not_mem h).2

/-- `extendedName` is injective in the name. -/
theorem eq_of_extendedName (h' : extension' ∈ Format.allExtensions)
    (heq : extendedName name extension = extendedName name' extension') : name = name' := by
  have hsplit := splitLast_extendedName h name
  rw [heq, splitLast_extendedName h' name'] at hsplit
  exact (String.toList_inj.1 (Prod.mk.inj (Option.some.inj hsplit)).1).symm

/-- `extendedName name extension` stands for no directory. -/
theorem extendedName_not_mem (name : String) :
    extendedName name extension ∉ ["", ".", ".."] := by
  intro hmem
  have hsplit := splitLast_extendedName h name
  have hempty : extension.toList = [] := by
    -- behind the last point of these three there is nothing
    simp only [List.mem_cons, List.not_mem_nil, or_false] at hmem
    rcases hmem with heq | heq | heq
    · rw [heq] at hsplit
      simp at hsplit
    · rw [heq] at hsplit
      simpa [splitLast] using (Prod.mk.inj (Option.some.inj hsplit)).2
    · rw [heq] at hsplit
      simpa [splitLast] using (Prod.mk.inj (Option.some.inj hsplit)).2
  exact (point_not_mem h).1 (by simpa using hempty)

end ExtendedName

/-- `partsOf name = [name]` if `name` has no slash. -/
theorem partsOf_eq (h : '/' ∉ name.toList) : partsOf name = [name] := by
  have hsplit : ∀ cs : List Char, '/' ∉ cs → splitSlash cs = [cs] := by
    intro cs hcs
    induction cs with
    | nil => rfl
    | cons c cs ih =>
      obtain ⟨hc, hcs⟩ := not_or.1 (mt List.mem_cons.2 hcs)
      rw [splitSlash, if_neg (Ne.symm hc), ih hcs]
  rw [partsOf, hsplit _ h]
  simp

/-- `dir.join name = dir ++ [name]`, unless `name` stands for `dir` itself. -/
theorem join_eq (h : '/' ∉ name.toList) (dir : Place) :
    dir.join name = if name = "" ∨ name = "." then dir else dir ++ [name] := by
  rw [Place.join, partsOf_eq h]
  by_cases hempty : name = ""
  · simp [hempty]
  · by_cases hdot : name = "." <;> simp [hempty, hdot]

/-! ## Configuration files of a directory -/

/-- `c` is a configuration file of `name` in `dir`: a regular file with a point and an extension of
its format behind `name`. -/
def IsConfigFile (t : FileTree) (dir : Place) (name : String) (c : Format × Place) : Prop :=
  ∃ extension ∈ c.1.extensions,
    c.2 = dir ++ [extendedName name extension] ∧ (t.content? c.2).isSome

/-- `dir` has a configuration file of `name`. -/
def HasConfigFile (t : FileTree) (dir : Place) (name : String) : Prop :=
  ∃ c, t.IsConfigFile dir name c

/-- `t.HasConfigFile dir name` iff a regular file is at `dir` under `extendedName name extension`
for some extension of a format. -/
theorem hasConfigFile_iff :
    t.HasConfigFile dir name ↔ ∃ extension ∈ Format.allExtensions,
      (t.content? (dir ++ [extendedName name extension])).isSome := by
  constructor
  · rintro ⟨⟨f, p⟩, extension, hf, hp, hcontent⟩
    obtain rfl : p = _ := hp
    exact ⟨extension, List.mem_flatMap.2 ⟨f, f.mem_all, hf⟩, hcontent⟩
  · rintro ⟨extension, hext, hcontent⟩
    obtain ⟨f, -, hf⟩ := List.mem_flatMap.1 hext
    exact ⟨(f, _), extension, hf, rfl, hcontent⟩

instance (t : FileTree) (dir : Place) (name : String) : Decidable (t.HasConfigFile dir name) :=
  decidable_of_iff' _ hasConfigFile_iff

/-- The file of exactly `name` in `dir`, which is a configuration file if `name` itself has an
extension of a format. -/
def exactPlace? (t : FileTree) (dir : Place) (name : String) : Option (Format × Place) :=
  if (t.content? (dir ++ [name])).isSome then
    ((extension? name).bind Format.ofExtension?).map fun f => (f, dir ++ [name])
  else none

namespace Sound

variable (h : t.Sound)
include h

/-- `t.hasEntry dir start` gives that `dir` is a directory. -/
theorem directory_of_hasEntry {start : String} (hentry : t.hasEntry dir start = true) :
    t.get? dir = some .directory := by
  obtain ⟨other, hother, -⟩ := hasEntry_iff.1 hentry
  exact h.directory hother

/-- `t.regularFile? dir [name]` is `dir ++ [name]` if a regular file is there, and `none`
otherwise. -/
theorem regularFile?_singleton (hdir : t.get? dir = some .directory)
    (hname : name ∉ ["", ".", ".."]) :
    t.regularFile? dir [name]
      = if (t.content? (dir ++ [name])).isSome then some (dir ++ [name]) else none := by
  rcases h.step_eq hdir hname with ⟨error, hnone, hstep⟩ | ⟨-, hstep⟩
  · have hcontent : ¬ (t.content? (dir ++ [name])).isSome := by
      intro hsome
      rw [isSome_get?_of_content? hsome] at hnone
      cases hnone
    rw [regularFile?, follow, hstep, if_neg hcontent]
  · rw [regularFile?, follow, hstep]
    rfl

/-- `t.regularFile? dir [name] = none` if `name` stands for a directory. -/
theorem regularFile?_of_mem (hname : name ∈ ["", ".", ".."]) :
    t.regularFile? dir [name] = none := by
  simp only [List.mem_cons, List.not_mem_nil, or_false] at hname
  rw [regularFile?, follow]
  cases hstep : t.step dir name with
  | error error => rfl
  | ok q =>
    have hdir := get?_of_step hstep
    have hq : t.content? q = none := by
      simp only [step, hdir] at hstep
      split at hstep
      · obtain rfl := Except.ok.inj hstep
        exact content?_of_directory hdir
      · rename_i hstay
        have hback : name = ".." := by
          rcases hname with heq | heq | heq
          · exact absurd (.inl heq) hstay
          · exact absurd (.inr heq) hstay
          · exact heq
        rw [if_pos hback] at hstep
        split at hstep
        · cases hstep
        · rename_i hroot
          -- the directory that holds a directory is one
          obtain ⟨init, last, rfl⟩ : ∃ init last, dir = init ++ [last] :=
            ⟨dir.dropLast, dir.getLast hroot, (List.dropLast_append_getLast hroot).symm⟩
          rw [List.dropLast_concat] at hstep
          obtain rfl := Except.ok.inj hstep
          exact content?_of_directory (h.directory (by rw [hdir]; rfl))
    simp [follow, hq]

/-- `t.regularFile? [] (dir ++ parts) = t.regularFile? dir parts` if `dir` is a directory. -/
theorem regularFile?_append (hdir : t.get? dir = some .directory) (parts : List String) :
    t.regularFile? [] (dir ++ parts) = t.regularFile? dir parts := by
  have hfollow : t.follow [] dir = .ok dir :=
    h.follow_eq (p := []) (by rw [List.nil_append, hdir]; rfl)
  rw [regularFile?, regularFile?, follow_append, hfollow]

/-- `t.extendedPlace? (dir ++ [name]) extension` is the regular file under
`extendedName name extension`, if there is one, with the format of the extension. -/
theorem extendedPlace?_append (hdir : t.get? dir = some .directory) (hname : name ≠ "..")
    {extension : String} (hext : extension ∈ Format.allExtensions) :
    t.extendedPlace? (dir ++ [name]) extension
      = if (t.content? (dir ++ [extendedName name extension])).isSome then
          (Format.ofExtension? extension).map fun f => (f, dir ++ [extendedName name extension])
        else none := by
  have hextended : extended? (dir ++ [name]) ("." ++ extension)
      = some (dir ++ [extendedName name extension]) := by
    simp [extended?, hname, extendedName]
  rw [extendedPlace?, hextended]
  simp only [Option.bind_eq_bind, Option.bind_some, h.regularFile?_append hdir,
    h.regularFile?_singleton hdir (extendedName_not_mem hext name)]
  split <;> cases Format.ofExtension? extension <;> rfl

/-- `t.configPlace? dir name` is `t.exactPlace? dir name` if there is a regular file of exactly that
name, and otherwise one with `IsConfigFile`, if `t.HasConfigFile dir name`. -/
theorem configPlace?_cases (hdir : t.get? dir = some .directory)
    (hchars : ∀ c ∈ name.toList, c ≠ '/' ∧ c ≠ '\x00') (hname : name ∉ ["", ".", ".."]) :
    ((t.content? (dir ++ [name])).isSome → t.configPlace? dir name = t.exactPlace? dir name) ∧
    (t.content? (dir ++ [name]) = none →
      (∀ c, t.configPlace? dir name = some c → t.IsConfigFile dir name c) ∧
      (t.HasConfigFile dir name → (t.configPlace? dir name).isSome)) := by
  have hslash : '/' ∉ name.toList := fun hmem => (hchars _ hmem).1 rfl
  have hnul : '\x00' ∉ name.toList := fun hmem => (hchars _ hmem).2 rfl
  have hallowed : ¬ ('\x00' ∈ name.toList ∨ name.toList.head? = some '/') :=
    not_or.2 ⟨hnul, fun hhead => hslash (List.mem_of_mem_head? hhead)⟩
  simp only [List.mem_cons, List.not_mem_nil, or_false, not_or] at hname
  have hjoin : dir.join name = dir ++ [name] := by
    rw [join_eq hslash, if_neg (not_or.2 ⟨hname.1, hname.2.1⟩)]
  -- the name is a single part, so that the candidates lie in the directory itself
  rw [configPlace?, if_neg hallowed, partsOf_eq hslash, hjoin,
    h.regularFile?_singleton hdir (by simpa using hname)]
  constructor
  · intro hexact
    simp [hexact, exactPlace?]
  · intro hexact
    simp only [hexact, Option.isSome_none, Bool.false_eq_true, if_false]
    constructor
    · intro c hc
      -- a place that was found belongs to one of the extensions
      obtain ⟨extension, hext, hplace⟩ := List.exists_of_findSome?_eq_some hc
      rw [h.extendedPlace?_append hdir hname.2.2 hext] at hplace
      split at hplace
      · rename_i hcontent
        obtain ⟨f, hf, rfl⟩ := Option.map_eq_some_iff.1 hplace
        exact ⟨extension, ofExtension?_eq_some_iff.1 hf, rfl, hcontent⟩
      · cases hplace
    · intro hconfig
      obtain ⟨extension, hext, hcontent⟩ := hasConfigFile_iff.1 hconfig
      obtain ⟨f, hf⟩ := Option.isSome_iff_exists.1
        ((Format.ofExtension?_isSome_iff extension).2 hext)
      -- and where some extension has a file, the search does not come to nothing
      rw [List.findSome?_isSome_iff]
      refine ⟨extension, hext, ?_⟩
      rw [h.extendedPlace?_append hdir hname.2.2 hext, if_pos hcontent, hf]
      rfl

/-- `t.configPlace? dir name = t.exactPlace? dir name` without `t.HasConfigFile dir name`. -/
theorem configPlace?_eq_exactPlace? (hdir : t.get? dir = some .directory)
    (hchars : ∀ c ∈ name.toList, c ≠ '/' ∧ c ≠ '\x00') (hname : name ∉ ["", ".", ".."])
    (hnone : ¬ t.HasConfigFile dir name) : t.configPlace? dir name = t.exactPlace? dir name := by
  obtain ⟨hexact, hextended⟩ := h.configPlace?_cases hdir hchars hname
  cases hcontent : t.content? (dir ++ [name]) with
  | some bytes => exact hexact (by rw [hcontent]; rfl)
  | none =>
    have hnotfound : t.configPlace? dir name = none := by
      rw [Option.eq_none_iff_forall_ne_some]
      exact fun c hc => hnone ⟨c, (hextended hcontent).1 c hc⟩
    rw [hnotfound, exactPlace?, hcontent]
    rfl

/-- If `name` stands for a directory, `t.configPlace? dir name` is no `IsConfigFile`: the extensions
go behind the name of the directory. -/
theorem not_isConfigFile_of_mem (hdir : t.get? dir = some .directory)
    (hname : name ∈ ["", ".", ".."]) {c : Format × Place} (hc : t.configPlace? dir name = some c)
    (dir' : Place) : ¬ t.IsConfigFile dir' name c := by
  have hslash : '/' ∉ name.toList := by
    have hall : ∀ other ∈ ["", ".", ".."], '/' ∉ other.toList := by decide
    exact hall name hname
  -- these names lead to directories, so that only names with an extension are left
  rw [configPlace?, partsOf_eq hslash, h.regularFile?_of_mem hname] at hc
  split at hc
  · cases hc
  · obtain ⟨extension, hext, hplace⟩ := List.exists_of_findSome?_eq_some hc
    rw [join_eq hslash] at hplace
    split at hplace
    · -- the directory's own name with the extension, beside the directory
      rename_i hstay
      cases hdir' : dir.getLast? with
      | none => simp [extendedPlace?, extended?, hdir'] at hplace
      | some last =>
        obtain ⟨init, rfl⟩ : ∃ init, dir = init ++ [last] :=
          ⟨dir.dropLast, (List.dropLast_append_getLast? last hdir').symm⟩
        have hthere : (t.get? (init ++ [last])).isSome := by rw [hdir]; rfl
        have hlast := (h.isName hthere).1
        have hback : last ≠ ".." := fun heq => hlast (by simp [heq])
        rw [h.extendedPlace?_append (h.directory hthere) hback hext] at hplace
        split at hplace
        · obtain ⟨f, hf, rfl⟩ := Option.map_eq_some_iff.1 hplace
          rintro ⟨extension', hf', hplace', -⟩
          have hext' : extension' ∈ Format.allExtensions :=
            List.mem_flatMap.2 ⟨f, f.mem_all, hf'⟩
          have hnames := (List.append_inj' hplace' rfl).2
          rw [eq_of_extendedName hext hext' (List.singleton_inj.1 hnames)] at hlast
          exact hlast hname
        · cases hplace
    · rename_i hstay
      -- and nothing is put behind the name of the directory above
      have hback : name = ".." := by
        simp only [List.mem_cons, List.not_mem_nil, or_false] at hname
        rcases hname with heq | heq | heq
        · exact absurd (.inl heq) hstay
        · exact absurd (.inr heq) hstay
        · exact heq
      simp [extendedPlace?, extended?, hback] at hplace

end Sound

/-- `t.exactPlace? dir name` is no `IsConfigFile`: nothing is behind the name. -/
theorem not_isConfigFile_of_exactPlace? {c : Format × Place}
    (hc : t.exactPlace? dir name = some c) (dir' : Place) : ¬ t.IsConfigFile dir' name c := by
  rintro ⟨extension, -, hplace, -⟩
  rw [exactPlace?] at hc
  split at hc
  · obtain ⟨f, -, rfl⟩ := Option.map_eq_some_iff.1 hc
    have hnames := (List.append_inj' hplace rfl).2
    exact extendedName_ne name extension (List.singleton_inj.1 hnames).symm
  · cases hc

/-- `t.HasConfigFile dir name` gives `t.hasEntry dir name`. -/
theorem HasConfigFile.hasEntry (h : t.HasConfigFile dir name) : t.hasEntry dir name = true := by
  obtain ⟨extension, -, hcontent⟩ := hasConfigFile_iff.1 h
  refine hasEntry_iff.2 ⟨_, isSome_get?_of_content? hcontent, ?_⟩
  simp [extendedName]

/-- `t.HasConfigFile dir name` in a sound tree gives that `name` has no slash and no NUL. -/
theorem HasConfigFile.chars (h : t.HasConfigFile dir name) (hsound : t.Sound) :
    ∀ c ∈ name.toList, c ≠ '/' ∧ c ≠ '\x00' := by
  obtain ⟨extension, -, hcontent⟩ := hasConfigFile_iff.1 h
  intro c hc
  apply (hsound.isName (isSome_get?_of_content? hcontent)).2.1
  simp [extendedName, hc]

end FileTree

/-! ## The file of a source -/

namespace ConfigSource

open FileTree

variable {s : ConfigSource} {name : String} {dir : Place} {nearer farther : List Place}

/-- The configuration file of `name` that `s` finds: its format and its place. -/
def filePlace? (s : ConfigSource) (name : String) : Option (Format × Place) :=
  match s.files.search? (s.workDir :: s.alsoFrom) name with
  | some dir => s.files.configPlace? dir name
  | none => s.files.configPlace? s.workDir name

/-- `s.file? name = (s.filePlace? name).bind s.files.readPlace`. -/
theorem file?_eq (s : ConfigSource) (name : String) :
    s.file? name = (s.filePlace? name).bind s.files.readPlace := by
  rw [file?, filePlace?]
  cases s.files.search? (s.workDir :: s.alsoFrom) name with
  | none => exact configFile?_eq _ _ _
  | some dir => exact configFile?_eq _ _ _

/-- `s.filePlace? name` is the `configPlace?` in the first of `nearer` that `hasEntry`, or else in
`dir`. -/
theorem filePlace?_eq (hway : s.workDir.upward = nearer ++ dir :: farther)
    (hdir : s.files.hasEntry dir name = true) :
    s.filePlace? name
      = s.files.configPlace? ((nearer.find? fun d => s.files.hasEntry d name).getD dir) name := by
  rw [filePlace?, search?, List.flatMap_cons, hway, List.append_assoc, List.find?_append]
  cases nearer.find? fun d => s.files.hasEntry d name with
  | none => simp [hdir]
  | some d => simp

section Closest

variable (hsound : s.files.Sound) (hway : s.workDir.upward = nearer ++ dir :: farther)
  (hdir : s.files.HasConfigFile dir name)
include hsound hway hdir

/-- If the search stops at one of `nearer`, none of which has `HasConfigFile`, `s.filePlace? name`
is the `exactPlace?` there. -/
theorem filePlace?_of_nearer (hnearer : ∀ d ∈ nearer, ¬ s.files.HasConfigFile d name)
    (hname : name ∉ ["", ".", ".."]) {d : Place}
    (hd : nearer.find? (fun d => s.files.hasEntry d name) = some d) :
    s.filePlace? name = s.files.exactPlace? d name := by
  have hentry := List.find?_some hd
  rw [filePlace?_eq hway hdir.hasEntry, hd]
  exact hsound.configPlace?_eq_exactPlace? (hsound.directory_of_hasEntry hentry)
    (hdir.chars hsound) hname (hnearer d (List.mem_of_find?_eq_some hd))

omit hsound in
/-- If none of `nearer` has `hasEntry`, then `s.filePlace? name = s.files.configPlace? dir name`. -/
theorem filePlace?_of_no_nearer (hentries : ∀ d ∈ nearer, s.files.hasEntry d name = false) :
    s.filePlace? name = s.files.configPlace? dir name := by
  rw [filePlace?_eq hway hdir.hasEntry, List.find?_eq_none.2 (by simpa using hentries)]
  rfl

/-- If `name` stands for a directory, `s.filePlace? name` is no `IsConfigFile`. -/
theorem not_isConfigFile_of_filePlace? (hname : name ∈ ["", ".", ".."]) {c : Format × Place}
    (hc : s.filePlace? name = some c) (dir' : Place) : ¬ s.files.IsConfigFile dir' name c := by
  rw [filePlace?_eq hway hdir.hasEntry] at hc
  have hstop : s.files.hasEntry
      ((nearer.find? fun d => s.files.hasEntry d name).getD dir) name = true := by
    cases hfind : nearer.find? fun d => s.files.hasEntry d name with
    | none => exact hdir.hasEntry
    | some d =>
      have hentry := List.find?_some hfind
      exact hentry
  exact hsound.not_isConfigFile_of_mem (hsound.directory_of_hasEntry hstop) hname hc dir'

end Closest

/-- **The file of the closest directory.** Of the directories upward from the working directory, let
`dir` be the closest one with `s.files.HasConfigFile dir name`. The file that is found is one of its
configuration files exactly if no directory before it has any entry that starts with the name, and
no regular file of exactly the name lies beside it; the name must not stand for a directory. Where
the search stops at a nearer directory, or at a file of exactly the name, that file is found if its
own name has an extension of a format, and no file otherwise:
`s.filePlace? name = s.files.exactPlace? d name`. -/
theorem file_of_closest (hsound : s.files.Sound)
    (hway : s.workDir.upward = nearer ++ dir :: farther) (hdir : s.files.HasConfigFile dir name)
    (hnearer : ∀ d ∈ nearer, ¬ s.files.HasConfigFile d name) :
    s.file? name = (s.filePlace? name).bind s.files.readPlace ∧
    ((∃ c, s.filePlace? name = some c ∧ s.files.IsConfigFile dir name c) ↔
      name ∉ ["", ".", ".."] ∧ (∀ d ∈ nearer, s.files.hasEntry d name = false) ∧
        s.files.content? (dir ++ [name]) = none) ∧
    (name ∉ ["", ".", ".."] →
      (∀ d, nearer.find? (fun d => s.files.hasEntry d name) = some d →
        s.filePlace? name = s.files.exactPlace? d name) ∧
      ((∀ d ∈ nearer, s.files.hasEntry d name = false) →
        (s.files.content? (dir ++ [name])).isSome →
        s.filePlace? name = s.files.exactPlace? dir name)) := by
  have hcases (hname : name ∉ ["", ".", ".."]) := hsound.configPlace?_cases
    (hsound.directory_of_hasEntry hdir.hasEntry) (hdir.chars hsound) hname
  have hearly (hname : name ∉ ["", ".", ".."]) (d : Place)
      (hd : nearer.find? (fun d => s.files.hasEntry d name) = some d) :
      s.filePlace? name = s.files.exactPlace? d name :=
    filePlace?_of_nearer hsound hway hdir hnearer hname hd
  have hexact (hname : name ∉ ["", ".", ".."])
      (hentries : ∀ d ∈ nearer, s.files.hasEntry d name = false)
      (hcontent : (s.files.content? (dir ++ [name])).isSome) :
      s.filePlace? name = s.files.exactPlace? dir name :=
    (filePlace?_of_no_nearer hway hdir hentries).trans ((hcases hname).1 hcontent)
  refine ⟨file?_eq s name, ⟨?_, ?_⟩, fun hname => ⟨hearly hname, hexact hname⟩⟩
  · rintro ⟨c, hc, hconfig⟩
    have hname : name ∉ ["", ".", ".."] := fun hmem =>
      not_isConfigFile_of_filePlace? hsound hway hdir hmem hc dir hconfig
    -- a nearer entry would have ended the search early, with another file or none
    have hentries : ∀ d ∈ nearer, s.files.hasEntry d name = false := by
      cases hfind : nearer.find? fun d => s.files.hasEntry d name with
      | none => simpa using List.find?_eq_none.1 hfind
      | some d =>
        rw [hearly hname d hfind] at hc
        exact absurd hconfig (not_isConfigFile_of_exactPlace? hc dir)
    refine ⟨hname, hentries, ?_⟩
    cases hcontent : s.files.content? (dir ++ [name]) with
    | none => rfl
    | some bytes =>
      rw [hexact hname hentries (by rw [hcontent]; rfl)] at hc
      exact absurd hconfig (not_isConfigFile_of_exactPlace? hc dir)
  · rintro ⟨hname, hentries, hcontent⟩
    obtain ⟨hconfig, hsome⟩ := (hcases hname).2 hcontent
    obtain ⟨c, hc⟩ := Option.isSome_iff_exists.1 (hsome hdir)
    exact ⟨c, (filePlace?_of_no_nearer hway hdir hentries).trans hc, hconfig c hc⟩

/-- A file two directories up from the working directory is found past entries with other names, and
also past a directory of the same name that lies beside it. -/
theorem file_of_closest_above :
    let files : FileTree := ((({} : FileTree).makeFile ["a", "tool.json"] [0x7b, 0x7d]).makeFile
      ["a", "b", "c", "atool.toml"] []).makeDirectory ["a", "tool"]
    let s : ConfigSource := { files := files, workDir := ["a", "b", "c"], environment := [] }
    s.files.Sound ∧ s.workDir.upward = [["a", "b", "c"], ["a", "b"]] ++ ["a"] :: [[]] ∧
      s.files.HasConfigFile ["a"] "tool" ∧
      (∀ d ∈ [["a", "b", "c"], ["a", "b"]], ¬ s.files.HasConfigFile d "tool") ∧
      (∃ c, s.filePlace? "tool" = some c ∧ s.files.IsConfigFile ["a"] "tool" c) ∧
      s.file? "tool" = some (.json, [0x7b, 0x7d]) := by
  intro files s
  have hsound : s.files.Sound := by decide +kernel
  have hway : s.workDir.upward = [["a", "b", "c"], ["a", "b"]] ++ ["a"] :: [[]] := by
    decide +kernel
  have hdir : s.files.HasConfigFile ["a"] "tool" := by decide +kernel
  have hnearer : ∀ d ∈ [["a", "b", "c"], ["a", "b"]], ¬ s.files.HasConfigFile d "tool" := by
    decide +kernel
  -- the names in the nearer directories do not start with `tool`, and the entry that does is a
  -- directory
  obtain ⟨-, hfound, -⟩ := file_of_closest hsound hway hdir hnearer
  have hconfig := hfound.2 ⟨by decide, by decide +kernel, by decide +kernel⟩
  exact ⟨hsound, hway, hdir, hnearer, hconfig, by decide +kernel⟩

/-- A backup of a configuration file in the working directory hides the configuration file in the
directory above: it starts with the name, so the search stops, and it has no extension of a format,
so no file is found and the setting is not loaded. -/
theorem nearer_backup_hides_file :
    let bytes := Utf8.encode "x = 1".toList
    let files : FileTree := (({} : FileTree).makeFile ["tool_conf.toml"] bytes).makeFile
      ["a", "tool_conf.toml.bak"] []
    let s : ConfigSource := { files := files, workDir := ["a"], environment := [] }
    s.files.Sound ∧ s.workDir.upward = [["a"], []] ∧ ¬ s.files.HasConfigFile ["a"] "tool_conf" ∧
      s.files.IsConfigFile [] "tool_conf" (.toml, ["tool_conf.toml"]) ∧
      Layers.ofFile .standard (s.files.readPlace (.toml, ["tool_conf.toml"]))
        = .ok [(⟨"x", []⟩, .int 1)] ∧
      s.filePlace? "tool_conf" = none ∧ s.file? "tool_conf" = none ∧
      s.load .standard .listed "tool_conf" "TOOL" [] = (.ok [], []) := by
  intro bytes files s
  have hconfig : s.files.IsConfigFile [] "tool_conf" (.toml, ["tool_conf.toml"]) :=
    ⟨"toml", by decide, rfl, by decide +kernel⟩
  have hsetting : Layers.ofFile .standard (s.files.readPlace (.toml, ["tool_conf.toml"]))
      = .ok [(⟨"x", []⟩, .int 1)] := by
    have hread : s.files.readPlace (.toml, ["tool_conf.toml"]) = some (.toml, bytes) := by
      decide +kernel
    rw [hread]
    change Layers.ofFile .standard (some (.toml, Utf8.encode "x = 1".toList))
      = .ok [(⟨"x", []⟩, .int 1)]
    with_unfolding_all rfl
  have hload : s.load .standard .listed "tool_conf" "TOOL" [] = (.ok [], []) := by rfl
  exact ⟨by decide +kernel, by decide +kernel, by decide +kernel, hconfig, hsetting,
    by decide +kernel, by decide +kernel, hload⟩

end ConfigSource
end Concolic

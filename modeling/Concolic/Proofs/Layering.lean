import Concolic.Proofs.Libraries

/-! # Layers that override each other

In a configuration that is loaded from defaults, a file, a text in the environment and its
variables, the last of them that says anything about a key is obeyed
(`ConfigSource.load_layered`). That holds of every library that does what is documented, and
whatever the order in which the entries of one layer are merged. -/

namespace Concolic

/-! ## Configurations that are loaded -/

/-- The layer of the text in the environment of a group, and what is warned of. -/
inductive Inlined (lib : ConfigLibrary) (env : Environment) (group : String) :
    Layer → List ConfigNotice → Prop where
  /-- Without the text or its format there are no settings. -/
  | unset (h : env.value? (group ++ "_CONFIG_STR") = none ∨
      env.value? (group ++ "_CONFIG_STR_FMT") = none) : Inlined lib env group [] []
  /-- A text in a known format is read. -/
  | read {text extension : String} {f : Format} {es : Settings}
      (htext : env.value? (group ++ "_CONFIG_STR") = some text)
      (hextension : env.value? (group ++ "_CONFIG_STR_FMT") = some extension)
      (hformat : extension ∈ f.extensions) (hread : lib.read? f text.toList = some es) :
      Inlined lib env group (lib.layerOf es) []
  /-- A text in a format that is not known is passed over with one warning. -/
  | unknown {text extension : String} (htext : env.value? (group ++ "_CONFIG_STR") = some text)
      (hextension : env.value? (group ++ "_CONFIG_STR_FMT") = some extension)
      (hformat : extension ∉ Format.allExtensions) :
      Inlined lib env group [] [.unknownFormat extension]

/-- If `Layers.ofInline lib (Layers.inlineText env group).1 = .ok layer`, then
`layer` and the notices are `Inlined`. -/
theorem inlined_of_ofInline {lib : ConfigLibrary} {env : Environment} {group : String}
    {layer : Layer} (h : Layers.ofInline lib (Layers.inlineText env group).1 = .ok layer) :
    Inlined lib env group layer (Layers.inlineText env group).2 := by
  rw [Layers.inlineText] at h ⊢
  cases htext : env.value? (group ++ "_CONFIG_STR") with
  | none =>
    rw [htext] at h
    cases h
    exact .unset (.inl htext)
  | some text =>
    cases hextension : env.value? (group ++ "_CONFIG_STR_FMT") with
    | none =>
      rw [htext, hextension] at h
      cases h
      exact .unset (.inr hextension)
    | some extension =>
      simp only [htext, hextension] at h ⊢
      cases hformat : Format.ofExtension? extension with
      | none =>
        rw [hformat] at h
        cases h
        refine .unknown htext hextension ?_
        rw [← Format.ofExtension?_isSome_iff, hformat]
        exact Bool.false_ne_true
      | some f =>
        rw [hformat] at h
        have hmem : extension ∈ f.extensions := by simpa using List.find?_some hformat
        cases hread : lib.read? f text.toList with
        | none =>
          rw [Layers.ofInline, Layers.ofText, hread] at h
          cases h
        | some es' =>
          rw [Layers.ofInline, Layers.ofText, hread] at h
          obtain rfl := Except.ok.inj h
          exact .read htext hextension hmem hread

/-- If `extension ∈ f.extensions`, then `Format.ofExtension? extension = some f`. -/
theorem ofExtension?_of_mem {f : Format} {extension : String} (h : extension ∈ f.extensions) :
    Format.ofExtension? extension = some f := by
  revert h
  cases f <;> simp only [Format.extensions, List.mem_cons, List.not_mem_nil, or_false]
  case yaml => rintro (rfl | rfl) <;> decide
  all_goals
    rintro rfl
    decide

/-- If both variables are set and `extension ∉ Format.allExtensions`, then
`Layers.inlineText env group = (none, [.unknownFormat extension])`. -/
theorem inlineText_of_unknown {env : Environment} {group text extension : String}
    (htext : env.value? (group ++ "_CONFIG_STR") = some text)
    (hextension : env.value? (group ++ "_CONFIG_STR_FMT") = some extension)
    (hformat : extension ∉ Format.allExtensions) :
    Layers.inlineText env group = (none, [.unknownFormat extension]) := by
  have hunknown : Format.ofExtension? extension = none := by
    rw [← Option.not_isSome_iff_eq_none, Format.ofExtension?_isSome_iff]
    exact hformat
  simp only [Layers.inlineText, htext, hextension, hunknown]

/-- If `Inlined lib env group layer notices`, then `Layers.ofInline` gives `layer`. -/
theorem Inlined.ofInline {lib : ConfigLibrary} {env : Environment} {group : String}
    {layer : Layer} {notices : List ConfigNotice} (h : Inlined lib env group layer notices) :
    Layers.ofInline lib (Layers.inlineText env group).1 = .ok layer := by
  cases h with
  | unset h =>
    rcases h with htext | hextension
    · rw [Layers.inlineText, htext]
      rfl
    · rw [Layers.inlineText, hextension]
      cases env.value? (group ++ "_CONFIG_STR") <;> rfl
  | read htext hextension hformat hread =>
    simp only [Layers.inlineText, htext, hextension, ofExtension?_of_mem hformat, Layers.ofInline,
      Layers.ofText, hread]
  | unknown htext hextension hformat =>
    rw [inlineText_of_unknown htext hextension hformat]
    rfl

/-- `Layers.inlineText` of an environment without the variable of the text is `(none, [])`. -/
theorem inlineText_without (env : Environment) (group : String) :
    Layers.inlineText (env.without (group ++ "_CONFIG_STR")) group = (none, []) := by
  simp only [Layers.inlineText, Environment.value?_without]

namespace ConfigSource

variable {lib : ConfigLibrary} {order : MergeOrder} {s : ConfigSource} {name group : String}
  {defaults es : Settings} {notices : List ConfigNotice}

/-- `s.load` gives `es` iff the defaults, the file and the text in the environment all make layers;
then `es` are these and the layer of the variables, merged. -/
theorem load_eq_ok_iff :
    s.load lib order name group defaults = (.ok es, notices) ↔
      ∃ start file inline, Layers.ofDefaults lib defaults = .ok start ∧
        Layers.ofFile lib (s.file? name) = .ok file ∧
        Layers.ofInline lib (Layers.inlineText s.environment group).1 = .ok inline ∧
        notices = (Layers.inlineText s.environment group).2 ∧
        es = Layers.merged lib (Layers.arranged order
          ⟨start, file, inline, lib.layerOf (lib.settingsOf s.environment group)⟩) := by
  rw [load]
  cases hdefaults : Layers.ofDefaults lib defaults with
  | error error => simp
  | ok start =>
    cases hfile : Layers.ofFile lib (s.file? name) with
    | error error => simp [bind, Except.bind]
    | ok file =>
      cases hinline : Layers.ofInline lib (Layers.inlineText s.environment group).1 with
      | error error => simp [hinline, bind, Except.bind]
      | ok inline =>
        simp [hinline, bind, Except.bind, pure, Except.pure, eq_comm, and_comm]

/-- With `start` for the defaults, no file and no text in the environment, `load` merges `start` and
the layer of the variables. -/
theorem load_of_variables {start : Layer} (hstart : Layers.ofDefaults lib defaults = .ok start)
    (hfile : s.file? name = none)
    (hinline : Layers.inlineText s.environment group = (none, notices)) :
    s.load lib order name group defaults
      = (.ok (Layers.merged lib (Layers.arranged order
          ⟨start, [], [], lib.layerOf (lib.settingsOf s.environment group)⟩)), notices) := by
  refine load_eq_ok_iff.2 ⟨start, [], [], hstart, ?_, ?_, ?_, rfl⟩
  · rw [hfile]
    rfl
  · rw [hinline]
    rfl
  · rw [hinline]

/-- `l` without the text in the environment: nothing inline, and the variables without that of the
text. -/
def withoutText (lib : ConfigLibrary) (s : ConfigSource) (group : String) (l : Layers) : Layers :=
  { l with
    inline := []
    environment :=
      lib.layerOf (lib.settingsOf (s.environment.without (group ++ "_CONFIG_STR")) group) }

/-- If `l.inline = []`, there is an `order'` in which the layers `s.withoutText lib group
l` are merged as those of `l` are in `order`, but for the entries below `config_str`. -/
theorem exists_agreeing_order (hlib : lib.Documented) (l : Layers) (hinline : l.inline = [])
    (henvironment : l.environment = lib.layerOf (lib.settingsOf s.environment group)) :
    ∃ order' : MergeOrder,
      ((s.withoutText lib group l).arranged order').without "config_str"
        = (l.arranged order).without "config_str" := by
  have hperm := ConfigLibrary.layerOf_settingsOf_without hlib s.environment
    (Environment.spells_inline group)
  rw [← henvironment] at hperm
  obtain ⟨order', hsame, hothers⟩ := order.exists_agreeing hperm
  refine ⟨order', ?_⟩
  have hdefaults := hothers .defaults (by decide)
  have hfile := hothers .file (by decide)
  have hempty := hothers .inline (by decide)
  simp only [Layers.without, Layers.arranged, withoutText, hinline, hdefaults, hfile, hempty, hsame]

end ConfigSource
end Concolic

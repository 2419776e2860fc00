import Concolic.Config.Layers
import Concolic.Proofs.Variables

/-! # Libraries that do what is documented of them

What a configuration comes to is told for every library that lays settings as documented, key by key
with the later ones winning, and makes settings of variables as documented
(`ConfigLibrary.Documented`). The one at hand is such a library
(`ConfigLibrary.standard_documented`). Laid over other settings, a layer has the effect of what it
says (`ConfigLibrary.find?_overlay`), so the last layer that says anything is obeyed
(`ConfigLibrary.find?_merged`), in whatever order the entries of each are merged. -/

namespace Concolic

open Environment (IsWord Spells key? pointedKey nestedPath otherThan)

namespace ConfigLibrary

/-- What is documented of a library `lib`. -/
structure Documented (lib : ConfigLibrary) : Prop where
  /-- Later settings win key by key: a setting that is laid over a place is there, joined with what
  was there where both are tables, and all other places keep what they have. -/
  find?_lay (q : SettingPath) (new : Setting) (es : Settings) (p : SettingPath) :
    (q.ruling new p).GivesScalar →
      p.find? (lib.lay q new es) = (q.ruling new p).upon (p.find? es)
  /-- Nothing is changed at other keys of the outermost table. -/
  lookup_lay_of_ne (q : SettingPath) (new : Setting) (es : Settings) (key : String) :
    q.root ≠ key → Setting.lookup key (lib.lay q new es) = Setting.lookup key es
  /-- What comes to be at a key of the outermost table depends on what was there. -/
  lookup_lay_congr (q : SettingPath) (new : Setting) (es es' : Settings) (key : String) :
    Setting.lookup key es = Setting.lookup key es' →
      Setting.lookup key (lib.lay q new es) = Setting.lookup key (lib.lay q new es')
  /-- Words with points between them are the path of a nested key. -/
  path?_words (word : String) (words : List String) : (∀ w ∈ word :: words, IsWord w) →
    lib.path? (pointedKey word words) = some (nestedPath word words)
  /-- A setting of a group is the text of a variable: the prefix and an underscore are taken off its
  name in lower case, and two underscores become a point. -/
  settingsOf_value (env : Environment) (group key : String) (s : Setting) :
    (key, s) ∈ lib.settingsOf env group →
      ∃ v ∈ env, key? group v.1 = some key ∧ s = .text v.2
  /-- Every variable with the prefix has a setting at its key. -/
  settingsOf_key (env : Environment) (group key : String) (v : String × String) :
    v ∈ env → key? group v.1 = some key → ∃ s, (key, s) ∈ lib.settingsOf env group
  /-- A variable makes no difference to the settings at other keys than its own. -/
  settingsOf_without (env : Environment) (group key name : String) : key? group name = some key →
    (otherThan key (lib.settingsOf (env.without name) group)).Perm
      (otherThan key (lib.settingsOf env group))

/-- `standard.Documented`: the library at hand does what is documented. -/
theorem standard_documented : standard.Documented where
  find?_lay _ _ es _ h := SettingPath.find?_lay h es
  lookup_lay_of_ne _ new es _ h := SettingPath.lookup_lay_of_ne h new es
  lookup_lay_congr q new _ _ _ h := SettingPath.lookup_lay_congr h q new
  path?_words _ _ h := Environment.ofText?_words h
  settingsOf_value _ _ _ _ h := Environment.exists_of_mem_settings h
  settingsOf_key _ _ _ _ hmem hkey := Environment.mem_settings_of_key? hmem hkey
  settingsOf_without env group key name h := by
    show (otherThan key ((env.without name).settings group)).Perm
      (otherThan key (env.settings group))
    rw [Environment.settings_without h env]

end ConfigLibrary

/-- `find? ⟨key, []⟩ es = lookup key es`. -/
theorem SettingPath.find?_root (key : String) (es : Settings) :
    SettingPath.find? ⟨key, []⟩ es = Setting.lookup key es := by
  rw [SettingPath.find?]
  cases Setting.lookup key es <;> rfl

/-! ## Layers that are laid -/

/-- `layer` without the entries below `key` of the outermost table. -/
def Layer.without (key : String) (layer : Layer) : Layer := layer.filter fun e => e.1.root != key

/-- All layers of `l` without the entries below `key` of the outermost table. -/
def Layers.without (key : String) (l : Layers) : Layers where
  defaults := l.defaults.without key
  file := l.file.without key
  inline := l.inline.without key
  environment := l.environment.without key

namespace ConfigLibrary

section Laying

variable {lib : ConfigLibrary} (hlib : lib.Documented)
include hlib

/-- If `(layer.ruling p).GivesScalar`, then `lib.overlay es layer` has
`(layer.ruling p).upon (p.find? es)` at `p`. -/
theorem find?_overlay {layer : Layer} {p : SettingPath} (h : (layer.ruling p).GivesScalar)
    (es : Settings) : p.find? (lib.overlay es layer) = (layer.ruling p).upon (p.find? es) := by
  induction layer generalizing es with
  | nil => rfl
  | cons e rest ih =>
    rw [Layer.ruling] at h ⊢
    exact Ruling.eq_after_upon h (fun he => hlib.find?_lay e.1 e.2 es p he) fun hrest => ih hrest _

/-- If every layer `GivesScalar` at `p`, then `l.merged lib` has at
`p` what the rulings of the layers, one upon the other, make of `none`: the last one that is not
`.silent` is obeyed. -/
theorem find?_merged {l : Layers} {p : SettingPath}
    (h : ∀ kind, ((l.get kind).ruling p).GivesScalar) :
    let ruling (kind : LayerKind) := (l.get kind).ruling p
    p.find? (l.merged lib)
      = (ruling .environment).upon
          ((ruling .inline).upon ((ruling .file).upon ((ruling .defaults).upon none))) := by
  intro ruling
  have hdefaults : (l.defaults.ruling p).GivesScalar := h .defaults
  have hfile : (l.file.ruling p).GivesScalar := h .file
  have hinline : (l.inline.ruling p).GivesScalar := h .inline
  have henvironment : (l.environment.ruling p).GivesScalar := h .environment
  rw [Layers.merged, find?_overlay hlib henvironment, find?_overlay hlib hinline,
    find?_overlay hlib hfile, find?_overlay hlib hdefaults]
  rfl

/-- If `l.environment.ruling p = .given s` for a scalar `s`, then `p.find? (l.merged lib) = some
s`. -/
theorem find?_merged_of_given {l : Layers} {p : SettingPath} {s : Setting}
    (h : l.environment.ruling p = .given s) (hs : s.isScalar) :
    p.find? (l.merged lib) = some s := by
  have hscalar : (l.environment.ruling p).GivesScalar := by
    rw [h]
    rintro _ ⟨⟩
    exact hs
  rw [Layers.merged, find?_overlay hlib hscalar, h, Ruling.given_upon]

/-- For `left ≠ key` the entries of `layer` below `left` make no difference to
`Setting.lookup key (lib.overlay es layer)`. -/
theorem lookup_overlay_without {left key : String} (h : left ≠ key) (layer : Layer)
    {es es' : Settings} (hes : Setting.lookup key es = Setting.lookup key es') :
    Setting.lookup key (lib.overlay es layer)
      = Setting.lookup key (lib.overlay es' (layer.without left)) := by
  induction layer generalizing es es' with
  | nil => exact hes
  | cons e layer ih =>
    by_cases hroot : e.1.root = left
    · have hne : e.1.root ≠ key := by
        rw [hroot]
        exact h
      rw [Layer.without, List.filter_cons_of_neg (by simpa using hroot), ← Layer.without]
      exact ih ((hlib.lookup_lay_of_ne e.1 e.2 es key hne).trans hes)
    · rw [Layer.without, List.filter_cons_of_pos (by simpa using hroot), ← Layer.without]
      exact ih (hlib.lookup_lay_congr e.1 e.2 es es' key hes)

/-- For `left ≠ key`,
`Setting.lookup key (l.merged lib) = Setting.lookup key ((l.without left).merged lib)`. -/
theorem lookup_merged_without {left key : String} (h : left ≠ key) (l : Layers) :
    Setting.lookup key (l.merged lib) = Setting.lookup key ((l.without left).merged lib) := by
  rw [Layers.merged, Layers.merged]
  exact lookup_overlay_without hlib h _ (lookup_overlay_without hlib h _
    (lookup_overlay_without hlib h _ (lookup_overlay_without hlib h _ rfl)))

/-! ## The layer of the variables -/

/-- If all `word :: words` are `IsWord`, then `lib.pathOf (pointedKey word words) = nestedPath word
words`. -/
theorem pathOf_words {word : String} {words : List String} (h : ∀ w ∈ word :: words, IsWord w) :
    lib.pathOf (pointedKey word words) = nestedPath word words := by
  rw [pathOf, hlib.path?_words word words h, Option.getD_some]

/-- If a variable `Spells` the nested key of `word ::
words` and no other one of the group says anything there, then `layer.ruling (nestedPath word words)
= .given (.text value)`. -/
theorem ruling_settingsOf {env : Environment} {group name value word : String}
    {words : List String} {layer : Layer}
    (hperm : layer.Perm (lib.layerOf (lib.settingsOf env group)))
    (hmem : (name, value) ∈ env) (h : Spells group name word words)
    (hothers : ∀ v ∈ env, v ≠ (name, value) → ∀ key, key? group v.1 = some key →
      (lib.pathOf key).ruling (.text v.2) (nestedPath word words) = .silent) :
    layer.ruling (nestedPath word words) = .given (.text value) := by
  have hkey := Environment.key?_of_spells h
  have hpath := pathOf_words hlib h.isWord
  have hgiven (text : String) := Environment.ruling_nestedPath text word words
  apply Layer.ruling_of_said
  · -- the setting at the key is the value of a variable that says something there
    obtain ⟨s, hs⟩ := hlib.settingsOf_key env group _ _ hmem hkey
    obtain ⟨v, hv, hkey', rfl⟩ := hlib.settingsOf_value env group _ s hs
    have hsame : v = (name, value) := by
      by_contra hne
      have hsilent := hothers v hv hne _ hkey'
      rw [hpath, hgiven] at hsilent
      cases hsilent
    refine ⟨(lib.pathOf _, .text v.2), hperm.mem_iff.2 (List.mem_map_of_mem hs), ?_⟩
    rw [hpath, hgiven, hsame]
  · intro e he
    obtain ⟨⟨key, s⟩, hs, rfl⟩ := List.mem_map.1 (hperm.mem_iff.1 he)
    obtain ⟨v, hv, hkey', rfl⟩ := hlib.settingsOf_value env group key s hs
    by_cases hsame : v = (name, value)
    · right
      rw [hsame] at hkey' ⊢
      obtain rfl := Option.some.inj (hkey.symm.trans hkey')
      rw [hpath, hgiven]
    · exact .inl (hothers v hv hsame key hkey')

/-- The layer of the variables is the same, up to its order, with `env.without name`, but for the
entries below the key that `name` spells. -/
theorem layerOf_settingsOf_without (env : Environment) {group name word : String}
    (h : Spells group name word []) :
    ((lib.layerOf (lib.settingsOf (env.without name) group)).without word).Perm
      ((lib.layerOf (lib.settingsOf env group)).without word) := by
  have hkey := Environment.key?_of_spells h
  have hroot : (lib.pathOf (pointedKey word [])).root = word := by
    rw [pathOf_words hlib h.isWord]
    rfl
  -- what is left out of the settings is below the key
  have hleft (es : Settings) : (lib.layerOf es).without word
      = (lib.layerOf (otherThan (pointedKey word []) es)).without word := by
    rw [Layer.without, Layer.without, layerOf, layerOf, otherThan, List.filter_map,
      List.filter_map, List.filter_filter]
    congr 1
    apply List.filter_congr
    intro e _
    by_cases hkey : e.1 = pointedKey word []
    · simp [hkey, hroot]
    · simp [hkey]
  rw [hleft (lib.settingsOf (env.without name) group), hleft (lib.settingsOf env group)]
  exact ((hlib.settingsOf_without env group _ name hkey).map _).filter _

end Laying

end ConfigLibrary

/-! ## Orders of merging -/

/-- `(l.arranged order).get kind = order.arrange kind (l.get kind)`. -/
theorem Layers.get_arranged (order : MergeOrder) (l : Layers) (kind : LayerKind) :
    (l.arranged order).get kind = order.arrange kind (l.get kind) := by
  cases kind <;> rfl

/-- If `layer.Uncontested p`, then `(order.arrange kind layer).ruling p = layer.ruling p`. -/
theorem MergeOrder.ruling_arrange (order : MergeOrder) (kind : LayerKind) {layer : Layer}
    {p : SettingPath} (h : layer.Uncontested p) :
    (order.arrange kind layer).ruling p = layer.ruling p :=
  (h.ruling_eq (order.perm kind layer).symm).symm

/-- If every entry of `l` is `Silent` at `p`, nothing is there in whatever order they are merged. -/
theorem ConfigLibrary.find?_merged_of_silent {lib : ConfigLibrary} (hlib : lib.Documented)
    (order : MergeOrder) {l : Layers} {p : SettingPath}
    (h : ∀ kind, ∀ e ∈ l.get kind, Layer.Silent e p) :
    p.find? ((l.arranged order).merged lib) = none := by
  have hsilent (kind : LayerKind) : ((l.arranged order).get kind).ruling p = .silent := by
    rw [Layers.get_arranged]
    exact Layer.ruling_of_silent fun e he => h kind e ((order.perm kind _).mem_iff.1 he)
  have hscalar (kind : LayerKind) : (((l.arranged order).get kind).ruling p).GivesScalar := by
    rw [hsilent kind]
    exact fun _ h => Ruling.noConfusion h
  rw [find?_merged hlib hscalar]
  simp only [hsilent, Ruling.silent_upon]

/-- If `layer'.without key` is a permutation of `layer.without key`, there is an
`order'` in which the entries of the one come as those of the other in `order`, and which agrees
with `order` on all other layers. -/
theorem MergeOrder.exists_agreeing (order : MergeOrder) {key : String} {layer layer' : Layer}
    (h : (layer'.without key).Perm (layer.without key)) :
    ∃ order' : MergeOrder,
      (order'.arrange .environment layer').without key
          = (order.arrange .environment layer).without key ∧
        ∀ kind, kind ≠ .environment → order'.arrange kind = order.arrange kind := by
  classical
  let target := (order.arrange .environment layer).without key
    ++ layer'.filter fun e => !(e.1.root != key)
  have htarget : target.Perm layer' := by
    have hrest := ((order.perm .environment layer).filter _).trans h.symm
    exact (hrest.append_right _).trans (List.filter_append_perm _ layer')
  let order' : MergeOrder :=
    { arrange kind l :=
        if kind = .environment ∧ l = layer' then target else order.arrange kind l
      perm kind l := by
        split
        · rename_i hl
          rw [hl.2]
          exact htarget
        · exact order.perm kind l }
  refine ⟨order', ?_, ?_⟩
  · show Layer.without key (if _ then target else _) = _
    rw [if_pos ⟨rfl, rfl⟩, Layer.without, List.filter_append]
    have hkept : ((order.arrange .environment layer).without key).filter (fun e => e.1.root != key)
        = (order.arrange .environment layer).without key := by
      simp [Layer.without]
    have hleft : (layer'.filter fun e => !(e.1.root != key)).filter (fun e => e.1.root != key)
        = [] := by
      simp [List.filter_filter]
    rw [hkept, hleft, List.append_nil]
  · intro kind hkind
    funext l
    exact if_neg fun hl => hkind hl.1

end Concolic

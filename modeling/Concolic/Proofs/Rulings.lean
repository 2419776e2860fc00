import Concolic.Config.Layers

/-! # What layers of settings say

What a layer says about the setting at a path is read off its entries (`Layer.ruling`): nothing,
which setting is there, or that nothing can be there because something other than a table stands
above. A position in an array also has something at all positions before it. Laid over other
settings, a setting that gives a scalar or none at a path has just that effect
(`SettingPath.find?_lay`). Where no two entries of a layer say anything, their order is immaterial
(`Layer.Uncontested.ruling_eq`). -/

namespace Concolic

/-! ## Rulings -/

/-- What something that is laid over settings says about the setting at a path. -/
inductive Ruling where
  /-- Nothing: what is there stays. -/
  | silent
  /-- There is an empty item if there is nothing: a position behind is set. -/
  | filled
  /-- There is nothing: something other than a table stands above. -/
  | removed
  /-- This setting is there. -/
  | given (s : Setting)

namespace Ruling

/-- What is at the path afterwards, from what was there before: `r.upon below`. -/
def upon : Ruling → Option Setting → Option Setting
  | silent, below => below
  | filled, below => some (below.getD .nil)
  | removed, _ => none
  | given s, _ => some s

/-- What is said `later` counts, and what is said `earlier` where nothing is said later. -/
def after : (later earlier : Ruling) → Ruling
  | silent, earlier => earlier
  | filled, silent => filled
  | filled, filled => filled
  | filled, removed => given .nil
  | filled, given s => given s
  | removed, _ => removed
  | given s, _ => given s

/-- The ruling of what replaces all there was. -/
def ofFound : Option Setting → Ruling
  | none => removed
  | some s => given s

/-- If `r` gives a setting, it is a scalar. -/
def GivesScalar (r : Ruling) : Prop := ∀ s, r = given s → s.isScalar

@[simp] theorem silent_upon (below : Option Setting) : silent.upon below = below := rfl

@[simp] theorem filled_upon (below : Option Setting) :
    filled.upon below = some (below.getD .nil) := rfl

@[simp] theorem removed_upon (below : Option Setting) : removed.upon below = none := rfl

@[simp] theorem given_upon (s : Setting) (below : Option Setting) :
    (given s).upon below = some s := rfl

@[simp] theorem silent_after (earlier : Ruling) : silent.after earlier = earlier := rfl

@[simp] theorem after_silent (later : Ruling) : later.after silent = later := by
  cases later <;> rfl

/-- `r.after r = r`. -/
theorem after_self (r : Ruling) : r.after r = r := by
  cases r <;> rfl

@[simp] theorem ofFound_upon (found below : Option Setting) :
    (ofFound found).upon below = found := by
  cases found <;> rfl

/-- `(later.after earlier).upon below = later.upon (earlier.upon below)`. -/
theorem after_upon (later earlier : Ruling) (below : Option Setting) :
    (later.after earlier).upon below = later.upon (earlier.upon below) := by
  cases later <;> cases earlier <;> rfl

/-- `r.upon (some .nil) = r.upon none` unless `r` is silent. -/
theorem upon_some_nil {r : Ruling} (h : r ≠ silent) : r.upon (some .nil) = r.upon none := by
  cases r with
  | silent => exact absurd rfl h
  | filled | removed | given s => rfl

instance (r : Ruling) : Decidable r.GivesScalar :=
  match r with
  | given s =>
    decidable_of_iff s.isScalar ⟨fun h _ heq => by cases heq; exact h, fun h => h s rfl⟩
  | silent => isTrue fun _ heq => by cases heq
  | filled => isTrue fun _ heq => by cases heq
  | removed => isTrue fun _ heq => by cases heq

/-- `(given s).GivesScalar` gives `s.isScalar`. -/
theorem GivesScalar.isScalar {s : Setting} (h : (given s).GivesScalar) : s.isScalar := h s rfl

/-- `(later.after earlier).GivesScalar` gives `later.GivesScalar`. -/
theorem GivesScalar.of_after {later earlier : Ruling} (h : (later.after earlier).GivesScalar) :
    later.GivesScalar := by
  rintro s rfl
  exact h s rfl

/-- Two steps with the effects of `earlier` and `later` have that of `later.after earlier`. Only
what counts has to give a scalar. -/
theorem eq_after_upon {later earlier : Ruling} {below between above : Option Setting}
    (h : (later.after earlier).GivesScalar)
    (hearlier : earlier.GivesScalar → between = earlier.upon below)
    (hlater : later.GivesScalar → above = later.upon between) :
    above = (later.after earlier).upon below := by
  rw [hlater h.of_after]
  cases later with
  | silent => exact hearlier h
  | filled =>
    rw [after_upon, hearlier]
    rintro s rfl
    exact h s rfl
  | removed | given s => rfl

end Ruling

/-! ## What a setting says -/

namespace Setting

mutual

/-- What `s`, laid over another setting, says about the end of `way`. -/
def ruling (s : Setting) (way : List PathStep) : Ruling :=
  match s with
  | table es =>
    match way with
    | [] => .given (table es)
    | .key name :: way => rulingOfEntries es name way
    | .index _ :: _ => .removed
  | s => .ofFound (SettingPath.at? way s)

/-- What `es`, laid over other entries, say about the end of `way` from the key `name`. -/
def rulingOfEntries (es : Settings) (name : String) (way : List PathStep) : Ruling :=
  match es with
  | [] => .silent
  | (key, s) :: rest =>
    (rulingOfEntries rest name way).after (if key = name then ruling s way else .silent)

end

/-- `s.ruling [] = .given s`. -/
theorem ruling_nil (s : Setting) : s.ruling [] = .given s := by
  cases s <;> rfl

/-- `SettingPath.item? n [] = none`. -/
theorem item?_nil (n : Int64) : SettingPath.item? n [] = none := by
  simp [SettingPath.item?]

/-- `SettingPath.at? (step :: way) nil = none`. -/
theorem at?_cons_nil (step : PathStep) (way : List PathStep) :
    SettingPath.at? (step :: way) nil = none := by
  cases step with
  | key name => rfl
  | index n => simp [SettingPath.at?, items, item?_nil]

/-- If `r` is not silent at its own place, `r.upon` does not tell what is absent from an empty
setting, which has nothing behind it. -/
theorem upon_at?_getD {r : Ruling} {way : List PathStep} (h : way = [] → r ≠ .silent)
    (found : Option Setting) :
    r.upon (SettingPath.at? way (found.getD nil))
      = r.upon (found.bind (SettingPath.at? way)) := by
  cases found with
  | some s => rfl
  | none =>
    cases way with
    | nil => exact Ruling.upon_some_nil (h rfl)
    | cons step way =>
      rw [Option.getD_none, at?_cons_nil]
      rfl

/-- An empty item that is added is there, but nothing is behind it: `.filled` at its own place,
`.silent` further on. -/
theorem bind_at?_of_filled (found : Option Setting) (way : List PathStep) :
    (some (found.getD nil)).bind (SettingPath.at? way)
      = (if way = [] then .filled else .silent : Ruling).upon
          (found.bind (SettingPath.at? way)) := by
  cases way with
  | nil => cases found <;> rfl
  | cons step way =>
    cases found with
    | none => exact at?_cons_nil step way
    | some s => rfl

mutual

/-- If `(s.ruling way).GivesScalar`, `old.overlaid s` has at `way` what `s.ruling way` makes of
`old`. -/
theorem at?_overlaid (old s : Setting) (way : List PathStep) (h : (s.ruling way).GivesScalar) :
    SettingPath.at? way (old.overlaid s) = (s.ruling way).upon (SettingPath.at? way old) := by
  match s with
  | table es =>
    match way with
    | [] =>
      rw [ruling_nil] at h
      cases h.isScalar
    | .key name :: way =>
      exact lookup_overlaidEntries old.entries es name way h
    | .index n :: way =>
      simp [overlaid, SettingPath.at?, items, item?_nil, ruling]
  | nil | bool _ | int _ | float _ | text _ | array _ =>
    exact (Ruling.ofFound_upon _ _).symm

/-- If `rulingOfEntries es name way` gives scalars, `overlaidEntries old es` has there what it makes
of `old`. -/
theorem lookup_overlaidEntries (old es : Settings) (name : String) (way : List PathStep)
    (h : (rulingOfEntries es name way).GivesScalar) :
    (lookup name (overlaidEntries old es)).bind (SettingPath.at? way)
      = (rulingOfEntries es name way).upon ((lookup name old).bind (SettingPath.at? way)) := by
  match es with
  | [] => rfl
  | (key, s) :: rest =>
    rw [overlaidEntries, rulingOfEntries]
    rw [rulingOfEntries] at h
    -- one entry, and then the rest over what it leaves
    refine Ruling.eq_after_upon h ?_ (lookup_overlaidEntries _ rest name way)
    intro hs
    rw [lookup_insert]
    by_cases hkey : key = name
    · rw [if_pos hkey] at hs
      subst hkey
      rw [if_pos rfl, if_pos rfl, Option.bind_some, at?_overlaid _ s way hs, find, upon_at?_getD]
      intro hway
      rw [hway, ruling_nil]
      exact Ruling.noConfusion
    · rw [if_neg hkey, if_neg hkey, Ruling.silent_upon]

end

end Setting

/-! ## Positions -/

namespace SettingPath

/-- `n` and `n'` count from the same end of an array. -/
def SameEnd (n n' : Int64) : Prop := 0 ≤ n ↔ 0 ≤ n'

instance (n n' : Int64) : Decidable (SameEnd n n') := inferInstanceAs (Decidable (_ ↔ _))

/-- How many items there are between the position `n` and the end it counts from. -/
def offset (n : Int64) : Nat := if 0 ≤ n then n.toInt.toNat else n.toInt.natAbs - 1

/-- `items` with the one at `k` changed, with empty items behind the last one as far as needed. -/
def changeFront (change : Setting → Setting) (k : Nat) (items : List Setting) : List Setting :=
  (items ++ List.replicate (k + 1 - items.length) Setting.nil).modify k change

/-- In `changeFront change k items` the item `k` is changed, before it empty items are new, and
behind it nothing is. -/
theorem getElem?_changeFront (change : Setting → Setting) (k j : Nat) (items : List Setting) :
    (changeFront change k items)[j]? =
      if j = k then some (change (items[j]?.getD .nil))
      else if j < k then some (items[j]?.getD .nil)
      else items[j]? := by
  rw [changeFront, List.getElem?_modify, List.getElem?_append, List.getElem?_replicate]
  rcases Nat.lt_or_ge j items.length with h | h
  · grind
  · rw [List.getElem?_eq_none h]
    grind

/-- `(items.modify (items.length - (k + 1)) change).reverse = items.reverse.modify k change` for
`k < items.length`. -/
theorem reverse_modify {k : Nat} {items : List Setting} (h : k < items.length)
    (change : Setting → Setting) :
    (items.modify (items.length - (k + 1)) change).reverse = items.reverse.modify k change := by
  apply List.ext_getElem?
  intro j
  grind

/-- `changeItem change n = changeFront change (offset n)` for a position from the front. -/
theorem changeItem_of_nonneg {n : Int64} (h : 0 ≤ n) (change : Setting → Setting)
    (items : List Setting) : changeItem change n items = changeFront change (offset n) items := by
  rw [changeItem, if_pos h, changeFront, offset, if_pos h]

/-- `changeItem change n` is `changeFront change (offset n)` of the reverse for a position from the
end. -/
theorem changeItem_of_neg {n : Int64} (h : ¬ 0 ≤ n) (change : Setting → Setting)
    (items : List Setting) :
    (changeItem change n items).reverse = changeFront change (offset n) items.reverse := by
  have hnonzero : n.toInt ≠ 0 := by
    intro hzero
    apply h
    rw [Int64.le_iff_toInt_le, hzero]
    decide
  have hoffset : n.toInt.natAbs = offset n + 1 := by
    rw [offset, if_neg h]
    omega
  rw [changeItem, if_neg h, hoffset, reverse_modify, changeFront]
  · simp
  · simp only [List.length_append, List.length_replicate]
    omega

/-- `item? n items` is the item at `offset n`, from the front or in the reverse. -/
theorem item?_eq_offset (n : Int64) (items : List Setting) :
    item? n items = (if 0 ≤ n then items else items.reverse)[offset n]? := by
  rw [item?, offset]
  split <;> rfl

/-- `changeItem change n` changes the item `n`, leaves those at positions from the same end, and
fills those before it. -/
theorem item?_changeItem {n n' : Int64} (h : SameEnd n n') (change : Setting → Setting)
    (items : List Setting) :
    item? n' (changeItem change n items) =
      if offset n' = offset n then some (change ((item? n' items).getD .nil))
      else if offset n' < offset n then some ((item? n' items).getD .nil)
      else item? n' items := by
  rw [item?_eq_offset, item?_eq_offset, ← getElem?_changeFront]
  by_cases hn : 0 ≤ n
  · rw [if_pos (h.1 hn), if_pos (h.1 hn), changeItem_of_nonneg hn]
  · rw [if_neg (mt h.2 hn), if_neg (mt h.2 hn), changeItem_of_neg hn]

/-! ## What a layer says -/

/-- What `new`, laid over the end of `lead`, says about the end of `way`. In one array, positions
from different ends may be the same; then all of the array counts as given. -/
def rulingAlong (new : Setting) : (lead way : List PathStep) → Ruling
  | [], way => new.ruling way
  | .key name :: lead, .key name' :: way =>
    if name = name' then rulingAlong new lead way else .silent
  | .index n :: lead, .index n' :: way =>
    if SameEnd n n' then
      if offset n' = offset n then rulingAlong new lead way
      else if offset n' < offset n ∧ way = [] then .filled
      else .silent
    else .given (changeAt (fun old => old.overlaid new) (.index n :: lead) .nil)
  | .key _ :: _, .index _ :: _ => .removed
  | .index _ :: _, .key _ :: _ => .removed
  | step :: lead, [] => .given (changeAt (fun old => old.overlaid new) (step :: lead) .nil)

/-- What `new`, laid over the place at `q`, says about the place at `p`. -/
def ruling (q : SettingPath) (new : Setting) (p : SettingPath) : Ruling :=
  if q.root = p.root then rulingAlong new q.steps p.steps else .silent

/-- `rulingAlong new lead` is not silent where the way starts. -/
theorem rulingAlong_ne_silent (new : Setting) (lead : List PathStep) {way : List PathStep}
    (h : way = []) : rulingAlong new lead way ≠ .silent := by
  subst h
  match lead with
  | [] =>
    rw [rulingAlong, Setting.ruling_nil]
    exact Ruling.noConfusion
  | .key name :: lead | .index n :: lead => exact Ruling.noConfusion

/-- If `(rulingAlong new lead way).GivesScalar`, laying `new` over the end of `lead` has at `way`
that effect on `old`. -/
theorem at?_changeAt {new : Setting} {lead way : List PathStep}
    (h : (rulingAlong new lead way).GivesScalar) (old : Setting) :
    at? way (changeAt (fun old => old.overlaid new) lead old)
      = (rulingAlong new lead way).upon (at? way old) := by
  -- along both ways at once; where they part, nothing is said
  induction lead generalizing way old with
  | nil => exact Setting.at?_overlaid old new way h
  | cons step lead ih =>
    cases way with
    | nil => cases step <;> cases h.isScalar
    | cons step' way =>
      cases step with
      | key name =>
        cases step' with
        | index n => simp [changeAt, at?, Setting.items, Setting.item?_nil, rulingAlong]
        | key name' =>
          rw [changeAt, at?, Setting.entries, Setting.lookup_insert, rulingAlong]
          rw [rulingAlong] at h
          by_cases hname : name = name'
          · rw [if_pos hname] at h
            subst hname
            rw [if_pos rfl, if_pos rfl, Option.bind_some, ih h, Setting.find,
              Setting.upon_at?_getD (rulingAlong_ne_silent new lead)]
            rfl
          · rw [if_neg hname, if_neg hname]
            rfl
      | index n =>
        cases step' with
        | key name => rfl
        | index n' =>
          rw [rulingAlong] at h ⊢
          -- positions from the same end can be compared
          by_cases hend : SameEnd n n'
          · rw [if_pos hend] at h ⊢
            rw [changeAt, at?, at?, Setting.items, item?_changeItem hend]
            by_cases hsame : offset n' = offset n
            · rw [if_pos hsame] at h ⊢
              rw [if_pos hsame, Option.bind_some, ih h]
              exact Setting.upon_at?_getD (rulingAlong_ne_silent new lead) _
            · rw [if_neg hsame, if_neg hsame]
              -- a nearer position is filled, and one farther off is left
              by_cases hnearer : offset n' < offset n
              · simp only [hnearer, true_and]
                exact Setting.bind_at?_of_filled _ way
              · simp only [hnearer, false_and, if_false, Ruling.silent_upon]
          · rw [if_neg hend] at h
            cases h.isScalar

/-- If `(q.ruling new p).GivesScalar`, then
`p.find? (q.lay new es) = (q.ruling new p).upon (p.find? es)`. -/
theorem find?_lay {q p : SettingPath} {new : Setting} (h : (q.ruling new p).GivesScalar)
    (es : Settings) : p.find? (q.lay new es) = (q.ruling new p).upon (p.find? es) := by
  rw [find?, lay, Setting.lookup_insert, ruling]
  rw [ruling] at h
  by_cases hroot : q.root = p.root
  · rw [if_pos hroot] at h
    rw [if_pos hroot, if_pos hroot, Option.bind_some, at?_changeAt h, Setting.find,
      Setting.upon_at?_getD (rulingAlong_ne_silent new q.steps), hroot]
    rfl
  · rw [if_neg hroot, if_neg hroot]
    rfl

/-- `lookup key (q.lay new es) = lookup key es` if `q.root ≠ key`. -/
theorem lookup_lay_of_ne {q : SettingPath} {key : String} (h : q.root ≠ key) (new : Setting)
    (es : Settings) : Setting.lookup key (q.lay new es) = Setting.lookup key es := by
  rw [lay, Setting.lookup_insert, if_neg h]

/-- `lookup key (q.lay new es)` depends only on `lookup key es`. -/
theorem lookup_lay_congr {key : String} {es es' : Settings}
    (h : Setting.lookup key es = Setting.lookup key es') (q : SettingPath) (new : Setting) :
    Setting.lookup key (q.lay new es) = Setting.lookup key (q.lay new es') := by
  rw [lay, lay, Setting.lookup_insert, Setting.lookup_insert]
  by_cases hroot : q.root = key
  · rw [if_pos hroot, if_pos hroot, Setting.find, Setting.find, hroot, h]
  · rw [if_neg hroot, if_neg hroot, h]

end SettingPath

namespace Layer

/-- What `layer` says about the setting at `p`: what the last of its entries says that says
anything. -/
def ruling : (layer : Layer) → (p : SettingPath) → Ruling
  | [], _ => .silent
  | e :: rest, p => (ruling rest p).after (e.1.ruling e.2 p)

/-- The entry `e` says nothing about the setting at `p`. -/
def Silent (e : SettingPath × Setting) (p : SettingPath) : Prop := e.1.ruling e.2 p = .silent

instance (e : SettingPath × Setting) (p : SettingPath) : Decidable (Silent e p) :=
  match h : e.1.ruling e.2 p with
  | .silent => isTrue h
  | .filled | .removed | .given _ => isFalse fun hsilent => by cases h.symm.trans hsilent

/-- Of any two entries of `layer` at most one says anything about the setting at `p`. -/
def Uncontested (layer : Layer) (p : SettingPath) : Prop :=
  layer.Pairwise fun e e' => Silent e p ∨ Silent e' p

instance (layer : Layer) (p : SettingPath) : Decidable (layer.Uncontested p) :=
  inferInstanceAs (Decidable (layer.Pairwise fun e e' => Silent e p ∨ Silent e' p))

/-- `ruling layer p = ruling layer' p` for `layer.Perm layer'`, if no two entries of `layer` say
anything at `p`. -/
theorem Uncontested.ruling_eq {layer layer' : Layer} {p : SettingPath}
    (h : Uncontested layer p) (hperm : layer.Perm layer') : ruling layer p = ruling layer' p := by
  induction hperm with
  | nil => rfl
  | cons e _ ih => rw [ruling, ruling, ih (List.pairwise_cons.1 h).2]
  | swap e e' layer =>
    rw [ruling, ruling, ruling, ruling]
    rcases (List.pairwise_cons.1 h).1 e List.mem_cons_self with hsilent | hsilent
    · rw [hsilent, Ruling.after_silent, Ruling.after_silent]
    · rw [hsilent, Ruling.after_silent, Ruling.after_silent]
  | @trans _ layer _ hperm _ ih ih' =>
    have hmiddle : Uncontested layer p :=
      (hperm.pairwise_iff fun hsilent => hsilent.symm).1 h
    rw [ih h, ih' hmiddle]

/-- Of a text at `a` and one at `a.b` the one that is merged last counts. -/
example :
    let a : SettingPath × Setting := (⟨"a", []⟩, .text "2")
    let b : SettingPath × Setting := (⟨"a", [.key "b"]⟩, .text "3")
    ruling [a, b] ⟨"a", [.key "b"]⟩ = .given (.text "3") ∧
      ruling [b, a] ⟨"a", [.key "b"]⟩ = .removed := ⟨rfl, rfl⟩

/-- `ruling layer p = .silent` if every entry is `Silent` at `p`. -/
theorem ruling_of_silent {layer : Layer} {p : SettingPath} (h : ∀ e ∈ layer, Silent e p) :
    ruling layer p = .silent := by
  induction layer with
  | nil => rfl
  | cons e rest ih =>
    obtain ⟨he, hrest⟩ := List.forall_mem_cons.1 h
    rw [ruling, ih hrest, he]
    rfl

/-- `ruling layer p = r` if some entry says `r` at `p` and every other says `r` as well or is
`Silent`. -/
theorem ruling_of_said {layer : Layer} {p : SettingPath} {r : Ruling}
    (hsaid : ∃ e ∈ layer, e.1.ruling e.2 p = r)
    (hall : ∀ e ∈ layer, Silent e p ∨ e.1.ruling e.2 p = r) : ruling layer p = r := by
  induction layer with
  | nil =>
    obtain ⟨e, hmem, -⟩ := hsaid
    cases hmem
  | cons e rest ih =>
    obtain ⟨he, hrest⟩ := List.forall_mem_cons.1 hall
    rw [ruling]
    -- the last of the entries that say `r` is behind the first, or it is the first
    by_cases hlater : ∃ e' ∈ rest, e'.1.ruling e'.2 p = r
    · rw [ih hlater hrest]
      rcases he with hsilent | hsame
      · rw [hsilent, Ruling.after_silent]
      · rw [hsame, Ruling.after_self]
    · have hsilent : ∀ e' ∈ rest, Silent e' p := by
        intro e' hmem
        exact (hrest e' hmem).resolve_right fun hsame => hlater ⟨e', hmem, hsame⟩
      obtain ⟨e', hmem, hsame⟩ := hsaid
      rw [ruling_of_silent hsilent, Ruling.silent_after]
      rcases List.mem_cons.1 hmem with rfl | hin
      · exact hsame
      · exact absurd ⟨e', hin, hsame⟩ hlater

end Layer

end Concolic

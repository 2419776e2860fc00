import Concolic.Proofs.Sizes
import Mathlib.Data.List.Forall2

/-! # Equality of values

Equality of values holds in both directions (`Value.equal_comm`) and goes on from value to value
(`Value.equal_trans`), but it is no equivalence: a value equals itself exactly if nothing in it, at
any depth, is no number (`Value.equal_self_iff`). All three go down the values as equality does,
through the items of lists and tuples and the keys and values of tables. Two values are equal
exactly if they agree in kind, size word, number of elements and content, the content compared
element by element (`Value.equal_iff_agree`). -/

namespace Concolic
namespace Value

/-! ## What equals a value -/

section

-- the equations of equality, once for the whole section
attribute [local simp] equal equalItems equalEntries

/-- `none` equals only `none`. -/
theorem none_equal_iff {w : Value} : none.equal w ↔ w = none := by
  cases w <;> simp

/-- `int n` equals only `int n`. -/
theorem int_equal_iff {n : Int32} {w : Value} : (int n).equal w ↔ w = int n := by
  cases w <;> simp [BEq.comm (a := n)]

/-- `float x` equals the `float y` with `x.equal y`. -/
theorem float_equal_iff {x : Binary64} {w : Value} :
    (float x).equal w ↔ ∃ y, w = float y ∧ x.equal y := by
  cases w <;> simp

/-- `byteArray bytes` equals only `byteArray bytes`. -/
theorem byteArray_equal_iff {bytes : List UInt8} {w : Value} :
    (byteArray bytes).equal w ↔ w = byteArray bytes := by
  cases w <;> simp [BEq.comm (a := bytes)]

/-- `str size bytes` equals only `str size bytes`: the size word counts. -/
theorem str_equal_iff {size : Int64} {bytes : List UInt8} {w : Value} :
    (str size bytes).equal w ↔ w = str size bytes := by
  cases w <;> simp [BEq.comm (a := size), BEq.comm (a := bytes)]

/-- `unicode size units` equals only `unicode size units`: the size word counts. -/
theorem unicode_equal_iff {size : Int64} {units : List UInt32} {w : Value} :
    (unicode size units).equal w ↔ w = unicode size units := by
  cases w <;> simp [BEq.comm (a := size), BEq.comm (a := units)]

/-- `list size items` equals the `list size items'` with `equalItems items items'`. -/
theorem list_equal_iff {size : Int64} {items : List Value} {w : Value} :
    (list size items).equal w ↔ ∃ items', w = list size items' ∧ equalItems items items' := by
  cases w <;> simp [BEq.comm (a := size), and_assoc]

/-- `dict used entries` equals the `dict used entries'` with `equalEntries entries entries'`. -/
theorem dict_equal_iff {used : Int64} {entries : List (Value × Value)} {w : Value} :
    (dict used entries).equal w
      ↔ ∃ entries', w = dict used entries' ∧ equalEntries entries entries' := by
  cases w <;> simp [BEq.comm (a := used), and_assoc]

/-- `tuple size items` equals the `tuple size items'` with `equalItems items items'`. -/
theorem tuple_equal_iff {size : Int64} {items : List Value} {w : Value} :
    (tuple size items).equal w ↔ ∃ items', w = tuple size items' ∧ equalItems items items' := by
  cases w <;> simp [BEq.comm (a := size), and_assoc]

/-- `equalItems [] ws` iff `ws = []`. -/
theorem nil_equalItems_iff {ws : List Value} : equalItems [] ws ↔ ws = [] := by
  cases ws <;> simp

/-- `equalItems (v :: vs) ws` iff `ws = w :: ws'` with `v.equal w` and `equalItems vs ws'`. -/
theorem cons_equalItems_iff {v : Value} {vs ws : List Value} :
    equalItems (v :: vs) ws ↔ ∃ w ws', ws = w :: ws' ∧ v.equal w ∧ equalItems vs ws' := by
  cases ws <;> simp [and_assoc]

/-- `equalEntries [] fs` iff `fs = []`. -/
theorem nil_equalEntries_iff {fs : List (Value × Value)} : equalEntries [] fs ↔ fs = [] := by
  cases fs <;> simp

/-- `equalEntries (e :: es) fs` iff `fs = f :: fs'` with `e` and `f` equal in key and value and
`equalEntries es fs'`. -/
theorem cons_equalEntries_iff {e : Value × Value} {es fs : List (Value × Value)} :
    equalEntries (e :: es) fs
      ↔ ∃ f fs', fs = f :: fs' ∧ e.1.equal f.1 ∧ e.2.equal f.2 ∧ equalEntries es fs' := by
  cases fs <;> simp [and_assoc]

end

/-! ## Both directions -/

mutual

/-- `v.equal w = w.equal v`. -/
theorem equal_comm : (v w : Value) → v.equal w = w.equal v
  | .none, w => by cases w <;> rfl
  | .int _, w => by
    cases w with
    | int _ => exact BEq.comm
    | _ => rfl
  | .float x, w => by
    cases w with
    | float y => exact x.equal_comm y
    | _ => rfl
  | .byteArray _, w => by
    cases w with
    | byteArray _ => exact BEq.comm
    | _ => rfl
  | .str size bytes, w => by
    cases w with
    | str _ _ => rw [equal, equal, BEq.comm (a := size), BEq.comm (a := bytes)]
    | _ => rfl
  | .unicode size units, w => by
    cases w with
    | unicode _ _ => rw [equal, equal, BEq.comm (a := size), BEq.comm (a := units)]
    | _ => rfl
  -- kinds that differ are unequal either way; the others go by their parts, and the items by the
  -- lists
  | .list size items, w => by
    cases w with
    | list _ _ => rw [equal, equal, BEq.comm (a := size), equalItems_comm items]
    | _ => rfl
  | .dict used entries, w => by
    cases w with
    | dict _ _ => rw [equal, equal, BEq.comm (a := used), equalEntries_comm entries]
    | _ => rfl
  | .tuple size items, w => by
    cases w with
    | tuple _ _ => rw [equal, equal, BEq.comm (a := size), equalItems_comm items]
    | _ => rfl

/-- `equalItems vs ws = equalItems ws vs`. -/
theorem equalItems_comm : (vs ws : List Value) → equalItems vs ws = equalItems ws vs
  | [], ws => by cases ws <;> rfl
  | v :: vs, ws => by
    cases ws with
    | nil => rfl
    | cons w ws => rw [equalItems, equalItems, equal_comm v w, equalItems_comm vs ws]

/-- `equalEntries es fs = equalEntries fs es`. -/
theorem equalEntries_comm :
    (es fs : List (Value × Value)) → equalEntries es fs = equalEntries fs es
  | [], fs => by cases fs <;> rfl
  | (k, v) :: es, fs => by
    cases fs with
    | nil => rfl
    | cons f fs =>
      rw [equalEntries, equalEntries, equal_comm k f.1, equal_comm v f.2, equalEntries_comm es fs]

end

/-! ## From value to value -/

mutual

/-- `equal` is transitive. -/
theorem equal_trans : (u : Value) → {v w : Value} → u.equal v → v.equal w → u.equal w
  | .none, v, w, h, h' => by rwa [none_equal_iff.1 h] at h'
  | .int _, v, w, h, h' => by rwa [int_equal_iff.1 h] at h'
  | .float x, v, w, h, h' => by
    obtain ⟨y, rfl, hxy⟩ := float_equal_iff.1 h
    obtain ⟨z, rfl, hyz⟩ := float_equal_iff.1 h'
    exact float_equal_iff.2 ⟨z, rfl, Binary64.equal_trans hxy hyz⟩
  | .byteArray _, v, w, h, h' => by rwa [byteArray_equal_iff.1 h] at h'
  | .str _ _, v, w, h, h' => by rwa [str_equal_iff.1 h] at h'
  | .unicode _ _, v, w, h, h' => by rwa [unicode_equal_iff.1 h] at h'
  | .list _ us, v, w, h, h' => by
    obtain ⟨vs, rfl, huv⟩ := list_equal_iff.1 h
    obtain ⟨ws, rfl, hvw⟩ := list_equal_iff.1 h'
    exact list_equal_iff.2 ⟨ws, rfl, equalItems_trans us huv hvw⟩
  | .dict _ es, v, w, h, h' => by
    obtain ⟨fs, rfl, hef⟩ := dict_equal_iff.1 h
    obtain ⟨gs, rfl, hfg⟩ := dict_equal_iff.1 h'
    exact dict_equal_iff.2 ⟨gs, rfl, equalEntries_trans es hef hfg⟩
  | .tuple _ us, v, w, h, h' => by
    obtain ⟨vs, rfl, huv⟩ := tuple_equal_iff.1 h
    obtain ⟨ws, rfl, hvw⟩ := tuple_equal_iff.1 h'
    exact tuple_equal_iff.2 ⟨ws, rfl, equalItems_trans us huv hvw⟩

/-- `equalItems` is transitive. -/
theorem equalItems_trans : (us : List Value) → {vs ws : List Value} →
    equalItems us vs → equalItems vs ws → equalItems us ws
  | [], vs, ws, h, h' => by rwa [nil_equalItems_iff.1 h] at h'
  | u :: us, vs, ws, h, h' => by
    obtain ⟨v, vs, rfl, huv, hrest⟩ := cons_equalItems_iff.1 h
    obtain ⟨w, ws, rfl, hvw, hrest'⟩ := cons_equalItems_iff.1 h'
    exact cons_equalItems_iff.2
      ⟨w, ws, rfl, equal_trans u huv hvw, equalItems_trans us hrest hrest'⟩

/-- `equalEntries` is transitive. -/
theorem equalEntries_trans : (es : List (Value × Value)) → {fs gs : List (Value × Value)} →
    equalEntries es fs → equalEntries fs gs → equalEntries es gs
  | [], fs, gs, h, h' => by rwa [nil_equalEntries_iff.1 h] at h'
  | (k, v) :: es, fs, gs, h, h' => by
    obtain ⟨f, fs, rfl, hkey, hvalue, hrest⟩ := cons_equalEntries_iff.1 h
    obtain ⟨g, gs, rfl, hkey', hvalue', hrest'⟩ := cons_equalEntries_iff.1 h'
    exact cons_equalEntries_iff.2 ⟨g, gs, rfl, equal_trans k hkey hkey',
      equal_trans v hvalue hvalue', equalEntries_trans es hrest hrest'⟩

end

/-- If `v.equal w`, then `u.equal v = u.equal w`. -/
theorem equal_congr {v w : Value} (h : v.equal w) (u : Value) : u.equal v = u.equal w := by
  rw [Bool.eq_iff_iff]
  constructor
  · exact fun huv => equal_trans u huv h
  · rw [equal_comm] at h
    exact fun huw => equal_trans u huw h

/-- If `v.equal w`, then `w.equal w`. -/
theorem equal_self_of_equal {v w : Value} (h : v.equal w) : w.equal w := by
  rwa [← equal_congr h w, equal_comm]

/-! ## What is no number -/

/-- NaN occurs in `v`, at any depth. -/
def HoldsNaN (v : Value) : Prop := ∃ x : Binary64, x.isNaN = true ∧ (float x).Part v

/-- `(float x).HoldsNaN` iff `x` is NaN. -/
theorem holdsNaN_float_iff {x : Binary64} : (float x).HoldsNaN ↔ x.isNaN = true := by
  constructor
  · rintro ⟨_, hx, ⟨⟩⟩
    exact hx
  · exact fun hx => ⟨x, hx, .self⟩

/-- `(list size items).HoldsNaN` iff an item has it. -/
theorem holdsNaN_list_iff {size : Int64} {items : List Value} :
    (list size items).HoldsNaN ↔ ∃ v ∈ items, v.HoldsNaN := by
  constructor
  · rintro ⟨x, hx, hpart⟩
    cases hpart with
    | item hv hpart => exact ⟨_, hv, x, hx, hpart⟩
  · rintro ⟨v, hv, x, hx, hpart⟩
    exact ⟨x, hx, .item hv hpart⟩

/-- `(dict used entries).HoldsNaN` iff a key or the value of a key has it. -/
theorem holdsNaN_dict_iff {used : Int64} {entries : List (Value × Value)} :
    (dict used entries).HoldsNaN ↔ ∃ e ∈ entries, e.1.HoldsNaN ∨ e.2.HoldsNaN := by
  constructor
  · rintro ⟨x, hx, hpart⟩
    cases hpart with
    | key he hpart => exact ⟨_, he, .inl ⟨x, hx, hpart⟩⟩
    | value he hpart => exact ⟨_, he, .inr ⟨x, hx, hpart⟩⟩
  · rintro ⟨e, he, ⟨x, hx, hpart⟩ | ⟨x, hx, hpart⟩⟩
    · exact ⟨x, hx, .key he hpart⟩
    · exact ⟨x, hx, .value he hpart⟩

/-- `(tuple size items).HoldsNaN` iff an item has it. -/
theorem holdsNaN_tuple_iff {size : Int64} {items : List Value} :
    (tuple size items).HoldsNaN ↔ ∃ v ∈ items, v.HoldsNaN := by
  constructor
  · rintro ⟨x, hx, hpart⟩
    cases hpart with
    | component hv hpart => exact ⟨_, hv, x, hx, hpart⟩
  · rintro ⟨v, hv, x, hx, hpart⟩
    exact ⟨x, hx, .component hv hpart⟩

mutual

/-- `v.equal v` iff not `v.HoldsNaN`. -/
theorem equal_self_iff : (v : Value) → (v.equal v ↔ ¬ v.HoldsNaN)
  | .none => ⟨fun _ => by rintro ⟨_, _, ⟨⟩⟩, fun _ => rfl⟩
  | .int _ => ⟨fun _ => by rintro ⟨_, _, ⟨⟩⟩, fun _ => by simp [equal]⟩
  | .float x => by simp [equal, x.equal_self, holdsNaN_float_iff]
  | .byteArray _ => ⟨fun _ => by rintro ⟨_, _, ⟨⟩⟩, fun _ => by simp [equal]⟩
  | .str _ _ => ⟨fun _ => by rintro ⟨_, _, ⟨⟩⟩, fun _ => by simp [equal]⟩
  | .unicode _ _ => ⟨fun _ => by rintro ⟨_, _, ⟨⟩⟩, fun _ => by simp [equal]⟩
  | .list _ items => by simp [equal, equalItems_self_iff items, holdsNaN_list_iff]
  | .dict _ entries => by simp [equal, equalEntries_self_iff entries, holdsNaN_dict_iff]
  | .tuple _ items => by simp [equal, equalItems_self_iff items, holdsNaN_tuple_iff]

/-- `equalItems vs vs` iff no item has `HoldsNaN`. -/
theorem equalItems_self_iff : (vs : List Value) → (equalItems vs vs ↔ ∀ v ∈ vs, ¬ v.HoldsNaN)
  | [] => by simp [equalItems]
  | v :: vs => by simp [equalItems, equal_self_iff v, equalItems_self_iff vs]

/-- `equalEntries es es` iff no key and no value has `HoldsNaN`. -/
theorem equalEntries_self_iff : (es : List (Value × Value)) →
    (equalEntries es es ↔ ∀ e ∈ es, ¬ e.1.HoldsNaN ∧ ¬ e.2.HoldsNaN)
  | [] => by simp [equalEntries]
  | (k, v) :: es => by
    simp [equalEntries, equal_self_iff k, equal_self_iff v, equalEntries_self_iff es]

end

/-! ## What equal values have in common -/

/-- What a value holds apart from its size word. -/
inductive Content where
  /-- Nothing. -/
  | nothing
  /-- An integer. -/
  | integer (n : Int32)
  /-- A double. -/
  | double (x : Binary64)
  /-- The bytes of a byte array or a byte string. -/
  | bytes (bytes : List UInt8)
  /-- The units of a text. -/
  | units (units : List UInt32)
  /-- The items of a list or a tuple. -/
  | items (items : List Value)
  /-- The entries of a table. -/
  | entries (entries : List (Value × Value))

/-- The content of a value. -/
def content : Value → Content
  | none => .nothing
  | int n => .integer n
  | float x => .double x
  | byteArray bytes => .bytes bytes
  | str _ bytes => .bytes bytes
  | unicode _ units => .units units
  | list _ items => .items items
  | dict _ entries => .entries entries
  | tuple _ items => .items items

/-- Contents that equality does not tell apart: numbers, bytes and units are the same, the zeros
count as one double, and there are as many items or entries, equal place by place. -/
inductive Content.Alike : Content → Content → Prop where
  /-- Nothing is like nothing. -/
  | nothing : Alike .nothing .nothing
  /-- An integer is like itself. -/
  | integer (n : Int32) : Alike (.integer n) (.integer n)
  /-- Doubles that are numbers are alike if they are the same number. -/
  | double {x y : Binary64} (hx : ¬ x.isNaN) (hy : ¬ y.isNaN) (h : x = y ∨ x.isZero ∧ y.isZero) :
      Alike (.double x) (.double y)
  /-- Bytes are like themselves. -/
  | bytes (bytes : List UInt8) : Alike (.bytes bytes) (.bytes bytes)
  /-- Units are like themselves. -/
  | units (units : List UInt32) : Alike (.units units) (.units units)
  /-- Items are alike if they are equal one by one. -/
  | items {vs ws : List Value} (h : List.Forall₂ (fun v w => v.equal w) vs ws) :
      Alike (.items vs) (.items ws)
  /-- Entries are alike if their keys and their values are equal one by one. -/
  | entries {es fs : List (Value × Value)}
      (h : List.Forall₂ (fun e f => e.1.equal f.1 ∧ e.2.equal f.2) es fs) :
      Alike (.entries es) (.entries fs)

/-- Values that agree in everything that equality looks at. -/
structure Agree (v w : Value) : Prop where
  /-- They are of one kind. -/
  kind : v.kind = w.kind
  /-- They have the same size word, if any. -/
  size : v.size? = w.size?
  /-- They have the same number of bytes, units, items or entries, if any. -/
  count : v.count? = w.count?
  /-- Their contents are alike. -/
  content : v.content.Alike w.content

/-- `equalItems vs ws` iff `vs` and `ws` are equal one by one. -/
theorem equalItems_iff {vs ws : List Value} :
    equalItems vs ws ↔ List.Forall₂ (fun v w => v.equal w) vs ws := by
  induction vs generalizing ws with
  | nil => rw [nil_equalItems_iff, List.forall₂_nil_left_iff]
  | cons v vs ih =>
    rw [cons_equalItems_iff, List.forall₂_cons_left_iff]
    constructor
    · rintro ⟨w, ws, rfl, hvw, hrest⟩
      exact ⟨w, ws, hvw, ih.1 hrest, rfl⟩
    · rintro ⟨w, ws, hvw, hrest, rfl⟩
      exact ⟨w, ws, rfl, hvw, ih.2 hrest⟩

/-- `equalEntries es fs` iff the keys and the values are equal one by one. -/
theorem equalEntries_iff {es fs : List (Value × Value)} :
    equalEntries es fs
      ↔ List.Forall₂ (fun e f => e.1.equal f.1 ∧ e.2.equal f.2) es fs := by
  induction es generalizing fs with
  | nil => rw [nil_equalEntries_iff, List.forall₂_nil_left_iff]
  | cons e es ih =>
    rw [cons_equalEntries_iff, List.forall₂_cons_left_iff]
    constructor
    · rintro ⟨f, fs, rfl, hkey, hvalue, hrest⟩
      exact ⟨f, fs, ⟨hkey, hvalue⟩, ih.1 hrest, rfl⟩
    · rintro ⟨f, fs, ⟨hkey, hvalue⟩, hrest, rfl⟩
      exact ⟨f, fs, rfl, hkey, hvalue, ih.2 hrest⟩

/-- `v.equal w` gives `v.Agree w`. -/
theorem agree_of_equal {v w : Value} (h : v.equal w) : v.Agree w := by
  -- by the kind of `v`: its inversion gives a `w` of the same kind, and what its content shares
  cases v with
  | none =>
    obtain rfl := none_equal_iff.1 h
    exact ⟨rfl, rfl, rfl, .nothing⟩
  | int n =>
    obtain rfl := int_equal_iff.1 h
    exact ⟨rfl, rfl, rfl, .integer n⟩
  | float x =>
    obtain ⟨y, rfl, hxy⟩ := float_equal_iff.1 h
    obtain ⟨hx, hy, hnumber⟩ := Binary64.equal_iff.1 hxy
    exact ⟨rfl, rfl, rfl, .double hx hy hnumber⟩
  | byteArray bytes =>
    obtain rfl := byteArray_equal_iff.1 h
    exact ⟨rfl, rfl, rfl, .bytes bytes⟩
  | str size bytes =>
    obtain rfl := str_equal_iff.1 h
    exact ⟨rfl, rfl, rfl, .bytes bytes⟩
  | unicode size units =>
    obtain rfl := unicode_equal_iff.1 h
    exact ⟨rfl, rfl, rfl, .units units⟩
  | list size items =>
    obtain ⟨items', rfl, hitems⟩ := list_equal_iff.1 h
    have halike := equalItems_iff.1 hitems
    exact ⟨rfl, rfl, congrArg some halike.length_eq, .items halike⟩
  | dict used entries =>
    obtain ⟨entries', rfl, hentries⟩ := dict_equal_iff.1 h
    have halike := equalEntries_iff.1 hentries
    exact ⟨rfl, rfl, congrArg some halike.length_eq, .entries halike⟩
  | tuple size items =>
    obtain ⟨items', rfl, hitems⟩ := tuple_equal_iff.1 h
    have halike := equalItems_iff.1 hitems
    exact ⟨rfl, rfl, congrArg some halike.length_eq, .items halike⟩

/-- `v.Agree w` gives `v.equal w`. -/
theorem equal_of_agree {v w : Value} (h : v.Agree w) : v.equal w := by
  obtain ⟨hkind, hsize, -, hcontent⟩ := h
  -- values of different kinds do not agree
  cases v <;> cases w <;> cases hkind <;> cases hsize <;> cases hcontent
  case none => rfl
  case int n => exact int_equal_iff.2 rfl
  case float x y hx hy hnumber =>
    exact float_equal_iff.2 ⟨y, rfl, Binary64.equal_iff.2 ⟨hx, hy, hnumber⟩⟩
  case byteArray bytes => exact byteArray_equal_iff.2 rfl
  case str size bytes => exact str_equal_iff.2 rfl
  case unicode size units => exact unicode_equal_iff.2 rfl
  case list items size items' halike =>
    exact list_equal_iff.2 ⟨items', rfl, equalItems_iff.2 halike⟩
  case dict entries used entries' halike =>
    exact dict_equal_iff.2 ⟨entries', rfl, equalEntries_iff.2 halike⟩
  case tuple items size items' halike =>
    exact tuple_equal_iff.2 ⟨items', rfl, equalItems_iff.2 halike⟩

/-- `v.equal w` iff `v.Agree w`. -/
theorem equal_iff_agree {v w : Value} : v.equal w ↔ v.Agree w :=
  ⟨agree_of_equal, equal_of_agree⟩

/-- **Equality of values is a partial equivalence.** `equal` is symmetric and transitive, and
`v.equal v` iff nothing in `v`, at any depth, is NaN. `v.equal w` iff `v.Agree w`: they have the
same kind, the same size word and the same number of elements, and their contents are alike,
elements one by one in order. -/
theorem equal_partial_equivalence :
    (∀ v w : Value, v.equal w → w.equal v) ∧
    (∀ u v w : Value, u.equal v → v.equal w → u.equal w) ∧
    (∀ v : Value, v.equal v ↔ ¬ v.HoldsNaN) ∧
    ∀ v w : Value, v.equal w ↔ v.Agree w := by
  refine ⟨?_, fun u v w => equal_trans u, equal_self_iff, fun v w => equal_iff_agree⟩
  intro v w h
  rwa [equal_comm]

/-- Tables with one key, a zero of either sign, are equal and so agree. Their size word counts: with
another word the table is equal to neither. A tuple of such a table and of what is no number, two
levels down, does not equal itself. -/
theorem equal_partial_equivalence_zeros :
    let zeroKey : Value := .dict 9 [(.float ⟨0⟩, .tupleOf [.ofBytes [97], .none])]
    let negativeZeroKey : Value :=
      .dict 9 [(.float ⟨0x8000000000000000⟩, .tupleOf [.ofBytes [97], .none])]
    let counted : Value := .dict 1 [(.float ⟨0⟩, .tupleOf [.ofBytes [97], .none])]
    let nested : Value := .tupleOf [zeroKey, .ofItems [.float (.nan true)]]
    negativeZeroKey.equal zeroKey ∧ zeroKey.Agree negativeZeroKey ∧
      ¬ counted.equal zeroKey ∧ ¬ counted.equal negativeZeroKey ∧ ¬ nested.equal nested := by
  intro zeroKey negativeZeroKey counted nested
  obtain ⟨hsymm, htrans, hself, hagree⟩ := equal_partial_equivalence
  have hequal : zeroKey.equal negativeZeroKey := by decide +kernel
  -- equal values have equal size words, and these are 1 and 9
  have hcounted : ¬ counted.equal zeroKey := by
    intro h
    have hword := ((hagree _ _).1 h).size
    exact absurd hword (by decide)
  refine ⟨hsymm _ _ hequal, (hagree _ _).1 hequal, hcounted, ?_, ?_⟩
  · exact fun h => hcounted (htrans _ _ _ h (hsymm _ _ hequal))
  · -- the value that is no number lies two levels below `nested`
    have hnan : (ofItems [.float (.nan true)]).HoldsNaN :=
      holdsNaN_list_iff.2 ⟨.float (.nan true), List.mem_singleton_self _,
        holdsNaN_float_iff.2 (by decide)⟩
    have hnested : nested.HoldsNaN :=
      holdsNaN_tuple_iff.2 ⟨ofItems [.float (.nan true)], by simp, hnan⟩
    exact fun h => (hself nested).1 h hnested

end Value
end Concolic

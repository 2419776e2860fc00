import Concolic.Answers.Printed
import Concolic.Proofs.JsonText
import Concolic.Proofs.Utf8
import Mathlib.Data.List.Forall2

/-! # What printed assignments tell

The file in which assignments are written reads as one JSON value that shows them: an object for
each map, with the keys of the map in some order, and for each value an object of one member under
the name of its kind (`Assignments.Shown`). The order of the members is immaterial
(`Assignments.Shown.sorted`). Only text units that are no scalar values are not shown, so a value
shows at most one assignments without such units (`Assignments.Shown.inj`). -/

namespace Concolic

/-! ## Values that are shown -/

/-- `u` is a Unicode scalar value. -/
def IsScalar (u : UInt32) : Prop := u.toNat < 0xD800 ∨ 0xDFFF < u.toNat ∧ u.toNat < 0x110000

instance (u : UInt32) : Decidable (IsScalar u) :=
  inferInstanceAs (Decidable (u.toNat < 0xD800 ∨ 0xDFFF < u.toNat ∧ u.toNat < 0x110000))

/-- `c` shows the text unit `u`: it is the scalar value `u`, and U+FFFD if `u` is none. -/
def UnitShown (u : UInt32) (c : Char) : Prop :=
  (IsScalar u → c.val = u) ∧ (¬ IsScalar u → c = '\uFFFD')

/-- The JSON values that show a value: an object whose one member names the kind. -/
inductive BufferValue.Shown : BufferValue → Json → Prop where
  | integer (n : Int32) : Shown (.integer n) (.object [("integer", .int n.toInt)])
  | sizeWord (n : Int64) : Shown (.sizeWord n) (.object [("size_word", .int n.toInt)])
  | byteString (bytes : List UInt8) :
      Shown (.byteString bytes)
        (.object [("byte_string", .array (bytes.map fun b => .int b.toNat))])
  | wideString {units : List UInt32} {text : String}
      (h : List.Forall₂ UnitShown units text.toList) :
      Shown (.wideString units) (.object [("wide_string", .string text)])
  | byteArray (bytes : List UInt8) :
      Shown (.byteArray bytes)
        (.object [("byte_array", .array (bytes.map fun b => .int b.toNat))])

/-- The JSON values that show a map: an object whose keys are those of the map, each once and with
its value shown. -/
inductive OrderedMap.Shown {α : Type} (shown : α → Json → Prop) (m : OrderedMap α) :
    Json → Prop where
  | object {members : List (String × Json)} (hkeys : (members.map Prod.fst).Perm m.keys)
      (hvalues : ∀ key json, (key, json) ∈ members →
        ∃ value, m.get? key = some value ∧ shown value json) :
      Shown shown m (.object members)

/-- `json` shows the values of one object. -/
def Fields.Shown (fields : Fields) (json : Json) : Prop :=
  OrderedMap.Shown BufferValue.Shown fields json

/-- `json` shows `a`. -/
def Assignments.Shown (a : Assignments) (json : Json) : Prop :=
  OrderedMap.Shown Fields.Shown a json

/-- The text units in `a` are all scalar values. -/
def Assignments.ScalarUnits (a : Assignments) : Prop :=
  ∀ key field units, a.value? key field = some (.wideString units) → ∀ u ∈ units, IsScalar u

/-- The value of the JSON text that `bytes` encode. -/
def jsonOfFile? (bytes : List UInt8) : Option Json :=
  (Utf8.decode? bytes).bind fun text => (Json.read text).toOption

/-! ## What is shown determines the assignments -/

/-- Scalar units `units` and `units'` that are shown by the same characters are equal. -/
theorem eq_of_forall₂_unitShown {units units' : List UInt32} {cs : List Char}
    (h : List.Forall₂ UnitShown units cs) (h' : List.Forall₂ UnitShown units' cs)
    (hunits : ∀ u ∈ units, IsScalar u) (hunits' : ∀ u ∈ units', IsScalar u) : units = units' := by
  induction h generalizing units' with
  | nil =>
    cases h'
    rfl
  | cons hu _ ih =>
    cases h' with
    | cons hu' h' =>
      obtain ⟨hscalar, hrest⟩ := List.forall_mem_cons.1 hunits
      obtain ⟨hscalar', hrest'⟩ := List.forall_mem_cons.1 hunits'
      rw [← hu.1 hscalar, ← hu'.1 hscalar', ih h' hrest hrest']

/-- `bytes.map fun b => Json.int b.toNat` determines `bytes`. -/
theorem map_int_inj {bytes bytes' : List UInt8} :
    (bytes.map fun b => Json.int b.toNat) = bytes'.map (fun b => Json.int b.toNat)
      ↔ bytes = bytes' := by
  apply List.map_inj_right
  intro b b' h
  exact UInt8.toNat_inj.1 (Int.ofNat_inj.1 (Json.int.inj h))

/-- `v.Shown json` and `w.Shown json` give `v = w`, if the units of both are scalar values. -/
theorem BufferValue.Shown.inj {v w : BufferValue} {json : Json} (hv : v.Shown json)
    (hw : w.Shown json) (hunits : ∀ units, v = .wideString units → ∀ u ∈ units, IsScalar u)
    (hunits' : ∀ units, w = .wideString units → ∀ u ∈ units, IsScalar u) : v = w := by
  -- values of two kinds have different member names, so only the pairs of one kind are left
  generalize hjson : json = json' at hw
  cases hv with
  | integer n =>
    cases hw
    all_goals simp [Int32.toInt_inj] at hjson ⊢
    exact hjson
  | sizeWord n =>
    cases hw
    all_goals simp [Int64.toInt_inj] at hjson ⊢
    exact hjson
  | byteString bytes =>
    cases hw
    all_goals simp [map_int_inj] at hjson ⊢
    exact hjson
  | wideString h =>
    cases hw
    all_goals simp at hjson ⊢
    rename_i h'
    subst hjson
    exact eq_of_forall₂_unitShown h h' (hunits _ rfl) (hunits' _ rfl)
  | byteArray bytes =>
    cases hw
    all_goals simp [map_int_inj] at hjson ⊢
    exact hjson

/-- `m.Shown shown json` and `m'.Shown shown json` give `m = m'`, if `shown` determines the values
at each key. -/
theorem OrderedMap.Shown.inj {α : Type} {shown : α → Json → Prop} {m m' : OrderedMap α}
    {json : Json} (h : m.Shown shown json) (h' : m'.Shown shown json)
    (hvalues : ∀ key value value' json, m.get? key = some value → m'.get? key = some value' →
      shown value json → shown value' json → value = value') : m = m' := by
  obtain ⟨hkeys, hshown⟩ := h
  obtain ⟨hkeys', hshown'⟩ := h'
  have hsame : m.keys.Perm m'.keys := hkeys.symm.trans hkeys'
  apply OrderedMap.ext_get?
  intro key
  by_cases hkey : key ∈ m.keys
  · -- the one member with the key shows the values of both maps
    rw [← hkeys.mem_iff] at hkey
    obtain ⟨⟨_, json⟩, hmem, rfl⟩ := List.mem_map.1 hkey
    obtain ⟨value, hget, hvalue⟩ := hshown _ json hmem
    obtain ⟨value', hget', hvalue'⟩ := hshown' _ json hmem
    rw [hget, hget', hvalues _ value value' json hget hget' hvalue hvalue']
  · have hnone {m : OrderedMap α} (h : key ∉ m.keys) : m.get? key = none := by
      rw [OrderedMap.mem_keys_iff, Option.not_isSome_iff_eq_none] at h
      exact h
    rw [hnone hkey, hnone (mt hsame.mem_iff.2 hkey)]

/-- `a.Shown json` and `b.Shown json` give `a = b`, if `a.ScalarUnits` and `b.ScalarUnits`. -/
theorem Assignments.Shown.inj {a b : Assignments} {json : Json} (ha : a.Shown json)
    (hb : b.Shown json) (hunits : a.ScalarUnits) (hunits' : b.ScalarUnits) : a = b := by
  have hvalue {a : Assignments} {key field : String} {fields : Fields} {value : BufferValue}
      (hfields : a.get? key = some fields) (hget : fields.get? field = some value) :
      a.value? key field = some value := by
    rw [Assignments.value?, hfields, Option.bind_some, hget]
  apply OrderedMap.Shown.inj ha hb
  intro key fields fields' json hfields hfields' h h'
  apply OrderedMap.Shown.inj h h'
  intro field value value' json hget hget' hshown hshown'
  apply hshown.inj hshown'
  · rintro units rfl
    exact hunits key field units (hvalue hfields hget)
  · rintro units rfl
    exact hunits' key field units (hvalue hfields' hget')

/-! ## Members in another order -/

/-- `insertEntry key value entries` is a permutation of `(key, value) :: entries`, if `key` is
new. -/
theorem OrderedMap.insertEntry_perm {α : Type} {key : String} {value : α}
    {entries : List (String × α)} (h : key ∉ entries.map Prod.fst) :
    (OrderedMap.insertEntry key value entries).Perm ((key, value) :: entries) := by
  induction entries with
  | nil => exact .refl _
  | cons e entries ih =>
    obtain ⟨k, v⟩ := e
    rw [List.map_cons, List.mem_cons, not_or] at h
    obtain ⟨hne, hrest⟩ := h
    rw [OrderedMap.insertEntry]
    by_cases hlt : key < k
    · rw [if_pos hlt]
    · have hgt : k < key := by
        by_contra hnot
        exact hne (OrderedMap.eq_of_not_lt hlt hnot)
      rw [if_neg hlt, if_pos hgt]
      exact ((ih hrest).cons (k, v)).trans (.swap _ _ _)

/-- `sortMembers members` is a permutation of `members`, if no two have the same key. -/
theorem Json.sortMembers_perm {members : List (String × Json)}
    (h : (members.map Prod.fst).Nodup) : (Json.sortMembers members).Perm members := by
  -- the members so far are all there, and the keys of the others are new
  suffices ∀ sorted : List (String × Json), ((sorted ++ members).map Prod.fst).Nodup →
      (members.foldl (fun sorted m => OrderedMap.insertEntry m.1 m.2 sorted) sorted).Perm
        (sorted ++ members) from this [] h
  clear h
  intro sorted h
  induction members generalizing sorted with
  | nil => rw [List.foldl_nil, List.append_nil]
  | cons m members ih =>
    have hmiddle : (sorted ++ m :: members).Perm (m :: sorted ++ members) :=
      List.perm_middle
    have hnodup := (hmiddle.map Prod.fst).nodup_iff.1 h
    have hnew : m.1 ∉ sorted.map Prod.fst := by
      intro hmem
      rw [List.cons_append, List.map_cons, List.nodup_cons, List.map_append] at hnodup
      exact hnodup.1 (List.mem_append_left _ hmem)
    have hentry : (OrderedMap.insertEntry m.1 m.2 sorted).Perm (m :: sorted) :=
      OrderedMap.insertEntry_perm hnew
    have hinsert := hentry.append_right members
    have hkeys := ((hinsert.map Prod.fst).nodup_iff).2 hnodup
    exact ((ih _ hkeys).trans hinsert).trans hmiddle.symm

/-- `sortedValues` sorts the value of each member. -/
theorem Json.sortedValues_eq_map (members : List (String × Json)) :
    Json.sortedValues members = members.map fun m => (m.1, m.2.sorted) := by
  induction members with
  | nil => rfl
  | cons m members ih =>
    obtain ⟨key, v⟩ := m
    rw [Json.sortedValues, ih, List.map_cons]

/-- `m.Shown shown json` gives `m.Shown shown json.sorted`, if that holds of `shown`. -/
theorem OrderedMap.Shown.sorted {α : Type} {shown : α → Json → Prop} {m : OrderedMap α}
    (hsorted : ∀ value json, shown value json → shown value json.sorted) {json : Json}
    (h : m.Shown shown json) : m.Shown shown json.sorted := by
  obtain ⟨hkeys, hvalues⟩ := h
  rename_i members
  -- sorting changes the values and the order, but not the keys
  have hsame : (members.map fun e => (e.1, e.2.sorted)).map Prod.fst = members.map Prod.fst := by
    rw [List.map_map]
    rfl
  have hnodup : ((members.map fun e => (e.1, e.2.sorted)).map Prod.fst).Nodup := by
    rw [hsame]
    exact hkeys.nodup_iff.2 m.nodup_keys
  have hperm := Json.sortMembers_perm hnodup
  rw [Json.sorted, Json.sortedValues_eq_map]
  constructor
  · have hkeys' := hperm.map Prod.fst
    rw [hsame] at hkeys'
    exact hkeys'.trans hkeys
  · intro key json hmem
    -- a member that is shown comes from one whose value was sorted
    obtain ⟨⟨_, json'⟩, hmem', heq⟩ := List.mem_map.1 (hperm.mem_iff.1 hmem)
    obtain ⟨rfl, rfl⟩ := Prod.mk.inj heq
    obtain ⟨value, hget, hvalue⟩ := hvalues _ json' hmem'
    exact ⟨value, hget, hsorted value json' hvalue⟩

/-- `v.Shown json` gives `v.Shown json.sorted`: the only object has one member. -/
theorem BufferValue.Shown.sorted {v : BufferValue} {json : Json} (h : v.Shown json) :
    v.Shown json.sorted := by
  -- an object of one member, and an array of numbers, are sorted as they are
  have hobject {key : String} {json : Json} (h : json.sorted = json) :
      (Json.object [(key, json)]).sorted = .object [(key, json)] := by
    rw [Json.sorted, Json.sortedValues_eq_map, List.map_singleton, h]
    rfl
  have hbytes (bytes : List UInt8) :
      (Json.array (bytes.map fun b => .int b.toNat)).sorted
        = .array (bytes.map fun b => .int b.toNat) := by
    rw [Json.sorted]
    congr 1
    induction bytes with
    | nil => rfl
    | cons b bytes ih => rw [List.map_cons, Json.sortedItems, ih, Json.sorted]
  cases h with
  | integer n =>
    rw [hobject rfl]
    exact .integer n
  | sizeWord n =>
    rw [hobject rfl]
    exact .sizeWord n
  | byteString bytes =>
    rw [hobject (hbytes bytes)]
    exact .byteString bytes
  | wideString h =>
    rw [hobject rfl]
    exact .wideString h
  | byteArray bytes =>
    rw [hobject (hbytes bytes)]
    exact .byteArray bytes

/-- `a.Shown json → a.Shown json.sorted`: the order of the members is immaterial. -/
theorem Assignments.Shown.sorted {a : Assignments} {json : Json} (h : a.Shown json) :
    a.Shown json.sorted := by
  apply OrderedMap.Shown.sorted _ h
  intro fields json hfields
  apply OrderedMap.Shown.sorted _ hfields
  intro value json hvalue
  exact hvalue.sorted

/-! ## Maps as objects -/

section Objects

variable {α : Type} {f : String → α → Json}

/-- `(objectOf f entries).Plain (n + 1)` if `f` gives plain values. -/
theorem Json.plain_objectOf {n : Nat} (h : ∀ key value, (f key value).Plain n)
    (entries : List (String × α)) : (objectOf f entries).Plain (n + 1) := by
  apply Json.Plain.object
  intro member hmember
  obtain ⟨⟨key, value⟩, -, rfl⟩ := List.mem_map.1 hmember
  exact h key value

/-- `objectOf f entries` shows `m`, if `entries` is a permutation of its entries and `f` shows its
values. -/
theorem OrderedMap.shown_objectOf {shown : α → Json → Prop} {m : OrderedMap α}
    {entries : List (String × α)} (hperm : entries.Perm m.entries)
    (h : ∀ key value, shown value (f key value)) : m.Shown shown (objectOf f entries) := by
  constructor
  · rw [List.map_map]
    exact hperm.map Prod.fst
  · intro key json hmem
    obtain ⟨⟨_, value⟩, hentry, heq⟩ := List.mem_map.1 hmem
    obtain ⟨rfl, rfl⟩ := Prod.mk.inj heq
    exact ⟨value, OrderedMap.mem_entries_iff.1 (hperm.mem_iff.1 hentry), h _ value⟩

end Objects

/-! ## The JSON value of assignments -/

/-- `(Json.int z).Plain n` if `z` is a signed word. -/
theorem Json.plain_int {n : Nat} {z : Int} (hlow : Int64.minValue.toInt ≤ z)
    (hhigh : z ≤ Int64.maxValue.toInt) : (Json.int z).Plain n := by
  refine .int hlow ?_
  rw [Int64.toInt_maxValue] at hhigh
  simp only [UInt64.size]
  omega

namespace BufferValue

/-- `unitChar u` shows `u`. -/
theorem unitShown_unitChar (u : UInt32) : UnitShown u (unitChar u) := by
  constructor
  · intro hscalar
    have hvalid : u.toNat.isValidChar := hscalar
    rw [unitChar, if_pos hvalid]
    exact UInt32.toNat_inj.1 (Utf8.val_ofNat hscalar)
  · intro hscalar
    have hvalid : ¬ u.toNat.isValidChar := hscalar
    rw [unitChar, if_neg hvalid]

/-- `v.Shown v.json`. -/
theorem shown_json (v : BufferValue) : v.Shown v.json := by
  cases v with
  | integer n => exact .integer n
  | sizeWord n => exact .sizeWord n
  | byteString bytes => exact .byteString bytes
  | wideString units =>
    refine .wideString ?_
    rw [unitsText, String.toList_ofList]
    induction units with
    | nil => exact .nil
    | cons u units ih => exact .cons (unitShown_unitChar u) ih
  | byteArray bytes => exact .byteArray bytes

/-- `v.json.Plain 2`: its integers are words. -/
theorem plain_json (v : BufferValue) : v.json.Plain 2 := by
  have hmin := Int64.toInt_minValue
  have hmax := Int64.toInt_maxValue
  -- all forms are objects of one member, which is a number, a text or an array of numbers
  have hobject {key : String} {json : Json} (h : json.Plain 1) :
      (Json.object [(key, json)]).Plain 2 := by
    apply Json.Plain.object
    intro m hm
    rw [List.mem_singleton.1 hm]
    exact h
  have hbytes (bytes : List UInt8) : (bytesJson bytes).Plain 1 := by
    apply Json.Plain.array
    intro json hjson
    obtain ⟨b, -, rfl⟩ := List.mem_map.1 hjson
    have hb := b.toNat_lt
    exact Json.plain_int (by omega) (by omega)
  cases v with
  | integer n =>
    have hlow := n.le_toInt
    have hhigh := n.toInt_lt
    exact hobject (Json.plain_int (by omega) (by omega))
  | sizeWord n =>
    have hlow := n.le_toInt
    have hhigh := n.toInt_lt
    exact hobject (Json.plain_int (by omega) (by omega))
  | byteString bytes => exact hobject (hbytes bytes)
  | wideString units => exact hobject (.string _)
  | byteArray bytes => exact hobject (hbytes bytes)

end BufferValue

namespace Assignments

/-- `a.Shown (a.json order)`: assignments are shown by their JSON value, in any order. -/
theorem shown_json (order : MemberOrder) (a : Assignments) : a.Shown (a.json order) :=
  OrderedMap.shown_objectOf (order.objects_perm a) fun key fields =>
    OrderedMap.shown_objectOf (order.parts_perm a key fields) fun _ value => value.shown_json

/-- `(a.json order).Plain 4`. -/
theorem plain_json (order : MemberOrder) (a : Assignments) : (a.json order).Plain 4 :=
  Json.plain_objectOf (fun key fields =>
    Json.plain_objectOf (fun _ value => value.plain_json) (order.parts a key fields))
    (order.objects a)

/-- `jsonOfFile? (a.file order) = some (a.json order)`: the file reads as the JSON value. -/
theorem jsonOfFile?_file (order : MemberOrder) (a : Assignments) :
    jsonOfFile? (a.file order) = some (a.json order) := by
  rw [jsonOfFile?, file, Utf8.decode?_encode, Option.bind_some,
    Json.read_write (by decide) (a.plain_json order)]
  rfl

/-- **The file tells the assignments.** In whatever order the members are written, the file is UTF-8
text that reads as one JSON value with `a.Shown json`: its keys are those of the assignments and the
keys inside are those of each object, and each value is an object of one member that names the kind
and has the integer, the bytes, or the text of the units, in which U+FFFD stands for those that are
no scalar values. So if `a` and `b` have no such units and their files, each in its own order, read
as values that are the same up to the order of members, then `a = b`. -/
theorem file_shows (order : MemberOrder) (a : Assignments) :
    ∃ json, jsonOfFile? (a.file order) = some json ∧ a.Shown json ∧
      ∀ (order' : MemberOrder) (b : Assignments) (json' : Json),
        jsonOfFile? (b.file order') = some json' →
        a.ScalarUnits → b.ScalarUnits → json.sorted = json'.sorted → a = b := by
  refine ⟨a.json order, jsonOfFile?_file order a, shown_json order a, ?_⟩
  intro order' b json' hjson' hunits hunits' hsame
  rw [jsonOfFile?_file] at hjson'
  cases hjson'
  have hshown := (shown_json order a).sorted
  have hshown' := (shown_json order' b).sorted
  rw [hsame] at hshown
  exact hshown.inj hshown' hunits hunits'

/-- `ScalarUnits .empty`. -/
theorem scalarUnits_empty : ScalarUnits .empty := by
  intro key field units h
  cases h

/-- `a.ScalarUnits` gives `(a.assign key field value).ScalarUnits`, if the units of `value` are
scalar values. -/
theorem ScalarUnits.assign {a : Assignments} (h : a.ScalarUnits) {value : BufferValue}
    (hvalue : ∀ units, value = .wideString units → ∀ u ∈ units, IsScalar u) (key field : String) :
    (a.assign key field value).ScalarUnits := by
  intro key' field' units hunits
  rw [value?_assign] at hunits
  split at hunits
  · exact hvalue units (Option.some.inj hunits)
  · exact h key' field' units hunits

/-- Two values that are set in either order are written with the keys in order and in reverse, with
a quote and a line feed in one key and nothing in another: the files differ, and tell the same
assignments. A unit that is no scalar value is written as U+FFFD is, so different assignments have
one file there. -/
theorem file_shows_scalar :
    let s := BufferValue.wideString [97, 0xE9]
    let l := BufferValue.sizeWord (-9)
    let a := (assign .empty "\"\n" "" s).assign "l" "size" l
    let b := (assign .empty "l" "size" l).assign "\"\n" "" s
    let lossy (u : UInt32) := assign .empty "s" "value" (.wideString [u])
    let lines := ["\x7b", "  \"\\\"\\n\": \x7b", "    \"\": \x7b",
      "      \"wide_string\": \"a\u00e9\"", "    \x7d", "  \x7d,", "  \"l\": \x7b",
      "    \"size\": \x7b", "      \"size_word\": -9", "    \x7d", "  \x7d", "\x7d"]
    a.file .byKey = Utf8.encode (lines.flatMap fun line => line.toList ++ ['\n']) ∧
      b.file .reversed ≠ a.file .byKey ∧ a = b ∧
      (lossy 0xD800).file .byKey = (lossy 0xFFFD).file .byKey ∧ lossy 0xD800 ≠ lossy 0xFFFD := by
  intro s l a b lossy lines
  have hs : ∀ units, s = .wideString units → ∀ u ∈ units, IsScalar u := by
    intro units h
    have hcontent : BufferValue.wideString [97, 0xE9] = .wideString units := h
    cases hcontent
    exact List.forall_mem_cons.2 ⟨by decide, List.forall_mem_singleton.2 (by decide)⟩
  have hl : ∀ units, l = .wideString units → ∀ u ∈ units, IsScalar u := by
    intro units h
    have hcontent : BufferValue.sizeWord (-9) = .wideString units := h
    cases hcontent
  have hunits : a.ScalarUnits := (scalarUnits_empty.assign hs _ _).assign hl _ _
  have hunits' : b.ScalarUnits := (scalarUnits_empty.assign hl _ _).assign hs _ _
  obtain ⟨json, hjson, -, hequal⟩ := file_shows .byKey a
  have hvalue : json = a.json .byKey :=
    Option.some.inj (hjson.symm.trans (jsonOfFile?_file .byKey a))
  -- the two files show the same members, in orders of their own
  have hsame : json.sorted = (b.json .reversed).sorted := by
    have ha : a.json .byKey = .object [("\"\n", .object [("", s.json)]),
      ("l", .object [("size", l.json)])] := rfl
    have hb : b.json .reversed = .object [("l", .object [("size", l.json)]),
      ("\"\n", .object [("", s.json)])] := rfl
    have hlt : "\"\n" < "l" := by decide
    have hnot : ¬ "l" < "\"\n" := by decide
    simp only [hvalue, ha, hb, Json.sorted, Json.sortedValues_eq_map, List.map_cons, List.map_nil,
      Json.sortMembers, List.foldl_cons, List.foldl_nil, OrderedMap.insertEntry, if_pos hlt,
      if_neg hnot]
  refine ⟨by decide +kernel, by decide +kernel, ?_, by decide +kernel, ?_⟩
  · exact hequal .reversed b _ (jsonOfFile?_file .reversed b) hunits hunits' hsame
  · intro heq
    have hvalue := congrArg (fun a => a.value? "s" "value") heq
    simp only [lossy, value?_assign, and_self, if_true] at hvalue
    cases hvalue

end Assignments

end Concolic

/-! # Finite maps in key order

A map from strings to values is the list of its entries with strictly increasing keys. The order is
part of the type, so a map is determined by its look-ups (`OrderedMap.ext_get?`) and is printed in
one way only. -/

namespace Concolic

/-- A finite map from strings, its entries in increasing order of the keys. -/
structure OrderedMap (α : Type) where
  /-- Keys with their values. -/
  entries : List (String × α)
  /-- Each key is below all later ones, so no key occurs twice. -/
  sorted : entries.Pairwise (fun a b => a.1 < b.1) := by simp

namespace OrderedMap

variable {α : Type}

/-- The map with no entry. -/
def empty : OrderedMap α where
  entries := []

instance : Inhabited (OrderedMap α) := ⟨empty⟩

/-- The value at the first occurrence of `key`. -/
def find? (key : String) : List (String × α) → Option α
  | [] => none
  | (k, v) :: rest => if k = key then some v else find? key rest

/-- The value at `key`. -/
def get? (m : OrderedMap α) (key : String) : Option α := find? key m.entries

/-- The keys in increasing order. -/
def keys (m : OrderedMap α) : List String := m.entries.map (·.1)

/-- The number of keys. -/
def size (m : OrderedMap α) : Nat := m.entries.length

/-- Whether there is no key. -/
def isEmpty (m : OrderedMap α) : Bool := m.entries.isEmpty

/-- `(key, value)` put at its place in increasing entries, in place of one with the same key. -/
def insertEntry (key : String) (value : α) : List (String × α) → List (String × α)
  | [] => [(key, value)]
  | (k, v) :: rest =>
    if key < k then (key, value) :: (k, v) :: rest
    else if k < key then (k, v) :: insertEntry key value rest
    else (key, value) :: rest

/-- If neither `a < b` nor `b < a`, then `a = b`. -/
theorem eq_of_not_lt {a b : String} (hab : ¬ a < b) (hba : ¬ b < a) : a = b :=
  String.le_antisymm (String.not_lt.1 hba) (String.not_lt.1 hab)

/-- `insertEntry key value entries` has no keys but `key` and those of `entries`. -/
theorem mem_insertEntry {key : String} {value : α} {entries : List (String × α)}
    {e : String × α} (h : e ∈ insertEntry key value entries) : e.1 = key ∨ e ∈ entries := by
  induction entries with
  | nil =>
    simp only [insertEntry, List.mem_singleton] at h
    exact .inl (h ▸ rfl)
  | cons head rest ih =>
    obtain ⟨k, v⟩ := head
    simp only [insertEntry] at h
    split at h
    · -- before the head, behind it, or in its place
      rcases List.mem_cons.1 h with rfl | h
      · exact .inl rfl
      · exact .inr h
    · split at h
      · rcases List.mem_cons.1 h with rfl | h
        · exact .inr List.mem_cons_self
        · exact (ih h).imp_right (List.mem_cons_of_mem _)
      · rcases List.mem_cons.1 h with rfl | h
        · exact .inl rfl
        · exact .inr (List.mem_cons_of_mem _ h)

/-- `insertEntry` keeps the keys increasing. -/
theorem sorted_insertEntry {key : String} {value : α} {entries : List (String × α)}
    (h : entries.Pairwise (fun a b => a.1 < b.1)) :
    (insertEntry key value entries).Pairwise (fun a b => a.1 < b.1) := by
  induction entries with
  | nil => simp [insertEntry]
  | cons head rest ih =>
    obtain ⟨k, v⟩ := head
    obtain ⟨hk, hrest⟩ := List.pairwise_cons.1 h
    simp only [insertEntry]
    split
    · rename_i hlt
      -- before the head, and so before all entries behind it
      refine List.pairwise_cons.2 ⟨?_, h⟩
      intro e he
      rcases List.mem_cons.1 he with rfl | he
      · exact hlt
      · exact String.lt_trans hlt (hk e he)
    · split
      · rename_i hlt
        -- behind the head, which is less than `key` and than all other entries
        refine List.pairwise_cons.2 ⟨?_, ih hrest⟩
        intro e he
        rcases mem_insertEntry he with he | he
        · exact he ▸ hlt
        · exact hk e he
      · rename_i hkey hkey'
        -- neither before nor behind: the value at the head is replaced
        have : key = k := eq_of_not_lt hkey hkey'
        exact List.pairwise_cons.2 ⟨this ▸ hk, hrest⟩

/-- `m` with `value` put at `key`. -/
def insert (m : OrderedMap α) (key : String) (value : α) : OrderedMap α where
  entries := insertEntry key value m.entries
  sorted := sorted_insertEntry m.sorted

/-- The map that holds the last value given for each key. -/
def ofList (entries : List (String × α)) : OrderedMap α :=
  entries.foldl (fun m e => m.insert e.1 e.2) empty

/-! ## Look-ups -/

@[simp] theorem get?_empty (key : String) : (empty : OrderedMap α).get? key = none := rfl

/-- A key below all keys of `entries` is not found: `find? key entries = none`. -/
private theorem find?_eq_none_of_lt {key : String} {entries : List (String × α)}
    (h : ∀ e ∈ entries, key < e.1) : find? key entries = none := by
  induction entries with
  | nil => rfl
  | cons head rest ih =>
    obtain ⟨k, v⟩ := head
    have hne : k ≠ key := fun hk => String.lt_irrefl key (by simpa [hk] using h (k, v) (by simp))
    simp only [find?, hne, if_false]
    exact ih fun e he => h e (List.mem_cons_of_mem _ he)

private theorem find?_insertEntry (key key' : String) (value : α) (entries : List (String × α)) :
    find? key' (insertEntry key value entries)
      = if key = key' then some value else find? key' entries := by
  induction entries with
  | nil => rfl
  | cons head rest ih =>
    obtain ⟨k, v⟩ := head
    simp only [insertEntry]
    split
    · rfl
    · rename_i hkey
      split
      · rename_i hlt
        simp only [find?, ih]
        by_cases hk : k = key'
        · -- the head is found first, and its key is not the one that is inserted behind it
          have : key ≠ key' := fun h => String.lt_irrefl key (by simp [hk, h] at hlt)
          simp [hk, this]
        · simp [hk]
      · rename_i hkey'
        have hk : key = k := eq_of_not_lt hkey hkey'
        by_cases h : k = key' <;> simp [find?, hk, h]

/-- `(m.insert key value).get? key = some value`, and every other key keeps its value. -/
theorem get?_insert (m : OrderedMap α) (key key' : String) (value : α) :
    (m.insert key value).get? key' = if key = key' then some value else m.get? key' :=
  find?_insertEntry key key' value m.entries

/-- If `(key, value) ∈ m.entries`, then `m.get? key = some value`. -/
theorem get?_of_mem {m : OrderedMap α} {key : String} {value : α}
    (h : (key, value) ∈ m.entries) : m.get? key = some value := by
  obtain ⟨entries, sorted⟩ := m
  simp only [get?] at h ⊢
  induction entries with
  | nil => simp at h
  | cons head rest ih =>
    obtain ⟨k, v⟩ := head
    obtain ⟨hk, hrest⟩ := List.pairwise_cons.1 sorted
    rcases List.mem_cons.1 h with heq | h
    · simp only [Prod.mk.injEq] at heq
      simp [find?, heq.1, heq.2]
    · have hne : k ≠ key := fun heq => String.lt_irrefl key (by simpa [heq] using hk _ h)
      simp only [find?, hne, if_false]
      exact ih hrest h

/-- If `m.get? key = some value`, then `(key, value) ∈ m.entries`. -/
theorem mem_of_get? {m : OrderedMap α} {key : String} {value : α}
    (h : m.get? key = some value) : (key, value) ∈ m.entries := by
  obtain ⟨entries, sorted⟩ := m
  simp only [get?] at h ⊢
  clear sorted
  induction entries with
  | nil => simp [find?] at h
  | cons head rest ih =>
    obtain ⟨k, v⟩ := head
    simp only [find?] at h
    split at h
    · rename_i hk
      simp only [Option.some.injEq] at h
      simp [hk, h]
    · exact List.mem_cons_of_mem _ (ih h)

/-- `(key, value) ∈ m.entries` iff `m.get? key = some value`. -/
theorem mem_entries_iff {m : OrderedMap α} {key : String} {value : α} :
    (key, value) ∈ m.entries ↔ m.get? key = some value :=
  ⟨get?_of_mem, mem_of_get?⟩

/-- `key ∈ m.keys` iff `m.get? key` is some value. -/
theorem mem_keys_iff {m : OrderedMap α} {key : String} :
    key ∈ m.keys ↔ (m.get? key).isSome := by
  simp only [keys, List.mem_map, Prod.exists, exists_and_right, exists_eq_right,
    Option.isSome_iff_exists, mem_entries_iff]

/-- No key occurs twice in `m.keys`. -/
theorem nodup_keys (m : OrderedMap α) : m.keys.Nodup := by
  rw [keys, List.Nodup, List.pairwise_map]
  refine m.sorted.imp fun hlt heq => ?_
  rw [heq] at hlt
  exact String.lt_irrefl _ hlt

/-- Maps with the same `get?` are equal. -/
theorem ext_get? {m m' : OrderedMap α} (h : ∀ key, m.get? key = m'.get? key) : m = m' := by
  obtain ⟨entries, sorted⟩ := m
  obtain ⟨entries', sorted'⟩ := m'
  simp only [get?] at h
  suffices entries = entries' by subst this; rfl
  induction entries generalizing entries' with
  | nil =>
    cases entries' with
    | nil => rfl
    | cons head rest => simpa [find?] using h head.1
  | cons head rest ih =>
    obtain ⟨k, v⟩ := head
    obtain ⟨hk, hrest⟩ := List.pairwise_cons.1 sorted
    cases entries' with
    | nil => simpa [find?] using h k
    | cons head' rest' =>
      obtain ⟨k', v'⟩ := head'
      obtain ⟨hk', hrest'⟩ := List.pairwise_cons.1 sorted'
      -- the lesser of two heads would have a value in one map alone, since all other keys there are
      -- greater
      have hkk : k = k' := by
        apply eq_of_not_lt
        · intro hlt
          have hne : k' ≠ k := fun heq => String.lt_irrefl k (by simp [heq] at hlt)
          have := h k
          simp only [find?, if_true, hne, if_false,
            find?_eq_none_of_lt fun e he => String.lt_trans hlt (hk' e he)] at this
          simp at this
        · intro hlt
          have hne : k ≠ k' := fun heq => String.lt_irrefl k (by simp [heq] at hlt)
          have := h k'
          simp only [find?, if_true, hne, if_false,
            find?_eq_none_of_lt fun e he => String.lt_trans hlt (hk e he)] at this
          simp at this
      subst hkk
      have hv : v = v' := by simpa [find?] using h k
      subst hv
      rw [ih hrest rest' hrest' fun key => ?_]
      by_cases hkey : k = key
      · subst hkey
        rw [find?_eq_none_of_lt hk, find?_eq_none_of_lt hk']
      · simpa [find?, hkey] using h key

end OrderedMap
end Concolic

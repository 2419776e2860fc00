import Concolic.Proofs.Equality

/-! # Tables as finite maps

A table finds the first entry with an equal key. Equality of keys leaves out those that hold what is
no number, and it tells the zeros not apart; still no two entries have equal keys, however the table
was filled (`Dict.Consistent`), and so setting a key changes what is found at the keys that are
equal to it and at no others (`Dict.get?_insert`). -/

namespace Concolic
namespace Dict

/-- The keys in the order of their entries. -/
def keys (d : Dict) : List Value := d.entries.map (·.1)

/-- `d` after `entries` were inserted in order. -/
def insertAll (d : Dict) (entries : List (Value × Value)) : Dict :=
  entries.foldl (fun d e => (d.insert e.1 e.2).2) d

/-! ## The first entry with a key -/

section Entries

variable {key key' value : Value} {entries : List (Value × Value)}

/-- `lookup key entries = none` iff no entry has a key equal to `key`. -/
theorem lookup_eq_none_iff : lookup key entries = none ↔ ∀ e ∈ entries, e.1.equal key = false := by
  induction entries with
  | nil => simp [lookup]
  | cons e entries ih =>
    rw [lookup]
    cases hkey : e.1.equal key <;> simp [hkey, ih]

/-- `lookup key entries = lookup key' entries` if `key.equal key'`. -/
theorem lookup_congr (h : key.equal key') (entries : List (Value × Value)) :
    lookup key entries = lookup key' entries := by
  induction entries with
  | nil => rfl
  | cons e entries ih => rw [lookup, lookup, ih, Value.equal_congr h e.1]

/-- `lookup key (entries ++ [e])` finds `e` if nothing of `entries` is found. -/
theorem lookup_append_singleton (e : Value × Value) :
    lookup key (entries ++ [e])
      = (lookup key entries).or (if e.1.equal key then some e.2 else none) := by
  induction entries with
  | nil => rfl
  | cons e' entries ih =>
    rw [List.cons_append, lookup, lookup, ih]
    cases e'.1.equal key <;> rfl

/-- `replace key value entries` has the keys of `entries`. -/
theorem map_fst_replace (key value : Value) (entries : List (Value × Value)) :
    (replace key value entries).map (·.1) = entries.map (·.1) := by
  induction entries with
  | nil => rfl
  | cons e entries ih =>
    rw [replace]
    split
    · rfl
    · rw [List.map_cons, List.map_cons, ih]

/-- After `replace key value` the new value is at all keys equal to `key`, if something was
there. -/
theorem lookup_replace_of_equal (h : key.equal key') (hfound : (lookup key entries).isSome) :
    lookup key' (replace key value entries) = some value := by
  rw [← lookup_congr h]
  induction entries with
  | nil => cases hfound
  | cons e entries ih =>
    rw [lookup] at hfound
    rw [replace]
    by_cases hkey : e.1.equal key
    · simp [hkey, lookup]
    · rw [if_neg hkey] at hfound
      simp [hkey, lookup, ih hfound]

/-- `replace key value` changes nothing at keys that do not equal `key`. -/
theorem lookup_replace_of_not_equal (h : key.equal key' = false) :
    lookup key' (replace key value entries) = lookup key' entries := by
  induction entries with
  | nil => rfl
  | cons e entries ih =>
    rw [replace]
    by_cases hkey : e.1.equal key
    · -- the entry has a key equal to the other, so it is not found at this one
      have hother : e.1.equal key' = false := by
        rw [Value.equal_comm, Value.equal_congr hkey, Value.equal_comm, h]
      simp [hkey, lookup, hother]
    · simp [hkey, lookup, ih]

end Entries

/-! ## Insertion -/

section Insertion

variable {d : Dict} {key value : Value}

/-- `(d.insert key value).1 = d.get? key`. -/
theorem insert_fst (d : Dict) (key value : Value) : (d.insert key value).1 = d.get? key := by
  cases h : d.get? key with
  | some old => rw [insert_of_some h]
  | none => rw [insert_of_none h]

/-- `d.insert key value` keeps the keys, and adds `key` at the end if nothing was at it. -/
theorem keys_insert (d : Dict) (key value : Value) :
    (d.insert key value).2.keys = d.keys ++ if (d.get? key).isSome then [] else [key] := by
  cases h : d.get? key with
  | some old =>
    rw [insert_of_some h, keys, map_fst_replace]
    exact (List.append_nil _).symm
  | none =>
    rw [insert_of_none h, keys, List.map_append]
    rfl

/-- After `d.insert key value` the value is at all keys equal to `key`, and all others have what
they had. -/
theorem get?_insert (d : Dict) (key value key' : Value) :
    (d.insert key value).2.get? key' = if key.equal key' then some value else d.get? key' := by
  cases h : d.get? key with
  | some old =>
    rw [insert_of_some h, get?]
    split
    · rename_i hequal
      exact lookup_replace_of_equal hequal (by rw [← get?, h]; rfl)
    · rename_i hequal
      exact lookup_replace_of_not_equal (Bool.eq_false_iff.2 hequal)
  | none =>
    rw [insert_of_none h, get?, lookup_append_singleton]
    split
    · rename_i hequal
      -- nothing is found at the keys equal to one at which nothing is found
      rw [← lookup_congr hequal, ← get?, h]
      rfl
    · exact Option.or_none

end Insertion

/-! ## Consistent tables -/

/-- The size word of `d` is its number of entries, and no two entries have equal keys. -/
structure Consistent (d : Dict) : Prop where
  /-- The size word is the number of entries. -/
  counted : d.used = sizeWordOf d.entries.length
  /-- No key equals a later one. -/
  distinct : d.keys.Pairwise fun k l => k.equal l = false

namespace Consistent

variable {d : Dict}

/-- The table without entries is `Consistent`. -/
theorem empty : Consistent {} := ⟨rfl, .nil⟩

/-- `d.Consistent` gives `(d.insert key value).2.Consistent`: a key is added only if no entry has an
equal one. -/
theorem insert (h : d.Consistent) (key value : Value) : (d.insert key value).2.Consistent := by
  refine ⟨(counted_insert_iff d key value).2 (.inr h.counted), ?_⟩
  rw [keys_insert]
  cases hget : d.get? key with
  | some old => simpa using h.distinct
  | none =>
    have hnew : ∀ k ∈ d.keys, k.equal key = false := by
      simpa [keys] using lookup_eq_none_iff.1 hget
    refine List.pairwise_append.2 ⟨h.distinct, List.pairwise_singleton _ _, ?_⟩
    intro k hk l hl
    rw [List.mem_singleton.1 hl]
    exact hnew k hk

/-- `d.Consistent` gives `(d.insertAll entries).Consistent`. -/
theorem insertAll (h : d.Consistent) (entries : List (Value × Value)) :
    (d.insertAll entries).Consistent :=
  List.foldlRecOn entries _ h fun _ hd e _ => hd.insert e.1 e.2

/-- `(ofEntries entries).Consistent`. -/
theorem ofEntries (entries : List (Value × Value)) : (ofEntries entries).Consistent :=
  empty.insertAll entries

/-- Entries at different places of a `Consistent` table have keys that are not equal. -/
theorem not_equal (h : d.Consistent) {i j : Nat} {e e' : Value × Value}
    (hi : d.entries[i]? = some e) (hj : d.entries[j]? = some e') (hne : i ≠ j) :
    e.1.equal e'.1 = false := by
  have hkeys {i j : Nat} {e e' : Value × Value} (hi : d.entries[i]? = some e)
      (hj : d.entries[j]? = some e') (hlt : i < j) : e.1.equal e'.1 = false := by
    obtain ⟨hi', rfl⟩ := List.getElem?_eq_some_iff.1 hi
    obtain ⟨hj', rfl⟩ := List.getElem?_eq_some_iff.1 hj
    simpa [keys] using List.pairwise_iff_getElem.1 h.distinct i j (by simpa [keys] using hi')
      (by simpa [keys] using hj') hlt
  rcases Nat.lt_or_gt_of_ne hne with hlt | hlt
  · exact hkeys hi hj hlt
  · rw [Value.equal_comm]
    exact hkeys hj hi hlt

end Consistent

/-- If no two keys are equal, `replace key value` sets the value of the entry with an equal key and
leaves all others. -/
theorem replace_eq_map {key value : Value} {entries : List (Value × Value)}
    (h : (entries.map (·.1)).Pairwise fun k l => k.equal l = false) :
    replace key value entries
      = entries.map fun e => (e.1, if e.1.equal key then value else e.2) := by
  induction entries with
  | nil => rfl
  | cons e entries ih =>
    obtain ⟨hne, hrest⟩ := List.pairwise_cons.1 h
    rw [replace, List.map_cons]
    by_cases hkey : e.1.equal key
    · -- no later entry has an equal key, so the others keep their values
      have hlater (e' : Value × Value) (he' : e' ∈ entries) : e'.1.equal key = false := by
        rw [← Value.equal_congr hkey, Value.equal_comm]
        exact hne e'.1 (List.mem_map_of_mem he')
      have hsame : (entries.map fun e => (e.1, if e.1.equal key then value else e.2)) = entries :=
        (List.map_congr_left fun e' he' => by simp [hlater e' he']).trans (List.map_id entries)
      rw [hsame, if_pos hkey, if_pos hkey]
    · rw [if_neg hkey, if_neg hkey, ih hrest]

/-- After `d.insert key value` every entry of a `Consistent` `d` is at its place with its key, and
with its value unless its key equals `key`. -/
theorem getElem?_insert {d : Dict} (h : d.Consistent) (key value : Value) {i : Nat}
    {e : Value × Value} (hi : d.entries[i]? = some e) :
    (d.insert key value).2.entries[i]? = some (e.1, if e.1.equal key then value else e.2) := by
  cases hget : d.get? key with
  | some old => rw [insert_of_some hget, replace_eq_map h.distinct, List.getElem?_map, hi]; rfl
  | none =>
    have hlt : i < d.entries.length := (List.getElem?_eq_some_iff.1 hi).1
    have hnew : e.1.equal key = false := lookup_eq_none_iff.1 hget e (List.mem_of_getElem? hi)
    rw [insert_of_none hget, List.getElem?_append_left hlt, hi, hnew]
    rfl

/-- `d.keys` is at the front of the keys of `d.insertAll entries`. -/
theorem keys_prefix_insertAll (d : Dict) (entries : List (Value × Value)) :
    d.keys <+: (d.insertAll entries).keys :=
  List.foldlRecOn (motive := fun d' : Dict => d.keys <+: d'.keys) entries _ List.prefix_rfl
    fun d' hd' e _ => by
      rw [keys_insert]
      exact hd'.trans (List.prefix_append _ _)

/-- `d.get? key = none` if `key.HoldsNaN`. -/
theorem get?_of_holdsNaN {key : Value} (h : key.HoldsNaN) (d : Dict) : d.get? key = none := by
  apply lookup_eq_none_iff.2
  intro e _
  rw [← Bool.not_eq_true]
  exact fun hequal => (Value.equal_self_iff key).1 (Value.equal_self_of_equal hequal) h

/-! ## Finite maps -/

/-- **A table is a finite map with its number of entries as its size word.** However it was filled,
no two entries have equal keys, and further insertions keep the keys in their order. `d.insert`
gives what was found at the key before; afterwards the new value is found at exactly the keys that
equal the inserted one, and what was found before at all others. Every earlier entry stays at its
place with its key, and an entry is added behind them exactly if nothing was found. A key with
`HoldsNaN` does not equal itself: it is always added and never found. -/
theorem ofEntries_finite_map (entries inserts : List (Value × Value)) :
    let d := (ofEntries entries).insertAll inserts
    (∀ (i j : Nat) (e e' : Value × Value), d.entries[i]? = some e → d.entries[j]? = some e' →
      i ≠ j → e.1.equal e'.1 = false) ∧
    (d.used = sizeWordOf d.entries.length ∧
      (d.entries.length < lengthLimit → d.used.toInt = d.entries.length)) ∧
    (ofEntries entries).keys <+: d.keys ∧
    ∀ key value,
      let d' := (d.insert key value).2
      (d.insert key value).1 = d.get? key ∧
      (∀ key', d'.get? key' = if key.equal key' then some value else d.get? key') ∧
      (∀ (i : Nat) (e : Value × Value), d.entries[i]? = some e →
        d'.entries[i]? = some (e.1, if e.1.equal key then value else e.2)) ∧
      d'.keys = d.keys ++ (if (d.get? key).isSome then [] else [key]) ∧
      (key.equal key = false ↔ key.HoldsNaN) ∧
      (key.HoldsNaN →
        d'.entries = d.entries ++ [(key, value)] ∧ d.get? key = none ∧ d'.get? key = none) := by
  intro d
  -- every clause is read off the invariant of tables that are made of entries
  have hd : d.Consistent := (Consistent.ofEntries entries).insertAll inserts
  refine ⟨fun i j e e' => hd.not_equal, ⟨hd.counted, fun hroom => ?_⟩,
    keys_prefix_insertAll _ inserts, fun key value => ⟨insert_fst d key value,
      get?_insert d key value, fun i e => getElem?_insert hd key value, keys_insert d key value,
      ?_, fun hnan => ?_⟩⟩
  · rw [hd.counted]
    exact toInt_sizeWordOf hroom
  · rw [← Bool.not_eq_true, Value.equal_self_iff, Classical.not_not]
  · rw [insert_of_none (get?_of_holdsNaN hnan d)]
    exact ⟨rfl, get?_of_holdsNaN hnan d, get?_of_holdsNaN hnan _⟩

/-- The zeros are one key, and each tuple with what is no number is a key of its own that is not
found. -/
theorem ofEntries_finite_map_zeros :
    let zero : Value := .float ⟨0⟩
    let negativeZero : Value := .float ⟨0x8000000000000000⟩
    let key : Value := .tupleOf [.int 7, .float (.nan false)]
    let d := (ofEntries [(zero, .int 1), (key, .int 2)]).insertAll
      [(negativeZero, .int 3), (key, .int 4)]
    d.entries = [(zero, .int 3), (key, .int 2), (key, .int 4)] ∧ d.used.toInt = 3 ∧
      zero.equal key = false ∧ d.get? zero = some (.int 3) ∧
      (d.insert negativeZero (.int 5)).2.entries[0]? = some (zero, .int 5) ∧
      d.get? key = none ∧ (d.insert key (.int 5)).2.entries = d.entries ++ [(key, .int 5)] := by
  intro zero negativeZero key d
  obtain ⟨hdistinct, ⟨-, hused⟩, -, hinsert⟩ := ofEntries_finite_map
    [(zero, .int 1), (key, .int 2)] [(negativeZero, .int 3), (key, .int 4)]
  have hentries : d.entries = [(zero, .int 3), (key, .int 2), (key, .int 4)] := rfl
  -- the key is not equal to itself, so that it is added each time
  have hnan : key.HoldsNaN :=
    Value.holdsNaN_tuple_iff.2 ⟨.float (.nan false), by simp, Value.holdsNaN_float_iff.2 rfl⟩
  obtain ⟨-, -, hplace, -⟩ := hinsert negativeZero (.int 5)
  obtain ⟨-, -, -, -, -, hadded⟩ := hinsert key (.int 5)
  obtain ⟨hafter, hnone, -⟩ := hadded hnan
  exact ⟨hentries, hused (by decide),
    hdistinct 0 1 (zero, .int 3) (key, .int 2) rfl rfl (by decide), rfl,
    hplace 0 (zero, .int 3) rfl, hnone, hafter⟩

end Dict
end Concolic

import Concolic.Host.Containers

/-! # Size words of values

A value counts its elements if its size word is their number, and so for every value in it. Values
that are made by the constructors and changed by appending to lists and inserting in tables only
(`Value.Built`) count their elements, whatever they hold (`Value.Built.counted`): a constructor and
an addition set the word from the elements, and a replacement keeps both. -/

namespace Concolic

/-- `2 ^ 63`, the number that no length in memory reaches. -/
def lengthLimit : Nat := 0x8000000000000000

namespace Value

/-! ## Parts and counts -/

/-- `w` occurs in a value: it is that value, or it occurs in an item, a key or a value of it. -/
inductive Part (w : Value) : Value → Prop where
  /-- A value occurs in itself. -/
  | self : Part w w
  /-- What occurs in an item occurs in the list. -/
  | item {size : Int64} {items : List Value} {v : Value} (hv : v ∈ items) (h : Part w v) :
      Part w (.list size items)
  /-- What occurs in a key occurs in the table. -/
  | key {used : Int64} {entries : List (Value × Value)} {e : Value × Value} (he : e ∈ entries)
      (h : Part w e.1) : Part w (.dict used entries)
  /-- What occurs in the value of a key occurs in the table. -/
  | value {used : Int64} {entries : List (Value × Value)} {e : Value × Value} (he : e ∈ entries)
      (h : Part w e.2) : Part w (.dict used entries)
  /-- What occurs in an item occurs in the tuple. -/
  | component {size : Int64} {items : List Value} {v : Value} (hv : v ∈ items) (h : Part w v) :
      Part w (.tuple size items)

/-- The number of bytes, units, items or entries of an object with a size. -/
def count? : Value → Option Nat
  | none => Option.none
  | int _ => Option.none
  | float _ => Option.none
  | byteArray _ => Option.none
  | str _ bytes => some bytes.length
  | unicode _ units => some units.length
  | list _ items => some items.length
  | dict _ entries => some entries.length
  | tuple _ items => some items.length

/-- Every object `w` in `v` has `sizeWordOf n` as its size word, for its number of elements `n`. -/
def Counted (v : Value) : Prop :=
  ∀ w : Value, w.Part v → ∀ n, w.count? = some n → w.size? = some (sizeWordOf n)

/-- Every object `w` in `v` has its number of elements as its size word. The numbers are those that
memory can hold, below `lengthLimit`. -/
def Exact (v : Value) : Prop :=
  ∀ w : Value, w.Part v → ∀ n : Nat, w.count? = some n → n < lengthLimit →
    ∃ word : Int64, w.size? = some word ∧ word.toInt = n

end Value

/-- `(sizeWordOf n).toInt = n` for `n < lengthLimit`. -/
theorem toInt_sizeWordOf {n : Nat} (h : n < lengthLimit) : (sizeWordOf n).toInt = n := by
  rw [sizeWordOf]
  exact Int64.toInt_ofNat_of_lt h

/-- `word = sizeWordOf n` iff `word.toInt = n`, for `n < lengthLimit`. -/
theorem eq_sizeWordOf_iff {word : Int64} {n : Nat} (h : n < lengthLimit) :
    word = sizeWordOf n ↔ word.toInt = n := by
  rw [← Int64.toInt_inj, toInt_sizeWordOf h]

namespace Value

/-- `v.Counted` gives `v.Exact`. -/
theorem Counted.exact {v : Value} (h : v.Counted) : v.Exact :=
  fun w hw n hn hroom => ⟨sizeWordOf n, h w hw n hn, toInt_sizeWordOf hroom⟩

/-- `v.Counted` and `v.count? = some n` give `v.size? = some (sizeWordOf n)`. -/
theorem Counted.size?_eq {v : Value} (h : v.Counted) {n : Nat} (hn : v.count? = some n) :
    v.size? = some (sizeWordOf n) := h v .self n hn

/-- A value with nothing inside is `Counted` if its own word is right. -/
theorem Counted.of_flat {v : Value} (hflat : ∀ w, w.Part v → w = v)
    (h : ∀ n, v.count? = some n → v.size? = some (sizeWordOf n)) : v.Counted := by
  intro w hw
  rw [hflat w hw]
  exact h

/-- `Value.ofItems items` is `Counted` if all of `items` are. -/
theorem Counted.ofItems {items : List Value} (h : ∀ v ∈ items, v.Counted) :
    (Value.ofItems items).Counted := by
  intro w hw n hn
  cases hw with
  | self =>
    cases hn
    rfl
  | item hv hw => exact h _ hv w hw n hn

/-- `Value.tupleOf items` is `Counted` if all of `items` are. -/
theorem Counted.tupleOf {items : List Value} (h : ∀ v ∈ items, v.Counted) :
    (Value.tupleOf items).Counted := by
  intro w hw n hn
  cases hw with
  | self =>
    cases hn
    rfl
  | component hv hw => exact h _ hv w hw n hn

/-- The items of a `Counted` list are `Counted`. -/
theorem Counted.of_mem_list {size : Int64} {items : List Value}
    (h : (Value.list size items).Counted) {v : Value} (hv : v ∈ items) : v.Counted :=
  fun w hw n hn => h w (.item hv hw) n hn

/-- `Value.push items item` is `Counted` if the list and `item` are. -/
theorem Counted.push {size : Int64} {items : List Value} (h : (Value.list size items).Counted)
    {item : Value} (hitem : item.Counted) : (Value.push items item).Counted := by
  apply Counted.ofItems
  intro v hv
  rcases List.mem_append.1 hv with hv | hv
  · exact h.of_mem_list hv
  · rw [List.mem_singleton.1 hv]
    exact hitem

end Value

/-! ## Tables -/

namespace Dict

/-- `replace key value entries` has as many entries as `entries`. -/
@[simp] theorem length_replace (key value : Value) (entries : List (Value × Value)) :
    (replace key value entries).length = entries.length := by
  induction entries with
  | nil => rfl
  | cons e entries ih =>
    rw [replace]
    split
    · rfl
    · rw [List.length_cons, List.length_cons, ih]

/-- Every key of `replace key value entries` is one of `entries`, and every value is `value` or one
of `entries`. -/
theorem mem_replace {key value : Value} {entries : List (Value × Value)} {e : Value × Value}
    (h : e ∈ replace key value entries) :
    ∃ e' ∈ entries, e.1 = e'.1 ∧ (e.2 = value ∨ e.2 = e'.2) := by
  induction entries with
  | nil => cases h
  | cons e' entries ih =>
    rw [replace] at h
    split at h
    · rcases List.mem_cons.1 h with rfl | h
      · exact ⟨e', List.mem_cons_self, rfl, .inl rfl⟩
      · exact ⟨e, List.mem_cons_of_mem _ h, rfl, .inr rfl⟩
    · rcases List.mem_cons.1 h with rfl | h
      · exact ⟨e', List.mem_cons_self, rfl, .inr rfl⟩
      · obtain ⟨e'', he, hkey, hvalue⟩ := ih h
        exact ⟨e'', List.mem_cons_of_mem _ he, hkey, hvalue⟩

section Insertion

variable {d : Dict} {key old : Value}

/-- If something is at `key`, `d.insert key value` replaces its value. -/
theorem insert_of_some (h : d.get? key = some old) (value : Value) :
    d.insert key value = (some old, { d with entries := replace key value d.entries }) := by
  rw [insert, h]

/-- If nothing is at `key`, `d.insert key value` adds `(key, value)` and counts the entries anew. -/
theorem insert_of_none (h : d.get? key = none) (value : Value) :
    d.insert key value
      = (none, ⟨sizeWordOf (d.entries.length + 1), d.entries ++ [(key, value)]⟩) := by
  rw [insert, h]

/-- Every key and every value after `d.insert key value` is the inserted one or one of `d`. -/
theorem mem_insert {value : Value} {e : Value × Value} (h : e ∈ (d.insert key value).2.entries) :
    (e.1 = key ∨ ∃ e' ∈ d.entries, e.1 = e'.1) ∧ (e.2 = value ∨ ∃ e' ∈ d.entries, e.2 = e'.2) := by
  cases hget : d.get? key with
  | some old =>
    rw [insert_of_some hget] at h
    obtain ⟨e', he, hkey, hvalue⟩ := mem_replace h
    exact ⟨.inr ⟨e', he, hkey⟩, hvalue.imp id fun hvalue => ⟨e', he, hvalue⟩⟩
  | none =>
    rw [insert_of_none hget] at h
    rcases List.mem_append.1 h with h | h
    · exact ⟨.inr ⟨e, h, rfl⟩, .inr ⟨e, h, rfl⟩⟩
    · rw [List.mem_singleton.1 h]
      exact ⟨.inl rfl, .inl rfl⟩

/-- The size word of `d` is that of its number of entries. -/
def Counted (d : Dict) : Prop := d.used = sizeWordOf d.entries.length

/-- If `d.get? key = none`, then `(d.insert key value).2.Counted`. -/
theorem counted_insert_of_none (h : d.get? key = none) (value : Value) :
    (d.insert key value).2.Counted := by
  rw [insert_of_none h, Counted, List.length_append]
  rfl

/-- If something is at `key`, `d.insert key value` keeps `d.used`. -/
theorem used_insert_of_some (h : d.get? key = some old) (value : Value) :
    (d.insert key value).2.used = d.used := by
  rw [insert_of_some h]

/-- If something is at `key`, `d.insert key value` keeps the number of entries. -/
theorem length_insert_of_some (h : d.get? key = some old) (value : Value) :
    (d.insert key value).2.entries.length = d.entries.length := by
  rw [insert_of_some h, length_replace]

/-- `(d.insert key value).2.Counted` iff `d.get? key = none` or `d.Counted`. -/
theorem counted_insert_iff (d : Dict) (key value : Value) :
    (d.insert key value).2.Counted ↔ d.get? key = none ∨ d.Counted := by
  cases h : d.get? key with
  | none => exact iff_of_true (counted_insert_of_none h value) (.inl rfl)
  | some old =>
    rw [Counted, used_insert_of_some h, length_insert_of_some h, ← Counted]
    exact (or_iff_right (by simp)).symm

end Insertion
end Dict

namespace Value

/-- `d.value.Counted` if `d.Counted` and all keys and values are. -/
theorem Counted.dict {d : Dict} (hused : d.Counted)
    (hkeys : ∀ e ∈ d.entries, e.1.Counted) (hvalues : ∀ e ∈ d.entries, e.2.Counted) :
    d.value.Counted := by
  intro w hw n hn
  cases hw with
  | self =>
    cases hn
    exact congrArg some hused
  | key he hw => exact hkeys _ he w hw n hn
  | value he hw => exact hvalues _ he w hw n hn

/-- `(d.insert key value).2.value.Counted` if `d.value`, `key` and `value` are. -/
theorem Counted.insert {d : Dict} (h : d.value.Counted) {key value : Value} (hkey : key.Counted)
    (hvalue : value.Counted) : (d.insert key value).2.value.Counted := by
  -- the table is taken apart into its word, its keys and its values
  have hused : d.Counted := Option.some.inj (h.size?_eq rfl)
  have hkeys : ∀ e ∈ d.entries, e.1.Counted := fun e he w hw => h w (.key he hw)
  have hvalues : ∀ e ∈ d.entries, e.2.Counted := fun e he w hw => h w (.value he hw)
  apply Counted.dict ((Dict.counted_insert_iff d key value).2 (.inr hused))
  · intro e he
    rcases (Dict.mem_insert he).1 with heq | ⟨e', he', heq⟩
    · rw [heq]
      exact hkey
    · rw [heq]
      exact hkeys e' he'
  · intro e he
    rcases (Dict.mem_insert he).2 with heq | ⟨e', he', heq⟩
    · rw [heq]
      exact hvalue
    · rw [heq]
      exact hvalues e' he'

/-- `(Dict.ofEntries entries).value.Counted` if all keys and values are. -/
theorem Counted.ofEntries {entries : List (Value × Value)} (hkeys : ∀ e ∈ entries, e.1.Counted)
    (hvalues : ∀ e ∈ entries, e.2.Counted) : (Dict.ofEntries entries).value.Counted := by
  have hempty : (Dict.value {}).Counted :=
    Counted.dict rfl (fun e he => by cases he) (fun e he => by cases he)
  rw [Dict.ofEntries]
  -- the insertions start from a table that counts its elements, empty or not
  generalize ({} : Dict) = d at hempty ⊢
  induction entries generalizing d with
  | nil => exact hempty
  | cons e entries ih =>
    rw [List.foldl_cons]
    apply ih
    · exact fun e he => hkeys e (List.mem_cons_of_mem _ he)
    · exact fun e he => hvalues e (List.mem_cons_of_mem _ he)
    · exact hempty.insert (hkeys e List.mem_cons_self) (hvalues e List.mem_cons_self)

/-! ## Values as they are made -/

/-- Values that the constructors make, and those that appending to lists and inserting in tables
makes of them. -/
inductive Built : Value → Prop where
  /-- No value. -/
  | none : Built .none
  /-- An integer. -/
  | int (n : Int32) : Built (.int n)
  /-- A floating-point number. -/
  | float (x : Binary64) : Built (.float x)
  /-- A byte array. -/
  | byteArray (bytes : List UInt8) : Built (.byteArray bytes)
  /-- A byte string. -/
  | ofBytes (bytes : List UInt8) : Built (.ofBytes bytes)
  /-- A text. -/
  | ofUnits (units : List UInt32) : Built (.ofUnits units)
  /-- A list of such values. -/
  | ofItems {items : List Value} (h : ∀ v ∈ items, Built v) : Built (.ofItems items)
  /-- A tuple of such values. -/
  | tupleOf {items : List Value} (h : ∀ v ∈ items, Built v) : Built (.tupleOf items)
  /-- A table of such keys and values. -/
  | ofEntries {entries : List (Value × Value)} (hkeys : ∀ e ∈ entries, Built e.1)
      (hvalues : ∀ e ∈ entries, Built e.2) : Built (Dict.ofEntries entries).value
  /-- Such a list with such a value appended. -/
  | push {size : Int64} {items : List Value} {item : Value} (h : Built (.list size items))
      (hitem : Built item) : Built (Value.push items item)
  /-- Such a table with such a key set to such a value. -/
  | insert {d : Dict} {key value : Value} (h : Built d.value) (hkey : Built key)
      (hvalue : Built value) : Built (d.insert key value).2.value

/-- `v.Built` gives `v.Counted`. -/
theorem Built.counted {v : Value} (h : v.Built) : v.Counted := by
  induction h with
  | none => exact .of_flat (by rintro w ⟨⟩; rfl) (by rintro n ⟨⟩)
  | int n => exact .of_flat (by rintro w ⟨⟩; rfl) (by rintro n ⟨⟩)
  | float x => exact .of_flat (by rintro w ⟨⟩; rfl) (by rintro n ⟨⟩)
  | byteArray bytes => exact .of_flat (by rintro w ⟨⟩; rfl) (by rintro n ⟨⟩)
  | ofBytes bytes => exact .of_flat (by rintro w ⟨⟩; rfl) (by rintro n ⟨⟩; rfl)
  | ofUnits units => exact .of_flat (by rintro w ⟨⟩; rfl) (by rintro n ⟨⟩; rfl)
  | ofItems _ ih => exact .ofItems ih
  | tupleOf _ ih => exact .tupleOf ih
  | ofEntries _ _ ihKeys ihValues => exact .ofEntries ihKeys ihValues
  | push _ _ ih ihItem => exact ih.push ihItem
  | insert _ _ _ ih ihKey ihValue => exact ih.insert ihKey ihValue

end Value
end Concolic

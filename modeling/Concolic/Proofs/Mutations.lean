import Concolic.Proofs.Steps
import Concolic.Proofs.Tables

/-! # Size words after changes

A marking gives a table the size word that it reads back, and a replay can make that any word.
Appending to a list sets the word to the number of items, whatever it was, and so does a new key for
a table. A new value for a key that the table has leaves the word: after it the word is the number
of entries exactly if it was before (`Dict.counted_insert_iff`). So where a run holds a table with a
wrong word, an earlier step marked a table with the same keys and read the word from a replay
(`Script.composes_traced`). -/

namespace Concolic

/-- `sizeRead replays base word` is spelt by a replay of eight bytes, or is `word`. -/
theorem Marking.sizeRead_cases (replays : Replays) (base : String) (word : Int64) :
    (∃ replay, replays.lookup (BufferName.ofSize base).text = some replay ∧ replay.length = 8 ∧
      LittleEndian.toInt64 replay = sizeRead replays base word) ∨
      word = sizeRead replays base word := by
  by_cases h : ∃ replay, replays.lookup (BufferName.ofSize base).text = some replay ∧
      replay.length = 8
  · obtain ⟨replay, hlookup, hlength⟩ := h
    refine .inl ⟨replay, hlookup, hlength, (sizeRead_of_lookup word ?_).symm⟩
    rw [LittleEndian.ofInt64_toInt64 hlength]
    exact hlookup
  · exact .inr (sizeRead_eq_self fun replay hlookup hlength => h ⟨replay, hlookup, hlength⟩).symm

namespace Dict

/-- If `d.value = d'.value`, then `d = d'`. -/
theorem eq_of_value_eq {d d' : Dict} (h : d.value = d'.value) : d = d' := by
  obtain ⟨hused, hentries⟩ := Value.dict.inj h
  cases d
  cases d'
  cases hused
  cases hentries
  rfl

/-- `d` and `d'` have the same size word and the same keys. -/
structure Alike (d d' : Dict) : Prop where
  /-- The size words are the same. -/
  used : d.used = d'.used
  /-- The keys are the same, in the same order. -/
  keys : d.keys = d'.keys

namespace Alike

variable {d d' d'' : Dict}

/-- `Dict.Alike` is reflexive. -/
theorem refl (d : Dict) : d.Alike d := ⟨rfl, rfl⟩

/-- `Dict.Alike` is transitive. -/
theorem trans (h : d.Alike d') (h' : d'.Alike d'') : d.Alike d'' :=
  ⟨h.used.trans h'.used, h.keys.trans h'.keys⟩

/-- `d.Alike d'` and `d.Counted` give `d'.Counted`. -/
theorem counted (h : d.Alike d') (hd : d.Counted) : d'.Counted := by
  have hlength : d.entries.length = d'.entries.length := by
    simpa [Dict.keys] using congrArg List.length h.keys
  rw [Counted, ← h.used, ← hlength]
  exact hd

/-- If `d.get? key` is some value, `d.Alike (d.insert key value).2`. -/
theorem insert {key old : Value} (h : d.get? key = some old) (value : Value) :
    d.Alike (d.insert key value).2 := by
  refine ⟨(used_insert_of_some h value).symm, ?_⟩
  rw [keys_insert, h]
  exact (List.append_nil _).symm

end Alike
end Dict

/-- If `markSequence` gives `d.value`, it was of a `.dict word d.entries`, and `d.used` is
`sizeRead` of `word`. -/
theorem Value.dict_of_marked {memory : Allocator} {v : Value} {d : Dict} {base : String}
    {max min : Int64} {s s' : Session}
    (hmark : s.markSequence memory v base max min = (.ok (), d.value, s')) :
    ∃ r word, s.engine = .recording r ∧ v = .dict word d.entries ∧
      d.used = Marking.sizeRead r.replays base word := by
  obtain ⟨r, hengine, -, -, hresult, -⟩ := Call.perform_eq_ok (Call.perform_of_markSequence hmark)
  cases v with
  | dict word entries =>
    obtain ⟨hused, hentries⟩ := Value.dict.inj hresult
    exact ⟨r, word, hengine, by rw [hentries], hused⟩
  | _ => cases hresult

namespace Script

/-! ## Where size words come from -/

/-- The step `q` marks a table `Alike` to `d` and reads its size word from a replay. -/
def Performed.Replays (q : Performed) (d : Dict) : Prop :=
  ∃ memory slot name max min, ∃ t : Dict, q.step = .markSequence memory slot name max min ∧
    q.outcome = .marked t.value ∧ t.Alike d ∧
    ∃ r replay, q.before.session.engine = .recording r ∧
      r.replays.lookup (BufferName.ofSize name).text = some replay ∧ replay.length = 8 ∧
      LittleEndian.toInt64 replay = d.used

/-- `q.Replays d` and `d.Alike d'` give `q.Replays d'`. -/
theorem Performed.Replays.of_alike {q : Performed} {d d' : Dict} (h : q.Replays d)
    (halike : d.Alike d') : q.Replays d' := by
  obtain ⟨memory, slot, name, max, min, t, hstep, houtcome, ht, r, replay, hengine, hlookup,
    hlength, hword⟩ := h
  exact ⟨memory, slot, name, max, min, t, hstep, houtcome, ht.trans halike, r, replay, hengine,
    hlookup, hlength, hword.trans halike.used⟩

/-- The step `p` binds no table with a wrong size word. -/
def Performed.BindsCounted (p : Performed) : Prop :=
  ∀ slot, ∀ d : Dict, p.step = .bind slot d.value → d.Counted

/-- `d` is counted, or alike one that a slot of `s` held, or one of the steps `ps` read its word
from a replay. -/
def Origin (s : State) (ps : List Performed) (d : Dict) : Prop :=
  d.Counted ∨ (∃ slot, ∃ t : Dict, s.get? slot = some t.value ∧ t.Alike d) ∨ ∃ q ∈ ps, q.Replays d

/-- `Origin s ps d` and `d.Alike d'` give `Origin s ps d'`. -/
theorem Origin.of_alike {s : State} {ps : List Performed} {d d' : Dict} (h : Origin s ps d)
    (halike : d.Alike d') : Origin s ps d' := by
  rcases h with hcounted | ⟨slot, t, hslot, ht⟩ | ⟨q, hq, hreplays⟩
  · exact .inl (halike.counted hcounted)
  · exact .inr (.inl ⟨slot, t, hslot, ht.trans halike⟩)
  · exact .inr (.inr ⟨q, hq, hreplays.of_alike halike⟩)

/-- `Origin s ps d` gives `Origin s ps' d` for any `ps'` that has all of `ps`. -/
theorem Origin.mono {s : State} {ps ps' : List Performed} {d : Dict} (h : Origin s ps d)
    (hsub : ∀ p ∈ ps, p ∈ ps') : Origin s ps' d :=
  h.imp id (Or.imp id fun ⟨q, hq, hreplays⟩ => ⟨q, hsub q hq, hreplays⟩)

/-- The tables in the slots of `s'` have their `Origin` in `s` or in the steps `ps` since. -/
def Traced (s : State) (ps : List Performed) (s' : State) : Prop :=
  ∀ slot, ∀ d : Dict, s'.get? slot = some d.value → Origin s ps d

/-- `Traced s ps s'` and `Traced s' ps' s''` give `Traced s (ps ++ ps') s''`. -/
theorem Traced.trans {s s' s'' : State} {ps ps' : List Performed} (h : Traced s ps s')
    (h' : Traced s' ps' s'') : Traced s (ps ++ ps') s'' := by
  intro slot d hslot
  rcases h' slot d hslot with hcounted | ⟨slot', t, hslot', ht⟩ | ⟨q, hq, hreplays⟩
  · exact .inl hcounted
  · exact ((h slot' t hslot').of_alike ht).mono fun p hp => List.mem_append_left _ hp
  · exact .inr (.inr ⟨q, List.mem_append_right _ hq, hreplays⟩)

/-- `Traced s [] s`. -/
theorem Traced.refl (s : State) : Traced s [] s :=
  fun slot d hslot => .inr (.inl ⟨slot, d, hslot, .refl d⟩)

/-- `Traced s [⟨s, step⟩] (perform s step).2`, unless `step` binds a table with a wrong size
word. -/
theorem traced_perform {s : State} {step : Step} (hbinds : Performed.BindsCounted ⟨s, step⟩) :
    Traced s [⟨s, step⟩] (perform s step).2 := by
  intro slot d hslot
  -- the table in the slot was put there by the step, or it was in a slot before
  rcases puts_or_held hslot with hputs | ⟨slot', hheld⟩
  · generalize hv : d.value = v at hputs
    cases hputs with
    | bind slot' value => exact .inl (hbinds slot' d (by rw [hv]))
    | @marked memory slot' name max min w _ session hslot' hmark =>
      rw [← hv] at hmark
      obtain ⟨r, word, hengine, rfl, hused⟩ := Value.dict_of_marked hmark
      rcases Marking.sizeRead_cases r.replays name word with hreplay | hsame
      · obtain ⟨replay, hlookup, hlength, hword⟩ := hreplay
        rw [← hused] at hword
        have houtcome : (perform s (.markSequence memory slot' name max min)).1
            = .marked d.value := by
          simp only [perform, hslot', hmark]
        exact .inr (.inr ⟨_, List.mem_cons_self, memory, slot', name, max, min, d, rfl, houtcome,
          .refl d, r, replay, hengine, hlookup, hlength, hword⟩)
      · -- the word was read back as it was, and so the table is the one that was marked
        rw [← hused] at hsame
        exact .inr (.inl ⟨slot', d, by rw [hslot', hsame]; rfl, .refl d⟩)
    | push item hslot' => cases hv
    | @insert slot' t key value hslot' =>
      rw [Dict.eq_of_value_eq hv]
      cases hget : t.get? key with
      | none => exact .inl (Dict.counted_insert_of_none hget value)
      | some old => exact .inr (.inl ⟨slot', t, hslot', .insert hget value⟩)
  · exact .inr (.inl ⟨slot', d, hheld, .refl d⟩)

/-- Runs compose to
`Traced`, before each step and after the last one, if every step is `BindsCounted`. -/
theorem composes_traced : Composes fun s ps s' => (∀ p ∈ ps, p.BindsCounted) →
    (∀ qs p rest, ps = qs ++ p :: rest → Traced s qs p.before) ∧ Traced s ps s' where
  refl s _ := ⟨by simp, .refl s⟩
  trans {s s' s'' ps ps'} h h' hbinds := by
    obtain ⟨hbefore, hafter⟩ := h fun p hp => hbinds p (List.mem_append_left _ hp)
    obtain ⟨hbefore', hafter'⟩ := h' fun p hp => hbinds p (List.mem_append_right _ hp)
    refine ⟨?_, hafter.trans hafter'⟩
    intro qs p rest hsplit
    rcases List.append_eq_append_iff.1 hsplit with ⟨qs', rfl, hps'⟩ | ⟨bs, rfl, hbs⟩
    · exact hafter.trans (hbefore' qs' p rest hps')
    · cases bs with
      | nil =>
        -- the step is the first of the later ones
        rw [List.append_nil] at hafter
        rw [← List.append_nil qs]
        exact hafter.trans (hbefore' [] p rest hbs.symm)
      | cons q bs =>
        obtain ⟨rfl, -⟩ := List.cons.inj hbs
        exact hbefore qs p bs rfl
  perform s step hbinds := by
    refine ⟨?_, traced_perform (hbinds _ List.mem_cons_self)⟩
    intro qs p rest hsplit
    cases qs with
    | nil =>
      obtain ⟨rfl, -⟩ := List.cons.inj hsplit
      exact .refl s
    | cons q qs => simp at hsplit
  told h hbinds := h hbinds
  region _ h hbinds := h hbinds

/-! ## Right after a change -/

/-- If `perform s (.push slot item)` gives `.pushed size count`, then `slot` has the list with
`item` at its end and the size word `size` of its `count` items. -/
theorem perform_eq_pushed {s s' : State} {slot : String} {item : Value} {size : Int64} {count : Nat}
    (h : perform s (.push slot item) = (.pushed size count, s')) :
    ∃ word items, s.get? slot = some (.list word items) ∧ count = items.length + 1 ∧
      size = sizeWordOf count ∧ s'.get? slot = some (.list size (items ++ [item])) := by
  rw [perform] at h
  split at h
  · rename_i word items hslot
    obtain ⟨houtcome, hstate⟩ := Prod.mk.inj h
    obtain ⟨hsize, hcount⟩ := Outcome.pushed.inj houtcome
    subst hsize hcount hstate
    refine ⟨word, items, hslot, rfl, rfl, ?_⟩
    rw [State.get?_set_self, Value.push, Value.ofItems, List.length_append]
    rfl
  · cases h

/-- If `perform s (.insert slot key value)` gives `.inserted old used count`, then `slot` has
`(d.insert key value).2` for its table `d`. -/
theorem perform_eq_inserted {s s' : State} {slot : String} {key value : Value} {old : Option Value}
    {used : Int64} {count : Nat}
    (h : perform s (.insert slot key value) = (.inserted old used count, s')) :
    ∃ d : Dict, s.get? slot = some d.value ∧ old = d.get? key ∧
      used = (d.insert key value).2.used ∧ count = (d.insert key value).2.entries.length ∧
      s'.get? slot = some (d.insert key value).2.value := by
  rw [perform] at h
  split at h
  · rename_i used' entries hslot
    obtain ⟨houtcome, hstate⟩ := Prod.mk.inj h
    obtain ⟨hold, hused, hcount⟩ := Outcome.inserted.inj houtcome
    subst hold hused hcount hstate
    refine ⟨⟨used', entries⟩, hslot, Dict.insert_fst _ key value, rfl, rfl, ?_⟩
    exact State.get?_set_self s slot _
  · cases h

/-- **Size words right after changes.** In any run that starts with right size words and binds no
table with a wrong one: right after `.push` a list has its number of items as its size word,
whatever it was. Right after `.insert` the word `used` of a table is its number of entries iff the
key was new or the word was right before: a new value for a key leaves the word and the number of
entries. If it is wrong, an earlier step marked a table with the same keys and read the word from a
replay. -/
theorem size_words_after_changes {s : State} {stopsOnError : Bool} {steps : List Step}
    (hslots : ∀ slot, ∀ d : Dict, s.get? slot = some d.value → d.Counted)
    (hbinds : ∀ p ∈ performedAll s stopsOnError steps, p.BindsCounted) :
    ∀ qs p rest, performedAll s stopsOnError steps = qs ++ p :: rest →
      (∀ slot item size count, p.step = .push slot item → p.outcome = .pushed size count →
        size = sizeWordOf count ∧ (count < lengthLimit → size.toInt = count) ∧
        ∃ word items, p.before.get? slot = some (.list word items) ∧
          p.after.get? slot = some (.list size (items ++ [item])) ∧ count = items.length + 1) ∧
      ∀ slot key value old used count, p.step = .insert slot key value →
        p.outcome = .inserted old used count →
        ∃ d d' : Dict, p.before.get? slot = some d.value ∧ p.after.get? slot = some d'.value ∧
          used = d'.used ∧ count = d'.entries.length ∧ old = d.get? key ∧
          (used = sizeWordOf count ↔ old = none ∨ d.used = sizeWordOf d.entries.length) ∧
          (count < lengthLimit → (used = sizeWordOf count ↔ used.toInt = count)) ∧
          (old ≠ none → used = d.used ∧ count = d.entries.length) ∧
          (used ≠ sizeWordOf count → ∃ q ∈ qs, q.Replays d') := by
  intro qs p rest hsplit
  -- before each step every table has its trace
  obtain ⟨hbefore, -⟩ := composes_traced.runAll s stopsOnError steps hbinds
  refine ⟨?_, ?_⟩
  · intro slot item size count hstep houtcome
    have hperform : perform p.before (.push slot item) = (.pushed size count, p.after) := by
      rw [Performed.after, hstep, ← houtcome, Performed.outcome, hstep]
    obtain ⟨word, items, hslot, hcount, hsize, hafter⟩ := perform_eq_pushed hperform
    refine ⟨hsize, ?_, word, items, hslot, hafter, hcount⟩
    intro hroom
    rw [hsize, toInt_sizeWordOf hroom]
  · intro slot key value old used count hstep houtcome
    have hperform : perform p.before (.insert slot key value)
        = (.inserted old used count, p.after) := by
      rw [Performed.after, hstep, ← houtcome, Performed.outcome, hstep]
    obtain ⟨d, hslot, rfl, rfl, rfl, hafter⟩ := perform_eq_inserted hperform
    have hiff := Dict.counted_insert_iff d key value
    refine ⟨d, (d.insert key value).2, hslot, hafter, rfl, rfl, rfl, hiff, eq_sizeWordOf_iff, ?_,
      ?_⟩
    · intro hold
      obtain ⟨old, hget⟩ := Option.ne_none_iff_exists'.1 hold
      exact ⟨Dict.used_insert_of_some hget value, Dict.length_insert_of_some hget value⟩
    · -- the key was there, and the word was as wrong before
      intro hword
      obtain ⟨hold, -⟩ := not_or.1 fun h => hword (hiff.2 h)
      obtain ⟨old, hget⟩ := Option.ne_none_iff_exists'.1 hold
      have horigin := (hbefore qs p rest hsplit slot d hslot).of_alike (.insert hget value)
      rcases horigin with hcounted | ⟨slot', t, hslot', ht⟩ | hreplays
      · exact absurd hcounted hword
      · exact absurd (ht.counted (hslots slot' t hslot')) hword
      · exact hreplays

/-- A table whose size word was read from a replay keeps the wrong word when the value of its key is
replaced, and has the right one after a new key. -/
theorem size_words_after_changes_replayed :
    let s : State :=
      ⟨⟨.recording { replays := [("d.l#size", [9, 0, 0, 0, 0, 0, 0, 0])] }, 1000, false⟩,
        fun _ => none, 0, 0⟩
    let steps : List Step := [.bind "d" (Dict.ofEntries [(.int 1, .none)]).value,
      .markSequence .unlimited "d" "d" 0 0, .insert "d" (.int 1) (.int 2),
      .insert "d" (.int 3) (.int 4)]
    ∃ p q q' r : Performed, performedAll s false steps = [p, q, q', r] ∧
      q'.outcome = .inserted (some .none) 9 1 ∧
      (∃ d : Dict, q'.after.get? "d" = some d.value ∧ ∃ e ∈ [p, q], e.Replays d) ∧
      r.outcome = .inserted none 2 2 ∧ (2 : Int64) = sizeWordOf 2 := by
  intro s steps
  have hslots : ∀ slot, ∀ d : Dict, s.get? slot = some d.value → d.Counted :=
    fun slot d hslot => by cases hslot
  -- the only table that is bound is made of entries, and has its count
  have hbinds : ∀ p ∈ performedAll s false steps, p.BindsCounted := by
    have hperformed : (performedAll s false steps).map Performed.step = steps := rfl
    intro p hp slot d hstep
    have hmem : Step.bind slot d.value ∈ steps := by
      rw [← hperformed, ← hstep]
      exact List.mem_map_of_mem hp
    simp only [steps, List.mem_cons, reduceCtorEq, List.not_mem_nil, or_false] at hmem
    rw [Dict.eq_of_value_eq (Step.bind.inj hmem).2]
    exact (Dict.Consistent.ofEntries _).counted
  have hsizes := size_words_after_changes hslots hbinds
  refine ⟨_, _, _, _, rfl, rfl, ?_, rfl, ?_⟩
  · obtain ⟨-, hinsert⟩ := hsizes [_, _] _ _ rfl
    obtain ⟨-, d, -, hafter, -, -, -, -, -, -, hreplayed⟩ :=
      hinsert "d" (.int 1) (.int 2) (some .none) 9 1 rfl rfl
    exact ⟨d, hafter, hreplayed (by decide)⟩
  · obtain ⟨-, hinsert⟩ := hsizes [_, _, _] _ _ rfl
    obtain ⟨_, _, -, -, -, -, -, hiff, -⟩ := hinsert "d" (.int 3) (.int 4) none 2 2 rfl rfl
    exact hiff.2 (.inl rfl)

/-- A table of one entry has nine as its size word right after the value of its key was replaced: a
marking had read the word from a replay. -/
theorem replaced_value_keeps_size_word :
    let (answers, aborted, s) := runAll
      ⟨⟨.recording { replays := [("d.l#size", [9, 0, 0, 0, 0, 0, 0, 0])] }, 1000, false⟩,
        fun _ => none, 0, 0⟩ false
      [.bind "d" (Dict.ofEntries [(.int 1, .none)]).value, .markSequence .unlimited "d" "d" 0 0,
        .insert "d" (.int 1) (.int 2)]
    answers = [
      .mk (.shown (.dict 1 [(.int 1, .none)])) [] [],
      .mk (.marked (.dict 9 [(.int 1, .none)]))
        [.tracked "d.l#size" [9, 0, 0, 0, 0, 0, 0, 0], .assumed ⟨9, .ge, 0⟩,
          .assumed ⟨9, .lt, 1000⟩] [],
      .mk (.inserted (some .none) 9 1) [] []] ∧
      aborted = false ∧ s.get? "d" = some (.dict 9 [(.int 1, .int 2)]) ∧
      (9 : Int64) ≠ sizeWordOf 1 := by
  refine ⟨rfl, rfl, rfl, ?_⟩
  decide

end Script
end Concolic

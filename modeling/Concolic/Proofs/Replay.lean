import Concolic.Proofs.Runs
import Mathlib.Data.List.Forall2

/-! # Replayed runs

A run whose calls all succeed can be replayed: an alike run, of the same calls on values of the same
kinds and content lengths, that replays the buffers of the first run adds the same events and gives
the same integers, strings and size words (`Program.repeats_run`). What a call of the second run
reads back is the buffer of the first run under the same name, since no name was tracked twice. -/

namespace Concolic

/-! ## Alike runs -/

/-- Sequences are alike if they are of one kind, and strings if they have as many elements. -/
inductive Value.Alike : Value → Value → Prop where
  /-- Byte strings of one length. -/
  | str (word word' : Int64) {bytes bytes' : List UInt8} (hlength : bytes.length = bytes'.length) :
      Alike (.str word bytes) (.str word' bytes')
  /-- Wide strings of one length. -/
  | unicode (word word' : Int64) {units units' : List UInt32}
      (hlength : units.length = units'.length) : Alike (.unicode word units) (.unicode word' units')
  /-- Lists. -/
  | list (word word' : Int64) (items items' : List Value) :
      Alike (.list word items) (.list word' items')
  /-- Tables. -/
  | dict (word word' : Int64) (entries entries' : List (Value × Value)) :
      Alike (.dict word entries) (.dict word' entries')
  /-- Tuples. -/
  | tuple (word word' : Int64) (items items' : List Value) :
      Alike (.tuple word items) (.tuple word' items')

/-- Calls are alike if they ask the same of alike values, with whatever memory. -/
inductive Call.Alike : Call → Call → Prop where
  /-- Integers are all alike. -/
  | int (n n' : Int32) (base : String) (max min : Int32) :
      Alike (.int n base max min) (.int n' base max min)
  /-- Sequences have to be alike. -/
  | sequence (memory memory' : Allocator) {v v' : Value} (hvalue : v.Alike v') (base : String)
      (max min : Int64) :
      Alike (.sequence memory v base max min) (.sequence memory' v' base max min)

/-- Programs are alike if they make alike calls in the same regions. -/
inductive Program.Alike : Program → Program → Prop where
  /-- No calls are alike. -/
  | done : Alike .done .done
  /-- A call before alike calls. -/
  | call {c c' : Call} {next next' : Program} (hcall : c.Alike c') (hnext : Alike next next') :
      Alike (.call c next) (.call c' next')
  /-- A region before alike calls. -/
  | region {body body' next next' : Program} (hbody : Alike body body')
      (hnext : Alike next next') : Alike (.region body next) (.region body' next')

/-- A value agrees with another in what a marking of both replays: an integer, a string and its size
word, and of other values the size word, for a list only if `sizeTracked`. -/
def Value.Agrees (sizeTracked : Bool) : Value → Value → Prop
  | .int n, .int n' => n = n'
  | .str word bytes, .str word' bytes' => word = word' ∧ bytes = bytes'
  | .unicode word units, .unicode word' units' => word = word' ∧ units = units'
  | .list word _, .list word' _ => sizeTracked = true → word = word'
  | .dict word _, .dict word' _ => word = word'
  | .tuple word _, .tuple word' _ => word = word'
  | _, _ => False

/-- Whether a warning is of a replay that was ignored. -/
def Warning.isIgnored : Warning → Bool
  | .replayIgnored _ _ _ => true
  | _ => false

/-! ## What is read back from a replay -/

namespace Marking

variable {replays : Replays} {base : String}

/-- If the replay of the integer is `LittleEndian.ofInt32 m`, then `intRead replays base n = m`. -/
theorem intRead_of_lookup {m : Int32} (n : Int32)
    (h : replays.lookup (BufferName.ofValue base .int).text = some (LittleEndian.ofInt32 m)) :
    intRead replays base n = m := by
  have hlength : (LittleEndian.ofInt32 m).length = (LittleEndian.ofInt32 n).length := by simp
  rw [intRead, Recorder.replayed_of_lookup h hlength, LittleEndian.toInt32_ofInt32]

/-- If the replay of the text is `LittleEndian.ofUnits units`, of the same length, then
`unitsRead replays base units' = units`. -/
theorem unitsRead_of_lookup {units units' : List UInt32}
    (h : replays.lookup (BufferName.ofValue base .unicode).text
      = some (LittleEndian.ofUnits units))
    (hlength : (LittleEndian.ofUnits units).length = (LittleEndian.ofUnits units').length) :
    unitsRead replays base units' = units := by
  rw [unitsRead, Recorder.replayed_of_lookup h hlength, LittleEndian.toUnits_ofUnits]

/-- If the buffers of `size` are the replays, `sizeAfter replays base policy word = size` where
`policy` tracks the size. -/
theorem sizeAfter_of_lookup {policy : SizePolicy} {size : Int64} (word : Int64)
    (h : ∀ b ∈ sizeBuffers base policy size,
      replays.lookup b.name.text = some b.value.toBytes)
    (htracked : policy.tracked = true) : sizeAfter replays base policy word = size := by
  rw [sizeBuffers, if_pos htracked] at h
  rw [sizeAfter, if_pos htracked]
  exact sizeRead_of_lookup word (h (sizeBuffer base policy size) List.mem_cons_self)

/-- If the buffers of a size after `replays'` are the replays, `replays` and `replays'` give the
same size. -/
theorem sizeAfter_eq_of_lookup {policy : SizePolicy} {word : Int64} (replays' : Replays)
    (h : ∀ b ∈ sizeBuffers base policy (sizeAfter replays' base policy word),
      replays.lookup b.name.text = some b.value.toBytes) :
    sizeAfter replays base policy word = sizeAfter replays' base policy word := by
  by_cases htracked : policy.tracked = true
  · exact sizeAfter_of_lookup word h htracked
  · rw [sizeAfter, sizeAfter, if_neg htracked, if_neg htracked]

/-- `b.notices = []` for `b ∈ sizeBuffers base policy word`. -/
theorem notices_of_mem_sizeBuffers {policy : SizePolicy} {word : Int64} {b : Buffer}
    (h : b ∈ sizeBuffers base policy word) : b.notices = [] := by
  rw [sizeBuffers] at h
  split at h
  · rw [List.mem_singleton.1 h]
    rfl
  · cases h

/-- `sizeBuffers base policy` depends on the word only where `policy` tracks the size. -/
theorem sizeBuffers_congr {policy : SizePolicy} {word word' : Int64}
    (h : policy.tracked = true → word = word') :
    sizeBuffers base policy word = sizeBuffers base policy word' := by
  by_cases htracked : policy.tracked = true
  · rw [h htracked]
  · rw [sizeBuffers, sizeBuffers, if_neg htracked, if_neg htracked]

end Marking

namespace Call

open Marking

/-- If the buffers of the result of `c` are the replays, a call `c'` alike has the same buffers, and
its result agrees. -/
theorem buffers_replayed {c c' : Call} (halike : c.Alike c') {replays replays' : Replays}
    {bound : Int64}
    (hreplay : ∀ b ∈ c.buffers bound (c.result replays),
      replays'.lookup b.name.text = some b.value.toBytes) :
    c'.buffers bound (c'.result replays') = c.buffers bound (c.result replays) ∧
      (c.result replays).Agrees c.tracksSize (c'.result replays') := by
  cases halike with
  | int n n' base max min =>
    have hread : intRead replays' base n' = intRead replays base n :=
      intRead_of_lookup n' (hreplay (intBuffer base max min (intRead replays base n))
        List.mem_cons_self)
    simp only [result, hread]
    exact ⟨rfl, rfl⟩
  | sequence memory memory' hvalue base max min =>
    cases hvalue with
    | @str word word' bytes bytes' hlength =>
      have hread : bytesRead replays' base bytes' = bytesRead replays base bytes := by
        apply Recorder.replayed_of_lookup
        · exact hreplay (valueBuffer base (.byteString (bytesRead replays base bytes)))
            List.mem_cons_self
        · rw [bytesRead, Recorder.length_replayed, hlength]
      -- both count the same elements, so a fixed size is the same too
      have hsize := sizeAfter_eq_of_lookup replays fun b hb => hreplay b (List.mem_cons_of_mem _ hb)
      simp only [result, hread, hsize]
      exact ⟨rfl, rfl, rfl⟩
    | @unicode word word' units units' hlength =>
      have hread : unitsRead replays' base units' = unitsRead replays base units := by
        apply unitsRead_of_lookup
        · exact hreplay (valueBuffer base (.wideString (unitsRead replays base units)))
            List.mem_cons_self
        · rw [ofUnits_unitsRead, Recorder.length_replayed, LittleEndian.length_ofUnits,
            LittleEndian.length_ofUnits, hlength]
      have hsize := sizeAfter_eq_of_lookup replays fun b hb => hreplay b (List.mem_cons_of_mem _ hb)
      simp only [result, hread, hsize]
      exact ⟨rfl, rfl, rfl⟩
    | list word word' items items' =>
      have hsize : (SizePolicy.of max min).tracked = true →
          sizeAfter replays' base (.of max min) word' = sizeAfter replays base (.of max min) word :=
        sizeAfter_of_lookup word' hreplay
      -- a list keeps its items, and its own size where that is fixed
      refine ⟨sizeBuffers_congr hsize, fun hmax => (hsize ?_).symm⟩
      rw [SizePolicy.tracked_of_iff, Int64.not_lt]
      exact of_decide_eq_true hmax
    | dict word word' entries entries' =>
      have hread : sizeRead replays' base word' = sizeRead replays base word :=
        sizeRead_of_lookup word' (hreplay
          (structureBuffer base bound (sizeRead replays base word)) List.mem_cons_self)
      simp only [result, hread]
      exact ⟨rfl, rfl⟩
    | tuple word word' items items' =>
      have hread : sizeRead replays' base word' = sizeRead replays base word :=
        sizeRead_of_lookup word' (hreplay
          (structureBuffer base bound (sizeRead replays base word)) List.mem_cons_self)
      simp only [result, hread]
      exact ⟨rfl, rfl⟩

/-- A buffer of a call has no notices unless it is a `structureBuffer`. -/
theorem notices_of_mem_buffers {c : Call} {bound : Int64} {v : Value} {b : Buffer}
    (hb : b ∈ c.buffers bound v) :
    b.notices = [] ∨ ∃ base word, b = structureBuffer base bound word := by
  -- only the buffers of structures have notices
  cases c with
  | int n base max min =>
    cases v with
    | int m =>
      rw [List.mem_singleton.1 hb]
      exact .inl rfl
    | _ => cases hb
  | sequence memory u base max min =>
    cases v with
    | str word bytes =>
      rcases List.mem_cons.1 hb with rfl | hb
      · exact .inl rfl
      · exact .inl (notices_of_mem_sizeBuffers hb)
    | unicode word units =>
      rcases List.mem_cons.1 hb with rfl | hb
      · exact .inl rfl
      · exact .inl (notices_of_mem_sizeBuffers hb)
    | list word items => exact .inl (notices_of_mem_sizeBuffers hb)
    | dict word entries => exact .inr ⟨base, word, List.mem_singleton.1 hb⟩
    | tuple word items => exact .inr ⟨base, word, List.mem_singleton.1 hb⟩
    | _ => cases hb

/-- A buffer that is among `replays` has no warning with `isIgnored`. -/
theorem not_ignored_of_lookup {c : Call} {bound : Int64} {v : Value} {b : Buffer}
    (hb : b ∈ c.buffers bound v) {replays : Replays}
    (hlookup : replays.lookup b.name.text = some b.value.toBytes) {w : Warning}
    (hw : w ∈ b.warnings replays) : w.isIgnored = false := by
  rw [Buffer.warnings, Recorder.ignored_of_lookup hlookup rfl, List.nil_append] at hw
  rcases List.mem_append.1 hw with hw | hw
  · rcases notices_of_mem_buffers hb with hnil | ⟨base, word, rfl⟩
    · rw [hnil] at hw
      cases hw
    · rw [structureBuffer] at hw
      split at hw
      · rw [List.mem_singleton.1 hw]
        rfl
      · cases hw
  · obtain ⟨a, -, rfl⟩ := List.mem_map.1 hw
    rfl

end Call

/-! ## One call and its replay -/

/-- `s` and `s'` are over the active recorders `r` and `r'` with one bound, and both in an atomic
region or both in none. -/
structure Paired (s s' : Session) (r r' : Recorder) : Prop where
  /-- The recorder of the first session. -/
  engine : s.engine = .recording r
  /-- The recorder of the second session. -/
  engine' : s'.engine = .recording r'
  /-- The first recorder is active. -/
  active : r.active = true
  /-- The second recorder is active. -/
  active' : r'.active = true
  /-- The bounds are the same. -/
  bound : s.bound = s'.bound
  /-- The regions are the same. -/
  inAtomic : s.inAtomic = s'.inAtomic

/-- The calls `made` and their replays `made'` all succeeded, and `replays` have the buffers that
`made` tracked. -/
structure Replayable (replays : Replays) (made made' : List Made) : Prop where
  /-- The calls succeeded. -/
  succeeded : ∀ m ∈ made, m.outcome.isOk = true
  /-- Their replays succeeded. -/
  succeeded' : ∀ m ∈ made', m.outcome.isOk = true
  /-- The tracked buffers are among the replays. -/
  recorded : ∀ b ∈ made.flatMap Made.tracked, replays.lookup b.1 = some b.2

/-- If `m.outcome.isOk`, then `m.outcome = .ok v` for some `v`. -/
theorem Made.eq_ok_of_isOk {m : Made} (h : m.outcome.isOk = true) : ∃ v, m.outcome = .ok v := by
  cases houtcome : m.outcome with
  | error error =>
    rw [houtcome] at h
    cases h
  | ok v => exact ⟨v, rfl⟩

/-- The results of the call `m` and of its replay `m'` agree. -/
def Made.Agrees (m m' : Made) : Prop :=
  ∃ v v', m.outcome = .ok v ∧ m'.outcome = .ok v' ∧ v.Agrees m.call.tracksSize v'

/-- The calls `made` lead from `s` to `t`, and their replays `made'` from `s'` to `t'`: the two add
the same events, what they give agrees, and no replay is ignored. -/
def Repeats (s : Session) (r : Recorder) (made : List Made) (t : Session)
    (s' : Session) (r' : Recorder) (made' : List Made) (t' : Session) : Prop :=
  ∃ events warnings warnings',
    t = { s with engine := .recording (r.extend events warnings) } ∧
    t' = { s' with engine := .recording (r'.extend events warnings') } ∧
    List.Forall₂ Made.Agrees made made' ∧ ∀ w ∈ warnings', w.isIgnored = false

namespace Replayable

variable {replays : Replays} {made₁ made₂ made₁' made₂' : List Made}

/-- `Replayable` for `made₁ ++ made₂` gives it for `made₁`. -/
theorem left (h : Replayable replays (made₁ ++ made₂) (made₁' ++ made₂')) :
    Replayable replays made₁ made₁' where
  succeeded m hm := h.succeeded m (List.mem_append_left _ hm)
  succeeded' m hm := h.succeeded' m (List.mem_append_left _ hm)
  recorded b hb := h.recorded b (by
    rw [List.flatMap_append]
    exact List.mem_append_left _ hb)

/-- `Replayable` for `made₁ ++ made₂` gives it for `made₂`. -/
theorem right (h : Replayable replays (made₁ ++ made₂) (made₁' ++ made₂')) :
    Replayable replays made₂ made₂' where
  succeeded m hm := h.succeeded m (List.mem_append_right _ hm)
  succeeded' m hm := h.succeeded' m (List.mem_append_right _ hm)
  recorded b hb := h.recorded b (by
    rw [List.flatMap_append]
    exact List.mem_append_right _ hb)

end Replayable

namespace Repeats

variable {s s' t t' u u' : Session} {r r' : Recorder} {made made' made₂ made₂' : List Made}

/-- No calls repeat no calls: `Repeats s r [] s s' r' [] s'`. -/
theorem refl (hpaired : Paired s s' r r') : Repeats s r [] s s' r' [] s' := by
  refine ⟨[], [], [], ?_, ?_, .nil, fun w hw => by cases hw⟩
  · rw [Recorder.extend_nil, ← hpaired.engine]
  · rw [Recorder.extend_nil, ← hpaired.engine']

/-- `Repeats` for `made` and then for `made₂` gives it for `made ++ made₂`. -/
theorem trans (hpaired : Paired s s' r r') (h : Repeats s r made t s' r' made' t')
    (h' : ∀ q q', Paired t t' q q' → q'.replays = r'.replays →
      Repeats t q made₂ u t' q' made₂' u') :
    Repeats s r (made ++ made₂) u s' r' (made' ++ made₂') u' := by
  obtain ⟨events, warnings, warnings', rfl, rfl, hagrees, hwarnings⟩ := h
  obtain ⟨events₂, warnings₂, warnings₂', rfl, rfl, hagrees₂, hwarnings₂⟩ := h' _ _
    ⟨rfl, rfl, hpaired.active, hpaired.active', hpaired.bound, hpaired.inAtomic⟩ rfl
  refine ⟨events ++ events₂, warnings ++ warnings₂, warnings' ++ warnings₂', ?_, ?_, ?_, ?_⟩
  · rw [Recorder.extend_extend]
  · rw [Recorder.extend_extend]
  · exact List.rel_append hagrees hagrees₂
  · intro w hw
    rcases List.mem_append.1 hw with hw | hw
    · exact hwarnings w hw
    · exact hwarnings₂ w hw

/-- If `c.Alike c'` and the buffers of `c.made s` are `Replayable`, then `c'` over `s'` `Repeats`
`c` over `s`. -/
theorem call (hpaired : Paired s s' r r') {c c' : Call} (halike : c.Alike c')
    (hreplayable : Replayable r'.replays [c.made s] [c'.made s']) :
    Repeats s r [c.made s] (c.perform s).2 s' r' [c'.made s'] (c'.perform s').2 := by
  obtain ⟨v, hok⟩ := Made.eq_ok_of_isOk (hreplayable.succeeded _ (List.mem_singleton_self _))
  obtain ⟨v', hok'⟩ := Made.eq_ok_of_isOk (hreplayable.succeeded' _ (List.mem_singleton_self _))
  obtain ⟨q, hengine, -, -, hv, hafter, hevents⟩ := Call.made_eq_ok hok
  obtain ⟨q', hengine', -, -, hv', hafter', -⟩ := Call.made_eq_ok hok'
  cases hpaired.engine.symm.trans hengine
  cases hpaired.engine'.symm.trans hengine'
  -- the buffers of the call are the replays for its names
  have hreplay : ∀ b ∈ c.buffers s.bound (c.result r.replays),
      r'.replays.lookup b.name.text = some b.value.toBytes := by
    intro b hb
    apply hreplayable.recorded b.answer
    rw [List.flatMap_singleton, Made.tracked, hevents, tracked_flatMap_events]
    exact List.mem_map_of_mem hb
  -- so the replay of the call holds the same buffers
  obtain ⟨hbuffers, hagrees⟩ := Call.buffers_replayed halike hreplay
  have hsame : c'.buffers s'.bound (c'.result r'.replays)
      = c.buffers s.bound (c.result r.replays) := by
    rw [← hpaired.bound, hbuffers]
  rw [hsame] at hafter'
  refine ⟨_, _, _, hafter, hafter', .cons ⟨v, v', hok, hok', ?_⟩ .nil, ?_⟩
  · rw [hv, hv']
    exact hagrees
  · intro w hw
    obtain ⟨b, hb, hw⟩ := List.mem_flatMap.1 hw
    exact Call.not_ignored_of_lookup hb (hreplay b hb) hw

/-- `inAtomicRegion` repeats if its body does. -/
theorem region (hpaired : Paired s s' r r') {body body' : Session → List Made × Session}
    (hbody : ∀ t t' q q', Paired t t' q q' → q'.replays = r'.replays →
      (s.inAtomicRegion body).1 = (body t).1 → (s'.inAtomicRegion body').1 = (body' t').1 →
      Repeats t q (body t).1 (body t).2 t' q' (body' t').1 (body' t').2) :
    Repeats s r (s.inAtomicRegion body).1 (s.inAtomicRegion body).2
      s' r' (s'.inAtomicRegion body').1 (s'.inAtomicRegion body').2 := by
  cases hatomic : s.inAtomic with
  | true =>
    have hatomic' : s'.inAtomic = true := by rw [← hpaired.inAtomic, hatomic]
    rw [Session.inAtomicRegion, Session.inAtomicRegion, if_pos hatomic, if_pos hatomic'] at hbody ⊢
    exact hbody s s' r r' hpaired rfl rfl rfl
  | false =>
    have hatomic' : s'.inAtomic = false := by rw [← hpaired.inAtomic, hatomic]
    have hmade : (s.inAtomicRegion body).1 = (body s.entered).1 := by
      rw [Session.inAtomicRegion_eq hatomic]
    have hmade' : (s'.inAtomicRegion body').1 = (body' s'.entered).1 := by
      rw [Session.inAtomicRegion_eq hatomic']
    obtain ⟨events, warnings, warnings', hafter, hafter', hagrees, hwarnings⟩ :=
      hbody s.entered s'.entered (r.record .atomicBegin) (r'.record .atomicBegin)
        ⟨Session.engine_entered hpaired.engine, Session.engine_entered hpaired.engine',
          hpaired.active, hpaired.active', hpaired.bound, rfl⟩ rfl hmade hmade'
    rw [Session.inAtomicRegion_of_outermost hatomic hafter,
      Session.inAtomicRegion_of_outermost hatomic' hafter']
    exact ⟨.atomicBegin :: (events ++ [.atomicEnd]), warnings, warnings', rfl, rfl, hagrees,
      hwarnings⟩

end Repeats

/-! ## Runs and their replays -/

/-- If all calls succeed, `p'.run s'` repeats `p.run s` for a program `p'` alike that replays the
buffers of the first. -/
theorem Program.repeats_run {p p' : Program} (halike : p.Alike p') {s s' : Session}
    {r r' : Recorder} (hpaired : Paired s s' r r')
    (hreplayable : Replayable r'.replays (p.run s).1 (p'.run s').1) :
    Repeats s r (p.run s).1 (p.run s).2 s' r' (p'.run s').1 (p'.run s').2 := by
  -- the sessions stay paired: both recorders get the same events, and the replays never change
  induction halike generalizing s s' r r' with
  | done => exact .refl hpaired
  | @call c c' next next' hcall hnext ih =>
    have hreplayable : Replayable r'.replays
        ([c.made s] ++ (next.run (c.perform s).2).1)
        ([c'.made s'] ++ (next'.run (c'.perform s').2).1) := hreplayable
    have hfirst := Repeats.call hpaired hcall hreplayable.left
    refine hfirst.trans hpaired ?_
    intro q q' hpaired' hreplays
    exact ih hpaired' (hreplays ▸ hreplayable.right)
  | @region body body' next next' hbody hnext ihBody ihNext =>
    have hreplayable : Replayable r'.replays
        ((s.inAtomicRegion body.run).1 ++ (next.run (s.inAtomicRegion body.run).2).1)
        ((s'.inAtomicRegion body'.run).1 ++ (next'.run (s'.inAtomicRegion body'.run).2).1) :=
      hreplayable
    have hinside := hreplayable.left
    have hregion := Repeats.region hpaired fun t t' q q' hpaired' hreplays hmade hmade' =>
      ihBody hpaired' (by rw [hreplays, ← hmade, ← hmade']; exact hinside)
    refine hregion.trans hpaired ?_
    intro q q' hpaired' hreplays
    exact ihNext hpaired' (hreplays ▸ hreplayable.right)

/-- If no name is twice in `tracked` and `(name, bytes) ∈ tracked`, then
`tracked.lookup name = some bytes`. -/
theorem lookup_of_mem_of_nodup {tracked : List (String × List UInt8)}
    (hnodup : (tracked.map Prod.fst).Nodup) {name : String} {bytes : List UInt8}
    (h : (name, bytes) ∈ tracked) : tracked.lookup name = some bytes := by
  obtain ⟨before, after, rfl⟩ := List.append_of_mem h
  refine List.lookup_eq_some_iff.2 ⟨before, after, rfl, ?_⟩
  intro p hp
  rw [List.map_append, List.nodup_append] at hnodup
  rw [bne_iff_ne]
  exact (hnodup.2.2 p.1 (List.mem_map_of_mem hp) name List.mem_cons_self).symm

/-- **A log is replayed.** A run over a fresh log whose calls all succeed and track no name twice is
replayed by a run of `p'`, with `p.Alike p'`, over a fresh log that finds exactly the tracked
buffers of the first as replays: if the calls of the second run succeed too,
`final'.log = final.log`, what its calls give agrees with what the calls of the first gave, and no
replay is ignored. -/
theorem Program.log_replayed {p p' : Program} (halike : p.Alike p') {s s' : Session}
    {r r' final : Recorder} (hpaired : Paired s s' r r') (hlog : r.log = []) (hlog' : r'.log = [])
    (hfinal : (p.run s).2.engine = .recording final)
    (hnodup : (final.tracked.map Prod.fst).Nodup)
    (hreplays : ∀ name, r'.replays.lookup name = final.tracked.lookup name)
    (hsucceeded : ∀ m ∈ (p.run s).1, m.outcome.isOk = true)
    (hsucceeded' : ∀ m ∈ (p'.run s').1, m.outcome.isOk = true) :
    ∃ final' warnings, (p'.run s').2.engine = .recording final' ∧ final'.log = final.log ∧
      List.Forall₂ Made.Agrees (p.run s).1 (p'.run s').1 ∧
      final'.warnings = r'.warnings ++ warnings ∧ ∀ w ∈ warnings, w.isIgnored = false := by
  -- what the first run tracked is what its calls tell
  have htracked : final.tracked = (p.run s).1.flatMap Made.tracked := by
    obtain ⟨final₀, hfinal₀, htracked⟩ :=
      (p.adds_run hpaired.engine hpaired.active).exists_recorder hlog
    cases hfinal.symm.trans hfinal₀
    exact htracked
  -- each of these buffers is replayed with its own content, as no name occurs twice
  have hreplayable : Replayable r'.replays (p.run s).1 (p'.run s').1 := by
    refine ⟨hsucceeded, hsucceeded', ?_⟩
    intro b hb
    rw [← htracked] at hb
    rw [hreplays, lookup_of_mem_of_nodup hnodup hb]
  obtain ⟨events, warnings, warnings', hafter, hafter', hagrees, hwarnings⟩ :=
    Program.repeats_run halike hpaired hreplayable
  rw [hafter] at hfinal
  cases hfinal
  refine ⟨r'.extend events warnings', warnings', by rw [hafter'], ?_, hagrees,
    Recorder.warnings_extend .., hwarnings⟩
  rw [Recorder.log_extend, Recorder.log_extend, hlog, hlog']

/-- An integer, a string that was replayed in a region and a list are replayed on other values. -/
theorem Program.log_replayed_greeting :
    ∃ final' warnings,
      (Program.run (.call (.int 7 "n" 0 1) (.region
        (.call (.sequence .unlimited (.str 2 [120, 121]) "s" (-1) 0) .done)
        (.call (.sequence .unlimited (.list 2 [.none, .none]) "l" 0 0) .done)))
        ⟨.recording { replays := [("n.i#value", [3, 0, 0, 0]), ("s.s#value", [99, 100]),
          ("l.l#size", [1, 0, 0, 0, 0, 0, 0, 0])] }, 1000, false⟩).2.engine = .recording final' ∧
      final'.log = [.tracked "n.i#value" [3, 0, 0, 0], .atomicBegin,
        .tracked "s.s#value" [99, 100], .atomicEnd,
        .tracked "l.l#size" [1, 0, 0, 0, 0, 0, 0, 0], .assumed ⟨1, .ge, 0⟩] ∧
      final'.warnings = [] ++ warnings ∧ ∀ w ∈ warnings, w.isIgnored = false := by
  let p : Program := .call (.int 3 "n" 0 1) (.region
    (.call (.sequence .unlimited (.str 2 [97, 98]) "s" (-1) 0) .done)
    (.call (.sequence .unlimited (.list 1 [.none]) "l" 0 0) .done))
  let p' : Program := .call (.int 7 "n" 0 1) (.region
    (.call (.sequence .unlimited (.str 2 [120, 121]) "s" (-1) 0) .done)
    (.call (.sequence .unlimited (.list 2 [.none, .none]) "l" 0 0) .done))
  let s : Session := ⟨.recording { replays := [("s.s#value", [99, 100])] }, 1000, false⟩
  let s' : Session := ⟨.recording { replays := [("n.i#value", [3, 0, 0, 0]),
    ("s.s#value", [99, 100]), ("l.l#size", [1, 0, 0, 0, 0, 0, 0, 0])] }, 1000, false⟩
  have halike : p.Alike p' := .call (.int 3 7 "n" 0 1) (.region
    (.call (.sequence .unlimited .unlimited (.str 2 2 (by decide)) "s" (-1) 0) .done)
    (.call (.sequence .unlimited .unlimited (.list 1 2 [.none] [.none, .none]) "l" 0 0) .done))
  have hpaired : Paired s s' _ _ := ⟨rfl, rfl, rfl, rfl, rfl, rfl⟩
  obtain ⟨final', warnings, hengine, hlog, -, hwarnings⟩ := Program.log_replayed halike hpaired rfl
    rfl rfl (by decide +kernel) (fun name => congrArg (List.lookup name) (by decide +kernel))
    (by decide +kernel) (by decide +kernel)
  refine ⟨final', warnings, hengine, hlog.trans ?_, hwarnings⟩
  decide +kernel

/-- The size of a list that is not made symbolic is not replayed: two lists are marked alike, each
call succeeds and nothing is tracked, and the second run keeps the size word of its own list. -/
theorem Program.fixed_list_not_replayed :
    ∃ m m' r r',
      (Program.call (.sequence .unlimited (.ofItems [.none, .none]) "a" (-1) 0) .done).run
          ⟨.recording {}, 1000, false⟩ = ([m], ⟨.recording r, 1000, false⟩) ∧
      m.outcome = .ok (.list 2 [.none, .none]) ∧ r.tracked = [] ∧
      (Program.call (.sequence .unlimited (.ofItems [.none, .none, .none]) "a" (-1) 0) .done).run
          ⟨.recording { replays := [] }, 1000, false⟩ = ([m'], ⟨.recording r', 1000, false⟩) ∧
      m'.outcome = .ok (.list 3 [.none, .none, .none]) ∧ r'.log = r.log ∧
      (2 : Int64) ≠ 3 := by
  exact ⟨_, _, _, _, rfl, rfl, rfl, rfl, rfl, rfl, by decide⟩

end Concolic

import Concolic.Config.SessionBound
import Concolic.Proofs.Steps

/-! # The bound of a session

A session is opened with a bound on the number of elements of structures: the first positive one of
the candidates, of which the last is the default (`firstPositive_eq`). A configured bound that is
not positive keeps a session from being opened over a configuration, and is passed over otherwise.
No step changes the bound (`Script.bound_perform`), so the assumptions that the markings of tables
and tuples add along a run all name the bound that the session was opened with
(`Script.bound_resolved`). -/

namespace Concolic

/-! ## Opening -/

/-- `firstPositive bounds` is the first positive one of `bounds ++ [1000]`, with one warning for
each of those before it. -/
theorem firstPositive_eq (bounds : List Int64) :
    (bounds ++ [1000]).find? (fun bound => 0 < bound) = some (firstPositive bounds).1 ∧
      (firstPositive bounds).2
        = ((bounds ++ [1000]).takeWhile fun bound => bound ≤ 0).map .nonPositiveBound := by
  induction bounds with
  | nil => exact ⟨rfl, rfl⟩
  | cons bound bounds ih =>
    rw [firstPositive, List.cons_append]
    by_cases hpos : 0 < bound
    · -- nothing behind the first positive candidate is looked at
      have hle : ¬ bound ≤ 0 := Int64.not_le.2 hpos
      simp [hpos, hle]
    · have hle : bound ≤ 0 := Int64.not_lt.1 hpos
      simp [hpos, hle, ih.1, ih.2]

/-- `(firstPositive bounds).1` is positive. -/
theorem firstPositive_pos (bounds : List Int64) : 0 < (firstPositive bounds).1 := by
  have hfound := (firstPositive_eq bounds).1
  simpa using List.find?_some hfound

section Configured

variable {lib : ConfigLibrary} {order : MergeOrder}

/-- The bound that `es` have: `none` where the setting is absent, and else the integer that `lib`
reads from it. -/
def HasBound (lib : ConfigLibrary) (es : Settings) : Option Int64 → Prop
  | none => Setting.find es boundKey = .nil
  | some n => Setting.find es boundKey ≠ .nil ∧
      lib.integer? (Setting.find es boundKey) = some n

/-- `HasBound lib es bound` holds of one `bound` at most. -/
theorem HasBound.unique {es : Settings} {bound bound' : Option Int64} (h : HasBound lib es bound)
    (h' : HasBound lib es bound') : bound = bound' := by
  cases bound with
  | none =>
    cases bound' with
    | none => rfl
    | some n => exact absurd h h'.1
  | some n =>
    cases bound' with
    | none => exact absurd h' h.1
    | some m => exact h.2.symm.trans h'.2

/-- If the setting of `boundKey` is there, `configuredBound lib es` is the integer that `lib` reads
from it, or an error if it is none or not positive. -/
theorem configuredBound_of_ne_nil {es : Settings} (h : Setting.find es boundKey ≠ .nil) :
    configuredBound lib es
      = match lib.integer? (Setting.find es boundKey) with
        | none => .error (.wrongType boundKey)
        | some n => if n ≤ 0 then .error (.nonPositiveBound n) else .ok (some n) := by
  unfold configuredBound
  split
  · rename_i hnil
    exact absurd hnil h
  · rfl

/-- `HasBound lib es (some n)` with `n ≤ 0` gives
`configuredBound lib es = .error (.nonPositiveBound n)`. -/
theorem configuredBound_of_nonpos {es : Settings} {n : Int64} (h : HasBound lib es (some n))
    (hn : n ≤ 0) : configuredBound lib es = .error (.nonPositiveBound n) := by
  rw [configuredBound_of_ne_nil h.1, h.2]
  exact if_pos hn

/-- `configuredBound lib es = .ok bound` iff `HasBound lib es bound` and `bound` is positive or
`none`. -/
theorem configuredBound_eq_ok_iff {es : Settings} {bound : Option Int64} :
    configuredBound lib es = .ok bound ↔ HasBound lib es bound ∧ ∀ n ∈ bound, 0 < n := by
  by_cases hnil : Setting.find es boundKey = .nil
  · -- no bound is configured
    have hnone : HasBound lib es none := hnil
    have hbound : configuredBound lib es = .ok none := by
      rw [configuredBound, hnil]
    rw [hbound]
    constructor
    · intro h
      obtain rfl := Except.ok.inj h
      exact ⟨hnone, by simp⟩
    · rintro ⟨h, -⟩
      rw [hnone.unique h]
  · rw [configuredBound_of_ne_nil hnil]
    -- a setting that is no integer is an error, and is no bound either
    cases hread : lib.integer? (Setting.find es boundKey) with
    | none =>
      constructor
      · intro h
        cases h
      · rintro ⟨h, -⟩
        cases bound with
        | none => exact absurd h hnil
        | some m => cases hread.symm.trans h.2
    | some n =>
      have hsome : HasBound lib es (some n) := ⟨hnil, hread⟩
      by_cases hn : n ≤ 0
      · simp only [if_pos hn]
        constructor
        · intro h
          cases h
        · rintro ⟨h, hpos⟩
          rw [← hsome.unique h] at hpos
          exact absurd (hpos n rfl) (Int64.not_lt.2 hn)
      · simp only [if_neg hn]
        constructor
        · intro h
          obtain rfl := Except.ok.inj h
          exact ⟨hsome, by simpa using Int64.not_le.1 hn⟩
        · rintro ⟨h, -⟩
          rw [hsome.unique h]

/-- The configuration of `source` is loaded and has the bound `bound`, or none. -/
def ConfigSource.Loads (lib : ConfigLibrary) (order : MergeOrder) (source : ConfigSource)
    (bound : Option Int64) : Prop :=
  ∃ es, (source.load lib order sessionConfigName sessionGroup []).1 = .ok es ∧ HasBound lib es bound

/-- `source.Loads lib order bound` holds of one `bound` at most. -/
theorem ConfigSource.Loads.unique {source : ConfigSource} {bound bound' : Option Int64}
    (h : source.Loads lib order bound) (h' : source.Loads lib order bound') : bound = bound' := by
  obtain ⟨es, hload, hbound⟩ := h
  obtain ⟨es', hload', hbound'⟩ := h'
  obtain rfl : es = es' := Except.ok.inj (hload.symm.trans hload')
  exact hbound.unique hbound'

end Configured

/-- If only the variable of the bound is set, with a text of `n`, the configuration `Loads` with
`some n`. -/
theorem ConfigSource.loads_of_variable {text : String} {n : Int64}
    (h : Setting.int64OfText? text = some n) :
    ConfigSource.Loads .standard .listed
      { files := {}, workDir := [], environment := [("MARSH_MAX_SYMBOLIC_SIZE", text)] }
      (some n) := by
  let env : Environment := [("MARSH_MAX_SYMBOLIC_SIZE", text)]
  let source : ConfigSource := { files := {}, workDir := [], environment := env }
  -- of the four layers only that of the variables has a setting
  have hfile : source.file? sessionConfigName = none := by
    have hsearch : FileTree.search? {} [[]] sessionConfigName = none := by decide +kernel
    have hconfig : FileTree.configFile? {} [] sessionConfigName = none := by decide +kernel
    rw [ConfigSource.file?, hsearch]
    exact hconfig
  have hinline : Layers.inlineText env sessionGroup = (none, []) := by
    have hname : (sessionGroup ++ "_CONFIG_STR" == "MARSH_MAX_SYMBOLIC_SIZE") = false := by
      decide +kernel
    have hvalue : env.value? (sessionGroup ++ "_CONFIG_STR") = none := by
      simp only [env, Environment.value?, List.lookup_cons, hname, List.lookup_nil]
    rw [Layers.inlineText, hvalue]
  have hsettings : ConfigLibrary.standard.settingsOf env sessionGroup
      = [(boundKey, .text text)] := by
    have hkey : Environment.key? sessionGroup "MARSH_MAX_SYMBOLIC_SIZE" = some boundKey := by
      decide +kernel
    show Environment.settings env sessionGroup = _
    simp only [env, Environment.settings, hkey, List.map_nil, List.not_mem_nil, if_false]
  have hpath : ConfigLibrary.standard.pathOf boundKey = ⟨boundKey, []⟩ := by decide +kernel
  have hload : (source.load .standard .listed sessionConfigName sessionGroup []).1
      = .ok [(boundKey, .text text)] := by
    rw [ConfigSource.load, hfile, hinline, hsettings, ConfigLibrary.layerOf, List.map_singleton,
      hpath]
    rfl
  refine ⟨_, hload, ?_⟩
  rw [HasBound, ← h]
  exact ⟨Setting.noConfusion, rfl⟩

namespace Session

section Configured

variable {lib : ConfigLibrary} {order : MergeOrder}

/-- `start engine configured` has the first positive one of `configured`, the bound of `engine` and
the default, with one warning for each of those before it. -/
theorem start_resolved (engine : Engine) (configured : Option Int64) :
    let candidates := configured.toList ++ [engine.maxSize, 1000]
    (start engine configured).1.engine = engine ∧
      candidates.find? (fun bound => 0 < bound) = some (start engine configured).1.bound ∧
      (start engine configured).2
        = (candidates.takeWhile fun bound => bound ≤ 0).map .nonPositiveBound := by
  intro candidates
  have hcandidates : candidates = (configured.toList ++ [engine.maxSize]) ++ [1000] := by
    rw [List.append_assoc]
    rfl
  have hfirst := firstPositive_eq (configured.toList ++ [engine.maxSize])
  rw [← hcandidates] at hfirst
  exact ⟨rfl, hfirst⟩

/-- If the configuration loads as `es`, `Session.configured` is `start` with
`configuredBound lib es`, or its error. -/
theorem configured_eq (engine : Engine) {source : ConfigSource} {es : Settings}
    (h : (source.load lib order sessionConfigName sessionGroup []).1 = .ok es) :
    ((Session.configured lib order engine source).result,
      (Session.configured lib order engine source).warnings)
      = match configuredBound lib es with
        | .error error => (.error error, [])
        | .ok bound => (.ok (start engine bound).1, (start engine bound).2) := by
  unfold Session.configured
  -- the notices of loading are told apart from the warnings of the session
  cases hsource : source.load lib order sessionConfigName sessionGroup [] with
  | mk loaded notices =>
    rw [hsource] at h
    obtain rfl : loaded = .ok es := h
    have hbind : (.ok es >>= configuredBound lib : Except ConfigError (Option Int64))
        = configuredBound lib es := rfl
    simp only [hbind]
    cases configuredBound lib es with
    | error error => rfl
    | ok bound => rfl

/-- If the configuration does not load, `Session.configured` fails with the same error. -/
theorem configured_of_load_error {engine : Engine} {source : ConfigSource} {error : ConfigError}
    (h : (source.load lib order sessionConfigName sessionGroup []).1 = .error error) :
    (Session.configured lib order engine source).result = .error error := by
  unfold Session.configured
  cases hsource : source.load lib order sessionConfigName sessionGroup [] with
  | mk loaded notices =>
    rw [hsource] at h
    obtain rfl : loaded = .error error := h
    rfl

/-- `Session.configured` fails as the configuration does not load, or fails with
`.nonPositiveBound n`, or is `start engine bound`. -/
theorem configured_cases (lib : ConfigLibrary) (order : MergeOrder) (engine : Engine)
    (source : ConfigSource) :
    ((¬ ∃ bound, source.Loads lib order bound) ∧
      ∃ error, (Session.configured lib order engine source).result = .error error) ∨
    (∃ n, source.Loads lib order (some n) ∧ n ≤ 0 ∧
      (Session.configured lib order engine source).result = .error (.nonPositiveBound n)) ∨
    ∃ bound, source.Loads lib order bound ∧ (∀ n ∈ bound, 0 < n) ∧
      (Session.configured lib order engine source).result = .ok (start engine bound).1 ∧
      (Session.configured lib order engine source).warnings = (start engine bound).2 := by
  cases hload : (source.load lib order sessionConfigName sessionGroup []).1 with
  | error error =>
    refine .inl ⟨?_, error, configured_of_load_error hload⟩
    rintro ⟨bound, es, hes, -⟩
    cases hload.symm.trans hes
  | ok es =>
    have hopening := configured_eq engine hload
    cases hbound : configuredBound lib es with
    | ok bound =>
      obtain ⟨hhas, hpos⟩ := configuredBound_eq_ok_iff.1 hbound
      rw [hbound] at hopening
      exact .inr (.inr ⟨bound, ⟨es, hload, hhas⟩, hpos, Prod.mk.inj hopening⟩)
    | error error =>
      -- the settings have a bound that is not positive, or one that is no integer
      have hrefused (bound : Option Int64) (hhas : HasBound lib es bound) :
          ∃ n ∈ bound, n ≤ 0 := by
        cases bound with
        | none =>
          have hok := configuredBound_eq_ok_iff.2 ⟨hhas, by simp⟩
          cases hbound.symm.trans hok
        | some n =>
          refine ⟨n, rfl, Int64.not_lt.1 ?_⟩
          intro hpos
          have hok := configuredBound_eq_ok_iff.2 ⟨hhas, by simpa using hpos⟩
          cases hbound.symm.trans hok
      rw [hbound] at hopening
      have herror := (Prod.mk.inj hopening).1
      by_cases hsome : ∃ n, HasBound lib es (some n)
      · obtain ⟨n, hhas⟩ := hsome
        obtain ⟨m, hm, hle⟩ := hrefused (some n) hhas
        obtain rfl : n = m := Option.some.inj hm
        have hnonpos := configuredBound_of_nonpos hhas hle
        rw [hbound] at hnonpos
        rw [Except.error.inj hnonpos] at herror
        exact .inr (.inl ⟨n, ⟨es, hload, hhas⟩, hle, herror⟩)
      · refine .inl ⟨?_, error, herror⟩
        rintro ⟨bound, es', hes', hhas⟩
        obtain rfl : es = es' := Except.ok.inj (hload.symm.trans hes')
        obtain ⟨n, hn, -⟩ := hrefused bound hhas
        obtain rfl : bound = some n := hn
        exact hsome ⟨n, hhas⟩

/-- `Session.configured` fails iff the configuration does not load, or loads with a bound that is not
positive: `source.Loads lib order (some n)` with `n ≤ 0`. -/
theorem configured_eq_error_iff (engine : Engine) (source : ConfigSource) :
    (∃ error, (Session.configured lib order engine source).result = .error error) ↔
      (¬ ∃ bound, source.Loads lib order bound) ∨ ∃ n, source.Loads lib order (some n) ∧ n ≤ 0 := by
  rcases configured_cases lib order engine source with
    ⟨hnone, herror⟩ | ⟨n, hloads, hn, herror⟩ | ⟨bound, hloads, hpos, hresult, -⟩
  · exact ⟨fun _ => .inl hnone, fun _ => herror⟩
  · exact ⟨fun _ => .inr ⟨n, hloads, hn⟩, fun _ => ⟨_, herror⟩⟩
  · constructor
    · rintro ⟨error, herror⟩
      cases hresult.symm.trans herror
    · rintro (hnone | ⟨n, hloads', hn⟩)
      · exact absurd ⟨bound, hloads⟩ hnone
      · exact absurd (hpos n (hloads.unique hloads')) (Int64.not_lt.2 hn)

/-- If the configuration `Loads` with a positive bound or with none, `Session.configured` is
`start engine bound`. -/
theorem configured_of_loads {engine : Engine} {source : ConfigSource} {bound : Option Int64}
    (h : source.Loads lib order bound) (hpos : ∀ n ∈ bound, 0 < n) :
    (Session.configured lib order engine source).result = .ok (start engine bound).1 ∧
      (Session.configured lib order engine source).warnings = (start engine bound).2 := by
  rcases configured_cases lib order engine source with
    ⟨hnone, -⟩ | ⟨n, hloads, hn, -⟩ | ⟨bound', hloads, -, hopening⟩
  · exact absurd ⟨bound, h⟩ hnone
  · exact absurd (hpos n (h.unique hloads)) (Int64.not_lt.2 hn)
  · rw [h.unique hloads]
    exact hopening

end Configured

/-- The ways to open a session over an engine. -/
inductive Opened (engine : Engine) : Session → Prop where
  /-- It is opened with a bound that is given, or with none. -/
  | start (configured : Option Int64) : Opened engine (Session.start engine configured).1
  /-- It is opened over a configuration. -/
  | configured {lib : ConfigLibrary} {order : MergeOrder} {source : ConfigSource} {s : Session}
      (h : (Session.configured lib order engine source).result = .ok s) : Opened engine s

/-- `Opened engine s` gives `0 < s.bound`. -/
theorem Opened.bound_pos {engine : Engine} {s : Session} (h : Opened engine s) : 0 < s.bound := by
  cases h with
  | start configured => exact firstPositive_pos _
  | @configured lib order source s h =>
    rcases configured_cases lib order engine source with
      ⟨-, error, herror⟩ | ⟨n, -, -, herror⟩ | ⟨bound, -, -, hresult, -⟩
    · cases h.symm.trans herror
    · cases h.symm.trans herror
    · rw [Except.ok.inj (h.symm.trans hresult)]
      exact firstPositive_pos _

end Session

/-! ## Structures -/

/-- Whether a warning is of a structure beyond its bound. -/
def Warning.isBeyondBound : Warning → Bool
  | nonPositiveBound _ => false
  | replayIgnored _ _ _ => false
  | assumptionFails _ => false
  | beyondBound _ _ _ => true

/-- `structureBuffer base bound count` warns with `.beyondBound base count bound` iff
`bound ≤ count`. -/
theorem Marking.filter_warnings_structureBuffer (replays : Replays) (base : String)
    (bound count : Int64) :
    ((structureBuffer base bound count).warnings replays).filter Warning.isBeyondBound
      = if bound ≤ count then [.beyondBound base count bound] else [] := by
  -- replays that are passed over and assumptions that fail are warned of in other words
  have hignored (name : String) (length : Nat) :
      (Recorder.ignored replays name length).filter Warning.isBeyondBound = [] := by
    unfold Recorder.ignored
    split
    · rfl
    · split
      · rfl
      · rfl
  have hfailing (assumptions : List Assumption) :
      (Recorder.failing assumptions).filter Warning.isBeyondBound = [] := by
    rw [Recorder.failing, List.filter_map]
    refine List.map_eq_nil_iff.2 (List.filter_eq_nil_iff.2 ?_)
    intro _ _
    simp [Warning.isBeyondBound]
  rw [Buffer.warnings, List.filter_append, List.filter_append, hignored, hfailing,
    List.nil_append, List.append_nil, structureBuffer]
  by_cases hbound : bound ≤ count
  · rw [if_pos hbound]
    rfl
  · rw [if_neg hbound]
    rfl

/-- A call that gives a table or a tuple has the recorder hold the `structureBuffer` of its size
word, and no other. -/
theorem Call.perform_eq_structure {memory : Allocator} {v v' : Value} {base : String}
    {max min : Int64} {s s' : Session}
    (h : (Call.sequence memory v base max min).perform s = (.ok v', s'))
    (hkind : v'.kind = .dict ∨ v'.kind = .tuple) :
    ∃ r count, s.engine = .recording r ∧ v'.size? = some count ∧
      s' = { s with
        engine := .recording (r.hold [Marking.structureBuffer base s.bound count]) } := by
  obtain ⟨r, hengine, -, haccept, rfl, rfl⟩ := perform_eq_ok h
  cases v with
  | dict used entries => exact ⟨r, _, hengine, rfl, rfl⟩
  | tuple word items => exact ⟨r, _, hengine, rfl, rfl⟩
  | _ =>
    -- the result of a call is of the kind of its value
    rcases hkind with hkind | hkind
    · cases hkind
    · cases hkind

namespace Script

/-- Runs compose to `s'.session.bound = s.session.bound`, which also holds before and after each of
their steps. -/
theorem composes_bound : Composes fun s ps s' =>
    s'.session.bound = s.session.bound ∧
      ∀ p ∈ ps, p.before.session.bound = s.session.bound ∧ p.after.session.bound = s.session.bound
    where
  refl s := ⟨rfl, by simp⟩
  trans {s s' s'' ps ps'} h h' := by
    refine ⟨h'.1.trans h.1, ?_⟩
    intro p hp
    rcases List.mem_append.1 hp with hp | hp
    · exact h.2 p hp
    · obtain ⟨hbefore, hafter⟩ := h'.2 p hp
      exact ⟨hbefore.trans h.1, hafter.trans h.1⟩
  perform s step := by
    refine ⟨bound_perform s step, ?_⟩
    intro p hp
    rw [List.mem_singleton.1 hp]
    exact ⟨rfl, bound_perform s step⟩
  told h := h
  region _ h := h

/-- If a marking gives a table or a tuple, its size word `count` is tracked, `⟨count, .ge,
0⟩` and `⟨count, .lt, bound⟩` are assumed for the `bound` of the session, and
`.beyondBound name count bound` is warned of iff `bound ≤ count`. -/
theorem perform_structure {s s' : State} {memory : Allocator} {slot name : String}
    {max min : Int64} {v : Value}
    (h : perform s (.markSequence memory slot name max min) = (.marked v, s'))
    (hkind : v.kind = .dict ∨ v.kind = .tuple) :
    let bound := s.session.bound
    ∃ count warnings, v.size? = some count ∧
      s'.session.engine.log = s.session.engine.log
        ++ [.tracked (BufferName.ofSize name).text (LittleEndian.ofInt64 count),
          .assumed ⟨count, .ge, 0⟩, .assumed ⟨count, .lt, bound⟩] ∧
      s'.session.engine.warnings = s.session.engine.warnings ++ warnings ∧
      warnings.filter Warning.isBeyondBound
        = if bound ≤ count then [.beyondBound name count bound] else [] := by
  intro bound
  obtain ⟨v₀, session, -, hmark, rfl⟩ := perform_eq_marked h
  have hcall := Call.perform_of_markSequence hmark
  obtain ⟨r, count, hengine, hcount, rfl⟩ := Call.perform_eq_structure hcall hkind
  let buffer := Marking.structureBuffer name bound count
  refine ⟨count, buffer.warnings r.replays, hcount, ?_, ?_,
    Marking.filter_warnings_structureBuffer r.replays name bound count⟩
  · -- the log and the warnings grow by those of the one buffer
    rw [hengine]
    rfl
  · rw [hengine]
    show r.warnings ++ [buffer].flatMap (Buffer.warnings r.replays) = _
    rw [List.flatMap_singleton]
    rfl

/-- **The bound of a session is positive, resolved in one order and constant.** `Session.start` with
a bound or with none has the first positive one of that, the bound of the engine and 1000, and each
candidate before it is warned of. `Session.configured` fails if the configuration is not loaded or
has a bound that is not positive, and else is as `start` with its bound. In every run from there all
states have this bound, and a marking that gives a table or a tuple with a count adds that the count
is at least zero and then that it is below the bound; it warns of a count beyond the bound exactly
if the second of these is false. -/
theorem bound_resolved :
    (∀ (engine : Engine) (configured : Option Int64),
      let candidates := configured.toList ++ [engine.maxSize, 1000]
      (Session.start engine configured).1.engine = engine ∧
        candidates.find? (fun bound => 0 < bound)
          = some (Session.start engine configured).1.bound ∧
        (Session.start engine configured).2
          = (candidates.takeWhile fun bound => bound ≤ 0).map .nonPositiveBound) ∧
    (∀ (lib : ConfigLibrary) (order : MergeOrder) (engine : Engine) (source : ConfigSource),
      ((∃ error, (Session.configured lib order engine source).result = .error error) ↔
        (¬ ∃ bound, source.Loads lib order bound) ∨ ∃ n, source.Loads lib order (some n) ∧ n ≤ 0) ∧
      ∀ bound, source.Loads lib order bound → (∀ n ∈ bound, 0 < n) →
        (Session.configured lib order engine source).result = .ok (Session.start engine bound).1 ∧
          (Session.configured lib order engine source).warnings = (Session.start engine bound).2) ∧
    ∀ (engine : Engine) (s : State) (stopsOnError : Bool) (steps : List Step),
      Session.Opened engine s.session →
      let bound := s.session.bound
      0 < bound ∧ (runAll s stopsOnError steps).2.2.session.bound = bound ∧
      ∀ p ∈ performedAll s stopsOnError steps,
        (p.before.session.bound = bound ∧ p.after.session.bound = bound) ∧
        (p.step = .bound → p.outcome = .bound bound) ∧
        ∀ memory slot name max min v, p.step = .markSequence memory slot name max min →
          p.outcome = .marked v → (v.kind = .dict ∨ v.kind = .tuple) →
          ∃ count warnings, v.size? = some count ∧
            p.after.session.engine.log = p.before.session.engine.log
              ++ [.tracked (BufferName.ofSize name).text (LittleEndian.ofInt64 count),
                .assumed ⟨count, .ge, 0⟩, .assumed ⟨count, .lt, bound⟩] ∧
            p.after.session.engine.warnings = p.before.session.engine.warnings ++ warnings ∧
            warnings.filter Warning.isBeyondBound
              = (if bound ≤ count then [.beyondBound name count bound] else []) ∧
            (bound ≤ count ↔ (⟨count, .lt, bound⟩ : Assumption).holds = false) := by
  refine ⟨Session.start_resolved, ?_, ?_⟩
  · intro lib order engine source
    exact ⟨Session.configured_eq_error_iff engine source,
      fun bound hloads hpos => Session.configured_of_loads hloads hpos⟩
  · intro engine s stopsOnError steps hopened bound
    obtain ⟨hafter, hall⟩ := composes_bound.runAll s stopsOnError steps
    refine ⟨hopened.bound_pos, hafter, fun p hp => ⟨hall p hp, ?_, ?_⟩⟩
    · intro hstep
      rw [Performed.outcome, hstep, perform, (hall p hp).1]
    · intro memory slot name max min v hstep hmarked hkind
      have hperform :
          perform p.before (.markSequence memory slot name max min) = (.marked v, p.after) := by
        rw [Performed.outcome, hstep] at hmarked
        rw [Performed.after, hstep, ← hmarked]
      obtain ⟨count, warnings, hcount, hlog, hwarnings, hbeyond⟩ :=
        perform_structure hperform hkind
      rw [(hall p hp).1] at hlog hbeyond
      refine ⟨count, warnings, hcount, hlog, hwarnings, hbeyond, ?_⟩
      -- what the assumption asks for is the opposite of what is warned of
      rw [Assumption.holds, decide_eq_false_iff_not, Int64.not_lt]

/-- An engine with a negative bound. Its own bound and a given one of zero are passed over for the
default; a variable of the environment sets the bound to two. Over that, a tuple whose size is
replayed as two is beyond the bound. -/
theorem bound_resolved_variable :
    let engine : Engine :=
      .recording { maxSize := -5, replays := [("t.l#size", [2, 0, 0, 0, 0, 0, 0, 0])] }
    let source : ConfigSource := { files := {}, workDir := [],
                                   environment := [("MARSH_MAX_SYMBOLIC_SIZE", "2")] }
    let s : State := { session := (Session.start engine (some 2)).1 }
    let steps : List Step := [.bind "t" (.tupleOf [.none]), .markSequence .unlimited "t" "t" 0 0]
    ((Session.start engine (some 0)).1.bound = 1000 ∧
      (Session.start engine (some 0)).2 = [.nonPositiveBound 0, .nonPositiveBound (-5)]) ∧
    (source.Loads .standard .listed (some 2) ∧
      (Session.configured .standard .listed engine source).result = .ok s.session) ∧
    ∃ p ∈ performedAll s false steps, p.outcome = .marked (.tuple 2 [.none]) ∧
      p.after.session.engine.log = p.before.session.engine.log
        ++ [.tracked "t.l#size" [2, 0, 0, 0, 0, 0, 0, 0], .assumed ⟨2, .ge, 0⟩,
          .assumed ⟨2, .lt, 2⟩] ∧
      (⟨2, .lt, 2⟩ : Assumption).holds = false := by
  intro engine source s steps
  obtain ⟨hstart, hconfigured, hrun⟩ := bound_resolved
  have hloads : source.Loads .standard .listed (some 2) :=
    ConfigSource.loads_of_variable (by decide +kernel)
  obtain ⟨-, hopens⟩ := hconfigured .standard .listed engine source
  have hpos (n : Int64) (hn : n ∈ some 2) : 0 < n := by
    cases hn
    decide
  have hresult := (hopens (some 2) hloads hpos).1
  obtain ⟨-, hfound, hwarned⟩ := hstart engine (some 0)
  obtain ⟨-, -, hsteps⟩ := hrun engine s false steps (.configured hresult)
  let p : Performed :=
    ⟨(run s (.bind "t" (.tupleOf [.none]))).2, .markSequence .unlimited "t" "t" 0 0⟩
  have hp : p ∈ performedAll s false steps := by
    have hperformed : performedAll s false steps = [⟨s, .bind "t" (.tupleOf [.none])⟩, p] := rfl
    rw [hperformed]
    exact List.mem_cons_of_mem _ List.mem_cons_self
  have houtcome : p.outcome = .marked (.tuple 2 [.none]) := rfl
  obtain ⟨count, warnings, hcount, hlog, -, -, hiff⟩ :=
    (hsteps p hp).2.2 .unlimited "t" "t" 0 0 _ rfl houtcome (.inr rfl)
  -- the size word that is read back is the replayed one
  obtain rfl : 2 = count := Option.some.inj hcount
  refine ⟨⟨(Option.some.inj hfound).symm, hwarned⟩, ⟨hloads, hresult⟩, p, hp, houtcome, hlog, ?_⟩
  exact hiff.1 (by decide)

end Script
end Concolic

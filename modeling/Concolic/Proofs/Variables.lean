import Concolic.Proofs.Rulings
import Mathlib.Data.List.TakeDrop

/-! # Variables that are settings

A variable of a group whose name spells words with two underscores between them gives the key in
which points stand between the words (`Environment.key?_of_spells`), and that key spells the path of
a nested key (`Environment.ofText?_words`). The settings of a group are the values of its variables,
one for each key (`Environment.exists_of_mem_settings`, `Environment.mem_settings_of_key?`), and a
variable that is taken away changes nothing at other keys (`Environment.settings_without`). -/

namespace Concolic

/-! ## Names that spell keys -/

namespace Environment

/-- `word` is one of the words that the name of a variable spells: it may stand in a key, and its
underscores are single and not at its end. -/
structure IsWord (word : String) : Prop where
  /-- There is something in it. -/
  nonempty : word.toList ≠ []
  /-- Its characters may stand in a key. -/
  keyChars : ∀ c ∈ word.toList, SettingPath.isKeyChar c = true
  /-- It has no two underscores in a row. -/
  single : pointed word.toList = word.toList
  /-- It does not end with an underscore. -/
  ending : word.toList.getLast? ≠ some '_'

instance (word : String) : Decidable (IsWord word) :=
  decidable_of_iff
    (word.toList ≠ [] ∧ word.toList.all SettingPath.isKeyChar = true ∧
      pointed word.toList = word.toList ∧ word.toList.getLast? ≠ some '_')
    ⟨fun ⟨hnonempty, hchars, hsingle, hending⟩ =>
      ⟨hnonempty, List.all_eq_true.1 hchars, hsingle, hending⟩,
    fun ⟨hnonempty, hchars, hsingle, hending⟩ =>
      ⟨hnonempty, List.all_eq_true.2 hchars, hsingle, hending⟩⟩

/-- `word` and `words` with two underscores between each two. -/
def joined (word : String) : List String → List Char
  | [] => word.toList
  | word' :: words => word.toList ++ '_' :: '_' :: joined word' words

/-- `name` spells the nested key of `word` and `words` in `group`: the group, an underscore and the
words with two underscores between each two, all in any case. -/
structure Spells (group name word : String) (words : List String) : Prop where
  /-- The key consists of words. -/
  isWord : ∀ w ∈ word :: words, IsWord w
  /-- In lower case the name consists of the group and the words. -/
  lower : lowercase name.toList = lowercase (group.toList ++ ['_']) ++ joined word words

/-- `word` and `words` with points between them. -/
def pointedKey (word : String) (words : List String) : String :=
  String.ofList (word.toList ++ words.flatMap fun w => '.' :: w.toList)

/-- The path of the nested key of `word` and `words`. -/
def nestedPath (word : String) (words : List String) : SettingPath := ⟨word, words.map .key⟩

/-- `pointed (c :: cs) = c :: pointed cs`, unless `c` is the first of two underscores. -/
theorem pointed_cons {c : Char} {cs : List Char} (h : ¬ (c = '_' ∧ cs.head? = some '_')) :
    pointed (c :: cs) = c :: pointed cs := by
  rw [pointed]
  rintro cs' rfl rfl
  exact h ⟨rfl, rfl⟩

/-- Behind `cs` that `pointed` leaves, two underscores become a point. -/
theorem pointed_append {cs : List Char} (hsingle : pointed cs = cs)
    (hending : cs.getLast? ≠ some '_') (rest : List Char) :
    pointed (cs ++ '_' :: '_' :: rest) = cs ++ '.' :: pointed rest := by
  induction cs with
  | nil => rfl
  | cons c cs ih =>
    -- two underscores in front would have become a point
    have hfirst : ¬ (c = '_' ∧ cs.head? = some '_') := by
      rintro ⟨rfl, hhead⟩
      obtain ⟨ds, rfl⟩ : ∃ ds, cs = '_' :: ds := by
        cases cs with
        | nil => cases hhead
        | cons d ds => exact ⟨ds, by rw [Option.some.inj hhead]⟩
      have hhead' := congrArg List.head? hsingle
      exact absurd hhead' (by simp [pointed])
    -- nor do the last character and the first underscore behind make two
    have hfirst' : ¬ (c = '_' ∧ (cs ++ '_' :: '_' :: rest).head? = some '_') := by
      cases cs with
      | nil =>
        rintro ⟨rfl, -⟩
        exact hending rfl
      | cons d cs => exact hfirst
    rw [pointed_cons hfirst] at hsingle
    rw [List.cons_append, pointed_cons hfirst', List.cons_append, ih (List.cons.inj hsingle).2]
    cases cs with
    | nil => simp
    | cons d cs => simpa using hending

/-- `pointed (joined word words)` has points between the words. -/
theorem pointed_joined {word : String} {words : List String}
    (h : ∀ w ∈ word :: words, IsWord w) :
    pointed (joined word words) = word.toList ++ words.flatMap fun w => '.' :: w.toList := by
  induction words generalizing word with
  | nil => simp [joined, (h word (by simp)).single]
  | cons word' words ih =>
    have hword := h word (by simp)
    rw [joined, pointed_append hword.single hword.ending, ih fun w hw => h w (.tail _ hw)]
    simp

/-- `readKey` reads `word` up to a character that cannot stand in a key. -/
theorem run_readKey {word : String} (h : IsWord word) {rest : List Char}
    (hrest : ∀ c ∈ rest.head?, SettingPath.isKeyChar c = false) :
    SettingPath.readKey.run (word.toList ++ rest) = some (word, rest) := by
  obtain ⟨c, cs, hcs⟩ := List.exists_cons_of_ne_nil h.nonempty
  have hchars := h.keyChars
  rw [hcs] at hchars
  obtain ⟨hc, hmore⟩ := List.forall_mem_cons.1 hchars
  -- the reading goes on as far as the word, and no farther
  have htake : (cs ++ rest).takeWhile SettingPath.isKeyChar = cs := by
    rw [List.takeWhile_append_of_pos hmore]
    cases rest with
    | nil => simp
    | cons d rest => simp [hrest d rfl]
  have hdrop : (cs ++ rest).dropWhile SettingPath.isKeyChar = rest := by
    rw [List.dropWhile_append_of_pos hmore]
    cases rest with
    | nil => rfl
    | cons d rest => simp [hrest d rfl]
  have hfirst : (Scan.satisfy SettingPath.isKeyChar).run (c :: (cs ++ rest))
      = some (c, cs ++ rest) := if_pos hc
  have hnext : (Scan.takeWhile SettingPath.isKeyChar).run (cs ++ rest) = some (cs, rest) := by
    simp [Scan.takeWhile, StateT.run, htake, hdrop]
  have hrun : (Scan.takeWhile1 SettingPath.isKeyChar).run (c :: (cs ++ rest))
      = some (c :: cs, rest) := by
    rw [Scan.takeWhile1, StateT.run_bind, hfirst]
    simp only [Option.bind_eq_bind, Option.bind_some, StateT.run_bind, hnext]
    rfl
  rw [hcs, List.cons_append, SettingPath.readKey, StateT.run_bind, hrun]
  simp only [Option.bind_eq_bind, Option.bind_some, ← hcs, String.ofList_toList]
  rfl

/-- `readStep` reads `.key word` from a point and `word`. -/
theorem run_readStep {word : String} (h : IsWord word) {rest : List Char}
    (hrest : ∀ c ∈ rest.head?, SettingPath.isKeyChar c = false) :
    SettingPath.readStep.run ('.' :: (word.toList ++ rest)) = some (.key word, rest) := by
  have hnext : Scan.next.run ('.' :: (word.toList ++ rest)) = some ('.', word.toList ++ rest) := rfl
  rw [SettingPath.readStep, StateT.run_bind, hnext]
  simp only [Option.bind_eq_bind, Option.bind_some, StateT.run_bind, run_readKey h hrest]
  rfl

/-- The text of the words behind the first one starts with no `isKeyChar`: it starts with a point,
or there is none. -/
theorem head?_points (words : List String) :
    ∀ c ∈ (words.flatMap fun w => '.' :: w.toList).head?, SettingPath.isKeyChar c = false := by
  cases words with
  | nil => simp
  | cons word words =>
    intro c hc
    obtain rfl : '.' = c := by simpa using hc
    decide

/-- `readStep` reads all `words` with points before them. -/
theorem manyUpTo_readStep {words : List String} (h : ∀ w ∈ words, IsWord w) {limit : Nat}
    (hlimit : words.length ≤ limit) :
    Scan.manyUpTo SettingPath.readStep limit (words.flatMap fun w => '.' :: w.toList)
      = (words.map .key, []) := by
  induction words generalizing limit with
  | nil =>
    cases limit with
    | zero => rfl
    | succ limit => rfl
  | cons word words ih =>
    obtain ⟨hword, hwords⟩ := List.forall_mem_cons.1 h
    obtain ⟨limit, rfl⟩ : ∃ n, limit = n + 1 := by
      cases limit with
      | zero => cases hlimit
      | succ n => exact ⟨n, rfl⟩
    rw [List.flatMap_cons, List.cons_append, Scan.manyUpTo, run_readStep hword (head?_points words)]
    simp only [ih hwords (Nat.le_of_succ_le_succ hlimit), List.map_cons]

/-- `words` with points before them have at least as many characters. -/
theorem length_le_length_points (words : List String) :
    words.length ≤ (words.flatMap fun w => '.' :: w.toList).length := by
  induction words with
  | nil => exact Nat.le_refl _
  | cons word words ih =>
    simp only [List.length_cons, List.flatMap_cons, List.length_append]
    omega

/-- `SettingPath.ofText? (pointedKey word words) = some (nestedPath word words)`. -/
theorem ofText?_words {word : String} {words : List String} (h : ∀ w ∈ word :: words, IsWord w) :
    SettingPath.ofText? (pointedKey word words) = some (nestedPath word words) := by
  obtain ⟨hword, hwords⟩ := List.forall_mem_cons.1 h
  -- a point and a word are one step of a path
  have hmany : (Scan.many SettingPath.readStep).run (words.flatMap fun w => '.' :: w.toList)
      = some (words.map .key, []) := by
    cases words with
    | nil => rfl
    | cons word' words =>
      obtain ⟨hword', hwords'⟩ := List.forall_mem_cons.1 hwords
      rw [List.flatMap_cons, List.cons_append]
      have hfirst := run_readStep hword' (head?_points words)
      simp only [Scan.many, StateT.run] at hfirst ⊢
      rw [hfirst]
      simp only [manyUpTo_readStep hwords' (length_le_length_points words), List.map_cons]
  rw [SettingPath.ofText?, Scan.whole_eq_some_iff, pointedKey, String.toList_ofList,
    SettingPath.readPath,
    StateT.run_bind, run_readKey hword (head?_points words)]
  simp only [Option.bind_eq_bind, Option.bind_some, StateT.run_bind, hmany]
  rfl

/-- `Spells group name word words` gives `key? group name = some (pointedKey word words)`. -/
theorem key?_of_spells {group name word : String} {words : List String}
    (h : Spells group name word words) : key? group name = some (pointedKey word words) := by
  rw [key?, behind?_eq_some_iff.2 h.lower, Option.map_some, pointed_joined h.isWord, pointedKey]

/-- A text that is laid over `nestedPath word words` is given there. -/
theorem ruling_nestedPath (text word : String) (words : List String) :
    (nestedPath word words).ruling (.text text) (nestedPath word words) = .given (.text text) := by
  rw [SettingPath.ruling, if_pos rfl, nestedPath]
  induction words with
  | nil => rfl
  | cons word' words ih =>
    rw [List.map_cons, SettingPath.rulingAlong, if_pos rfl]
    exact ih

/-! ## The settings of a group -/

/-- If `(key, s) ∈ env.settings group`, then `s` is the text of a variable `v` with
`key? group v.1 = some key`. -/
theorem exists_of_mem_settings {env : Environment} {group key : String} {s : Setting}
    (h : (key, s) ∈ env.settings group) :
    ∃ v ∈ env, key? group v.1 = some key ∧ s = .text v.2 := by
  induction env with
  | nil => cases h
  | cons v env ih =>
    have hrest (h : (key, s) ∈ settings env group) :
        ∃ v' ∈ v :: env, key? group v'.1 = some key ∧ s = .text v'.2 := by
      obtain ⟨v', hmem, hkey⟩ := ih h
      exact ⟨v', List.mem_cons_of_mem v hmem, hkey⟩
    rw [settings] at h
    split at h
    · exact hrest h
    · rename_i key' hkey'
      split at h
      · exact hrest h
      · rcases List.mem_cons.1 h with heq | h
        · obtain ⟨rfl, rfl⟩ := Prod.mk.inj heq
          exact ⟨v, List.mem_cons_self, hkey', rfl⟩
        · exact hrest h

/-- If `v ∈ env` and `key? group v.1 = some key`, then `env.settings group` has a setting at
`key`. -/
theorem mem_settings_of_key? {env : Environment} {group key : String} {v : String × String}
    (hmem : v ∈ env) (hkey : key? group v.1 = some key) : ∃ s, (key, s) ∈ env.settings group := by
  induction env with
  | nil => cases hmem
  | cons v' env ih =>
    rw [settings]
    rcases List.mem_cons.1 hmem with rfl | hmem
    · rw [hkey]
      dsimp only
      -- a later variable with the key has the setting, or else this one
      by_cases hthere : key ∈ (settings env group).map Prod.fst
      · rw [if_pos hthere]
        obtain ⟨⟨_, s⟩, hs, rfl⟩ := List.mem_map.1 hthere
        exact ⟨s, hs⟩
      · rw [if_neg hthere]
        exact ⟨_, List.mem_cons_self⟩
    · obtain ⟨s, hs⟩ := ih hmem
      split
      · exact ⟨s, hs⟩
      · split
        · exact ⟨s, hs⟩
        · exact ⟨s, List.mem_cons_of_mem _ hs⟩

/-- `env` without the variables of `name`. -/
def without (env : Environment) (name : String) : Environment := env.filter fun v => v.1 != name

/-- `(env.without name).value? name = none`. -/
theorem value?_without (env : Environment) (name : String) :
    (env.without name).value? name = none := by
  rw [value?, without, List.lookup_eq_none_iff]
  intro v hv
  have hne : v.1 ≠ name := by simpa using (List.mem_filter.1 hv).2
  simpa using hne.symm

/-- `group ++ "_CONFIG_STR"` spells the key `config_str`. -/
theorem spells_inline (group : String) : Spells group (group ++ "_CONFIG_STR") "config_str" [] := by
  constructor
  · intro w hw
    obtain rfl := List.mem_singleton.1 hw
    decide
  · have hword : lowercase "CONFIG_STR".toList = "config_str".toList := by decide +kernel
    have hchars : (group ++ "_CONFIG_STR").toList
        = (group.toList ++ ['_']) ++ "CONFIG_STR".toList := by simp
    rw [hchars, lowercase, List.flatMap_append, ← lowercase, ← lowercase, hword]
    rfl

/-- `es` without the settings at `key`. -/
def otherThan (key : String) (es : Settings) : Settings := es.filter fun e => e.1 != key

/-- `v` gives a setting at its key, unless a later variable does or the key is the one that is left
out. -/
theorem otherThan_settings_cons (key group : String) (v : String × String) (env : Environment) :
    otherThan key (settings (v :: env) group)
      = match key? group v.1 with
        | none => otherThan key (env.settings group)
        | some key' =>
          if key' = key ∨ key' ∈ (otherThan key (env.settings group)).map Prod.fst then
            otherThan key (env.settings group)
          else (key', .text v.2) :: otherThan key (env.settings group) := by
  rw [settings]
  cases key? group v.1 with
  | none => rfl
  | some key' =>
    dsimp only
    have hthere : key' ∈ (otherThan key (env.settings group)).map Prod.fst
        ↔ key' ∈ (env.settings group).map Prod.fst ∧ key' ≠ key := by
      simp [otherThan]
    -- whether the variable counts depends on the later ones, and these are other than `key` or not
    by_cases hlater : key' ∈ (env.settings group).map Prod.fst
    · have hcount : key' = key ∨ key' ∈ (otherThan key (env.settings group)).map Prod.fst :=
        or_iff_not_imp_left.2 fun hkey => hthere.2 ⟨hlater, hkey⟩
      rw [if_pos hlater, if_pos hcount]
    · rw [if_neg hlater]
      by_cases hkey : key' = key
      · rw [if_pos (.inl hkey)]
        exact List.filter_cons_of_neg (by simp [hkey])
      · rw [if_neg (not_or.2 ⟨hkey, fun h => hlater (hthere.1 h).1⟩)]
        exact List.filter_cons_of_pos (by simp [hkey])

/-- `env.without name` has the settings of `env` at all keys other than that of `name`. -/
theorem settings_without {group name key : String} (h : key? group name = some key)
    (env : Environment) :
    otherThan key ((env.without name).settings group) = otherThan key (env.settings group) := by
  induction env with
  | nil => rfl
  | cons v env ih =>
    rw [otherThan_settings_cons]
    by_cases hname : v.1 = name
    · rw [without, List.filter_cons_of_neg (by simpa using hname), ← without, ih, hname, h]
      exact (if_pos (.inl rfl)).symm
    · rw [without, List.filter_cons_of_pos (by simpa using hname), ← without,
        otherThan_settings_cons, ih]

end Environment

end Concolic

import Concolic.Json.Reader
import Concolic.Json.Writer
import Concolic.Proofs.Renderings

/-! # Written JSON is read back

A value without doubles, its integers within the range of words and its containers not nested too
deep (`Json.Plain`), is written as a text that is read back as this value, whatever its strings and
keys hold (`Json.read_write`). The reader works through the text with the containers that it is
inside of, so what is proved of a value is said of any such containers and of any text behind it
(`Json.ReadBack`). -/

namespace Concolic
namespace Json

/-- Values that the reader takes back: there are no doubles, integers are words, and at most `n`
containers are nested. -/
inductive Plain : Nat → Json → Prop where
  | null {n : Nat} : Plain n .null
  | bool {n : Nat} (b : Bool) : Plain n (.bool b)
  | int {n : Nat} {z : Int} (hlow : Int64.minValue.toInt ≤ z) (hhigh : z < UInt64.size) :
      Plain n (.int z)
  | string {n : Nat} (text : String) : Plain n (.string text)
  | array {n : Nat} {items : List Json} (h : ∀ v ∈ items, Plain n v) :
      Plain (n + 1) (.array items)
  | object {n : Nat} {members : List (String × Json)} (h : ∀ m ∈ members, Plain n m.2) :
      Plain (n + 1) (.object members)

/-- `cs` starts with a character by which no number goes on. -/
def Stops (cs : List Char) : Prop :=
  ∃ c rest, cs = c :: rest ∧ digitValue? c = none ∧ c ≠ '.' ∧ c ≠ 'e' ∧ c ≠ 'E'

/-- Inside any containers that leave room for `n` more, reading the text of the value finishes the
value and leaves the text behind it. -/
def ReadBack (n : Nat) (v : Json) : Prop :=
  ∀ (depth : Nat) (frames : List Frame) (rest : List Char),
    frames.length + n < depthLimit → Stops rest →
      readValue .exact frames (pretty depth v ++ rest) = finish .exact frames v rest

/-! ## White space -/

section Gaps

variable {gap cs : List Char}

/-- `skipSpace (gap ++ cs) = skipSpace cs` for white space `gap`. -/
theorem skipSpace_append (h : ∀ c ∈ gap, isSpace c = true) :
    skipSpace (gap ++ cs) = skipSpace cs := by
  induction gap with
  | nil => rfl
  | cons c gap ih =>
    obtain ⟨hc, hgap⟩ := List.forall_mem_cons.1 h
    rw [List.cons_append, skipSpace, if_pos hc, ih hgap]

/-- `skipSpace (c :: cs) = c :: cs` if `c` is not white space. -/
theorem skipSpace_cons {c : Char} (h : isSpace c = false) : skipSpace (c :: cs) = c :: cs := by
  rw [skipSpace, if_neg (by simp [h])]

/-- `newLine depth` is white space. -/
theorem isSpace_newLine (depth : Nat) : ∀ c ∈ newLine depth, isSpace c = true := by
  intro c hc
  rcases List.mem_cons.1 hc with rfl | hc
  · rfl
  · rw [List.eq_of_mem_replicate hc]
    rfl

/-- `readValue mode frames (gap ++ cs) = readValue mode frames cs` for white space `gap`. -/
theorem readValue_append {mode : Mode} {frames : List Frame} (h : ∀ c ∈ gap, isSpace c = true) :
    readValue mode frames (gap ++ cs) = readValue mode frames cs := by
  rw [readValue_eq, skipSpace_append h, ← readValue_eq]

/-- `newLine depth` ends a number. -/
theorem stops_newLine (depth : Nat) : Stops (newLine depth ++ cs) :=
  ⟨'\n', _, rfl, rfl, by decide, by decide, by decide⟩

/-- `Stops (',' :: cs)`: a comma ends a number. -/
theorem stops_comma : Stops (',' :: cs) := ⟨',', _, rfl, rfl, by decide, by decide, by decide⟩

end Gaps

/-! ## Strings and numbers -/

/-- `quoteChar c` spells `c`. -/
theorem spelled_quoteChar (c : Char) : Spelled c (quoteChar c) := by
  unfold quoteChar
  split
  · rename_i hquote
    exact .short (by rw [hquote]; decide)
  · rename_i hquote
    split
    · rename_i hbackslash
      exact .short (by rw [hbackslash]; decide)
    · rename_i hbackslash
      split
      · rename_i letter hletter
        have hmem : (letter, c) ∈ shortEscapes := by
          unfold shortEscape? at hletter
          repeat' split at hletter
          all_goals cases hletter
          all_goals rename_i hc
          all_goals
            rw [hc]
            decide
        exact .short hmem
      · split
        · rename_i hcontrol
          -- a control character has two digits behind two zeros
          have hdigit : ∀ i : Fin 16, "0123456789abcdef".toList[i.val]? = some (hexDigit i) := by
            decide
          have hunit : CodeUnit (((0 * 16 + 0) * 16 + c.toNat / 16) * 16 + c.toNat % 16)
              ['0', '0', hexDigit (c.toNat / 16), hexDigit (c.toNat % 16)] :=
            .digits (.lower rfl) (.lower rfl) (.lower (hdigit ⟨c.toNat / 16, by omega⟩))
              (.lower (hdigit ⟨c.toNat % 16, by omega⟩))
          have hvalue : ((0 * 16 + 0) * 16 + c.toNat / 16) * 16 + c.toNat % 16 = c.toNat := by omega
          rw [hvalue] at hunit
          exact .unit hunit
        · rename_i hcontrol
          exact .raw hquote hbackslash (by omega)

/-- `readQuoted .exact` reads `cs` back from its quoted characters and a quote. -/
theorem readQuoted_quote (cs rest : List Char) :
    readQuoted .exact (cs.flatMap quoteChar ++ '"' :: rest) = .ok (cs, rest) := by
  have hspelling : Spelling cs (cs.flatMap quoteChar) := by
    induction cs with
    | nil => exact .nil
    | cons c cs ih => exact .cons (spelled_quoteChar c) ih
  exact readQuoted_of_spelling hspelling rest

/-- `quote cs` starts with a quote. -/
theorem quote_append (cs rest : List Char) :
    quote cs ++ rest = '"' :: (cs.flatMap quoteChar ++ '"' :: rest) := by
  rw [quote, List.cons_append, List.append_assoc, List.singleton_append]

/-- `Decimal.ofInt z` starts with a digit or a minus sign, and so as nothing else does. -/
theorem exists_ofInt_eq_cons (z : Int) :
    ∃ c cs, Decimal.ofInt z = c :: cs ∧ isSpace c = false ∧
      c ∉ ['[', ']', '\x7b', '"', 'n', 't', 'f'] ∧ (c = '-' ∨ (digitValue? c).isSome) := by
  cases z with
  | ofNat n =>
    have hdigit : ∀ i : Fin 10, isSpace (Char.ofNat (48 + i)) = false ∧
        Char.ofNat (48 + i) ∉ ['[', ']', '\x7b', '"', 'n', 't', 'f'] ∧
        (Char.ofNat (48 + i) = '-' ∨ (digitValue? (Char.ofNat (48 + i))).isSome) := by decide
    obtain ⟨d, ds, hdigits, -⟩ := exists_ofNat_eq_cons n
    exact ⟨_, ds, hdigits, hdigit ⟨d % 10, Nat.mod_lt d (by decide)⟩⟩
  | negSucc n => exact ⟨'-', _, rfl, by decide⟩

/-- `readNumber` reads `.int z` back from `Decimal.ofInt z`, if `z` is a word. -/
theorem readNumber_ofInt {z : Int} (hlow : Int64.minValue.toInt ≤ z) (hhigh : z < UInt64.size)
    {rest : List Char} (hrest : Stops rest) :
    readNumber (Decimal.ofInt z ++ rest) = .ok (.int z, rest) := by
  obtain ⟨c, rest, rfl, hc⟩ := hrest
  cases z with
  | ofNat n =>
    have hn : n < UInt64.size := by
      simp only [Int.ofNat_eq_natCast] at hhigh
      omega
    exact readNumber_ofNat hn hc rest
  | negSucc n =>
    have hnumeral : readNumeral .exact (Decimal.ofInt (.negSucc n) ++ c :: rest)
        = .ok (⟨true, n + 1, 0, true⟩, c :: rest) := readUnsigned_ofNat true (n + 1) hc rest
    -- the evaluation of the numeral is kept apart: its bounds are too large to compute with
    have hnumber : Numeral.number ⟨true, n + 1, 0, true⟩ = .ok (.int (.negSucc n)) := by
      have hsmall : Int64.minValue.toInt ≤ -((n + 1 : Nat) : Int) := by
        rw [Int.natCast_succ, ← Int.negSucc_eq]
        exact hlow
      rw [Numeral.number, if_neg (by simp), if_pos ⟨rfl, rfl, Nat.succ_pos n, hsmall⟩,
        Int.natCast_succ, ← Int.negSucc_eq]
    exact readNumber_of_readNumeral hnumeral hnumber

/-! ## Values -/

/-- If `Plain n v`, then `pretty depth v` starts with neither white space nor the end of an
array. -/
theorem Plain.exists_pretty_eq_cons {n : Nat} {v : Json} (h : Plain n v) (depth : Nat) :
    ∃ c cs, pretty depth v = c :: cs ∧ isSpace c = false ∧ c ≠ ']' := by
  -- by the kind of value, which its first character shows
  cases h with
  | null => exact ⟨'n', _, rfl, rfl, by decide⟩
  | bool b =>
    cases b with
    | true => exact ⟨'t', _, rfl, rfl, by decide⟩
    | false => exact ⟨'f', _, rfl, rfl, by decide⟩
  | @int _ z _ _ =>
    obtain ⟨c, cs, hz, hspace, hother, -⟩ := exists_ofInt_eq_cons z
    refine ⟨c, cs, by rw [pretty, hz], hspace, ?_⟩
    rintro rfl
    exact hother (by decide)
  | string text => exact ⟨'"', _, by rw [pretty, quote], rfl, by decide⟩
  | @array _ items _ =>
    cases items with
    | nil => exact ⟨'[', _, rfl, rfl, by decide⟩
    | cons v vs => exact ⟨'[', _, by simp only [pretty, List.cons_append]; rfl, rfl, by decide⟩
  | @object _ members _ =>
    cases members with
    | nil => exact ⟨'\x7b', _, rfl, rfl, by decide⟩
    | cons m ms => exact ⟨'\x7b', _, by simp only [pretty, List.cons_append]; rfl, rfl, by decide⟩

/-- What `readScalar .exact c cs` reads is the value of `c :: cs`, unless `c` starts a container. -/
theorem readValue_scalar {frames : List Frame} {c : Char} {cs rest : List Char} {v : Json}
    (hspace : isSpace c = false) (harray : c ≠ '[') (hobject : c ≠ '\x7b')
    (hread : readScalar .exact c cs = .ok (v, rest)) :
    readValue .exact frames (c :: cs) = finish .exact frames v rest := by
  rw [readValue_eq, skipSpace_cons hspace]
  simp only [if_neg harray, if_neg hobject, hread]

/-- `ReadBack n (.int z)` if `z` is a word. -/
theorem readBack_int {n : Nat} {z : Int} (hlow : Int64.minValue.toInt ≤ z)
    (hhigh : z < UInt64.size) : ReadBack n (.int z) := by
  intro depth frames rest _ hrest
  have hnumber := readNumber_ofInt hlow hhigh hrest
  obtain ⟨c, cs, hz, hspace, hother, hstart⟩ := exists_ofInt_eq_cons z
  simp only [List.mem_cons, List.not_mem_nil, or_false, not_or] at hother
  obtain ⟨harray, -, hobject, hquote, hn, ht, hf⟩ := hother
  rw [hz, List.cons_append] at hnumber
  rw [pretty, hz, List.cons_append]
  refine readValue_scalar hspace harray hobject ?_
  rw [readScalar, if_neg hquote, if_neg hn, if_neg ht, if_neg hf, if_pos hstart]
  simp only [hnumber]

/-- `ReadBack n (.string text)`. -/
theorem readBack_string {n : Nat} (text : String) : ReadBack n (.string text) := by
  intro depth frames rest _ _
  rw [pretty, quote_append]
  refine readValue_scalar rfl (by decide) (by decide) ?_
  rw [readScalar, if_pos rfl]
  simp only [readQuoted_quote, String.ofList_toList]

/-! ### Arrays -/

section Containers

variable {n : Nat} {frames : List Frame}

/-- `Stops` of the text of more items and the end of their line, which stands behind an item. -/
theorem stops_prettyItems (depth depth' : Nat) (vs : List Json) (rest : List Char) :
    Stops (prettyItems depth vs ++ (newLine depth' ++ rest)) := by
  cases vs with
  | nil => exact stops_newLine depth'
  | cons v vs =>
    simp only [prettyItems, List.cons_append]
    exact stops_comma

/-- If `ReadBack n w` for all items `w` of `vs`, then behind `v` the items `vs` are read back and
the array is finished. -/
theorem finish_prettyItems {vs : List Json} (hvs : ∀ w ∈ vs, ReadBack n w)
    (hroom : frames.length + (n + 1) < depthLimit) (depth depth' : Nat) (items : List Json)
    (v : Json) (rest : List Char) :
    finish .exact (.array items :: frames) v
        (prettyItems depth vs ++ (newLine depth' ++ ']' :: rest))
      = finish .exact frames (.array (items.reverse ++ v :: vs)) rest := by
  induction vs generalizing items v with
  | nil =>
    rw [prettyItems, List.nil_append, finish_cons_eq, skipSpace_append (isSpace_newLine depth'),
      skipSpace_cons rfl]
    simp only [Char.reduceEq, if_false, if_true, List.reverse_cons]
  | cons w ws ih =>
    -- the next item is read inside the array that has this one in front
    obtain ⟨hw, hws⟩ := List.forall_mem_cons.1 hvs
    have htext : prettyItems depth (w :: ws) ++ (newLine depth' ++ ']' :: rest)
        = ',' :: (newLine depth ++ (pretty depth w
            ++ (prettyItems depth ws ++ (newLine depth' ++ ']' :: rest)))) := by
      simp only [prettyItems, List.cons_append, List.append_assoc]
    have hroom' : (Frame.array (v :: items) :: frames).length + n < depthLimit := by
      rw [List.length_cons]
      omega
    rw [htext, finish_cons_eq, skipSpace_cons rfl]
    simp only [if_true]
    rw [readValue_append (isSpace_newLine depth),
      hw depth _ _ hroom' (stops_prettyItems depth depth' ws _), ih hws (v :: items) w,
      List.reverse_cons, List.append_assoc, List.singleton_append]

/-- `ReadBack (n + 1) (.array items)` if `ReadBack n v` for all plain `items`. -/
theorem readBack_array {items : List Json} (hplain : ∀ v ∈ items, Plain n v)
    (hitems : ∀ v ∈ items, ReadBack n v) : ReadBack (n + 1) (.array items) := by
  intro depth frames rest hroom _
  have henter : mayEnter .exact frames = true := by
    have hlt : frames.length + 1 < depthLimit := by omega
    simp [mayEnter, hlt]
  cases items with
  | nil =>
    rw [pretty, List.cons_append, readValue_eq, skipSpace_cons rfl]
    simp only [if_true, henter, List.cons_append, List.nil_append]
    rw [skipSpace_cons rfl]
    simp only [if_true]
  | cons v vs =>
    obtain ⟨hv, hvs⟩ := List.forall_mem_cons.1 hitems
    obtain ⟨c, cs, hc, hspace, hclose⟩ :=
      (hplain v List.mem_cons_self).exists_pretty_eq_cons (depth + 1)
    have htext : pretty depth (.array (v :: vs)) ++ rest
        = '[' :: (newLine (depth + 1) ++ (pretty (depth + 1) v
            ++ (prettyItems (depth + 1) vs ++ (newLine depth ++ ']' :: rest)))) := by
      simp only [pretty, List.cons_append, List.append_assoc, List.nil_append]
    have hroom' : (Frame.array [] :: frames).length + n < depthLimit := by
      rw [List.length_cons]
      omega
    -- behind the bracket comes no other, so a first item is read
    have hfirst (behind : List Char) : skipSpace (newLine (depth + 1) ++ (pretty (depth + 1) v
        ++ behind)) = c :: (cs ++ behind) := by
      rw [skipSpace_append (isSpace_newLine _), hc, List.cons_append, skipSpace_cons hspace]
    rw [htext, readValue_eq, skipSpace_cons rfl]
    simp only [if_true, henter, hfirst, if_neg hclose]
    rw [readValue_append (isSpace_newLine _),
      hv (depth + 1) _ _ hroom' (stops_prettyItems _ depth vs _),
      finish_prettyItems hvs hroom, List.reverse_nil, List.nil_append]

/-! ### Objects -/

/-- `Stops` of the text of more members and the end of their line, which stands behind a member. -/
theorem stops_prettyMembers (depth depth' : Nat) (ms : List (String × Json)) (rest : List Char) :
    Stops (prettyMembers depth ms ++ (newLine depth' ++ rest)) := by
  cases ms with
  | nil => exact stops_newLine depth'
  | cons m ms =>
    simp only [prettyMembers, List.cons_append]
    exact stops_comma

/-- Behind a quoted `key` and a colon `readMember` goes on to the value of the member. -/
theorem readMember_quote (members : List (String × Json)) (key : String) (cs : List Char) :
    readMember .exact frames members (key.toList.flatMap quoteChar ++ '"' :: ':' :: ' ' :: cs)
      = readValue .exact (.object members key :: frames) cs := by
  have hgap : ∀ c ∈ [' '], isSpace c = true := List.forall_mem_singleton.2 rfl
  rw [readMember_eq, readQuoted_quote]
  simp only
  rw [skipSpace_cons rfl]
  simp only [if_true, String.ofList_toList]
  exact readValue_append hgap

/-- If `ReadBack n m.2` for all members `m` of `ms`, then behind `v` the members `ms` are read back
and the object is finished. -/
theorem finish_prettyMembers {ms : List (String × Json)} (hms : ∀ m ∈ ms, ReadBack n m.2)
    (hroom : frames.length + (n + 1) < depthLimit) (depth depth' : Nat)
    (members : List (String × Json)) (key : String) (v : Json) (rest : List Char) :
    finish .exact (.object members key :: frames) v
        (prettyMembers depth ms ++ (newLine depth' ++ '\x7d' :: rest))
      = finish .exact frames (.object (members.reverse ++ (key, v) :: ms)) rest := by
  induction ms generalizing members key v with
  | nil =>
    rw [prettyMembers, List.nil_append, finish_cons_eq,
      skipSpace_append (isSpace_newLine depth'), skipSpace_cons rfl]
    simp only [Char.reduceEq, if_false, if_true, List.reverse_cons]
  | cons m ms ih =>
    -- the next member is read inside the object that has this one in front
    obtain ⟨hm, hrest⟩ := List.forall_mem_cons.1 hms
    obtain ⟨key', w⟩ := m
    have htext : prettyMembers depth ((key', w) :: ms) ++ (newLine depth' ++ '\x7d' :: rest)
        = ',' :: (newLine depth ++ (quote key'.toList ++ (':' :: ' ' :: (pretty depth w
            ++ (prettyMembers depth ms ++ (newLine depth' ++ '\x7d' :: rest)))))) := by
      simp only [prettyMembers, List.cons_append, List.append_assoc]
    have hroom' : (Frame.object ((key, v) :: members) key' :: frames).length + n < depthLimit := by
      rw [List.length_cons]
      omega
    rw [htext, finish_cons_eq, skipSpace_cons rfl]
    simp only [if_true]
    rw [skipSpace_append (isSpace_newLine depth), quote_append, skipSpace_cons rfl]
    simp only [if_true]
    rw [readMember_quote, hm depth _ _ hroom' (stops_prettyMembers depth depth' ms _),
      ih hrest ((key, v) :: members) key' w, List.reverse_cons, List.append_assoc,
      List.singleton_append]

/-- `ReadBack (n + 1) (.object members)` if `ReadBack n m.2` for all `members`. -/
theorem readBack_object {members : List (String × Json)}
    (hmembers : ∀ m ∈ members, ReadBack n m.2) : ReadBack (n + 1) (.object members) := by
  intro depth frames rest hroom _
  -- the depth of `n + 1` more levels is the room for one more frame
  have henter : mayEnter .exact frames = true := by
    have hlt : frames.length + 1 < depthLimit := by omega
    simp [mayEnter, hlt]
  cases members with
  | nil =>
    rw [pretty, List.cons_append, readValue_eq, skipSpace_cons rfl]
    simp only [Char.reduceEq, if_false, if_true, henter, List.cons_append, List.nil_append]
    rw [skipSpace_cons rfl]
    simp only [if_true]
  | cons m ms =>
    obtain ⟨hm, hms⟩ := List.forall_mem_cons.1 hmembers
    obtain ⟨key, v⟩ := m
    -- the text up to the first value, which is read in a frame of its own; the members behind it
    -- follow by `finish_prettyMembers`
    have htext : pretty depth (.object ((key, v) :: ms)) ++ rest
        = '\x7b' :: (newLine (depth + 1) ++ (quote key.toList ++ (':' :: ' ' ::
            (pretty (depth + 1) v
              ++ (prettyMembers (depth + 1) ms ++ (newLine depth ++ '\x7d' :: rest)))))) := by
      simp only [pretty, List.cons_append, List.append_assoc, List.nil_append]
    have hroom' : (Frame.object [] key :: frames).length + n < depthLimit := by
      rw [List.length_cons]
      omega
    rw [htext, readValue_eq, skipSpace_cons rfl]
    simp only [Char.reduceEq, if_false, if_true, henter]
    rw [skipSpace_append (isSpace_newLine _), quote_append, skipSpace_cons rfl]
    simp only [Char.reduceEq, if_false, if_true]
    rw [readMember_quote, hm (depth + 1) _ _ hroom' (stops_prettyMembers _ depth ms _),
      finish_prettyMembers hms hroom, List.reverse_nil, List.nil_append]

end Containers

/-! ## Texts -/

/-- `Plain n v` gives `ReadBack n v`. -/
theorem Plain.readBack {n : Nat} {v : Json} (h : Plain n v) : ReadBack n v := by
  -- on the value, whose items and members are read back with one container more around them
  induction h with
  | null =>
    intro depth frames rest _ _
    exact readValue_scalar rfl (by decide) (by decide) rfl
  | bool b =>
    intro depth frames rest _ _
    cases b with
    | true => exact readValue_scalar rfl (by decide) (by decide) rfl
    | false => exact readValue_scalar rfl (by decide) (by decide) rfl
  | int hlow hhigh => exact readBack_int hlow hhigh
  | string text => exact readBack_string text
  | array h ih => exact readBack_array h ih
  | object _ ih => exact readBack_object ih

/-- `Json.read (v.write ++ ['\n']) = .ok v` if `Plain n v` with `n` below the limit of the depth. -/
theorem read_write {n : Nat} (hn : n < depthLimit) {v : Json} (h : Plain n v) :
    Json.read (v.write ++ ['\n']) = .ok v := by
  have hroom : ([] : List Frame).length + n < depthLimit := by
    rw [List.length_nil]
    omega
  have hend : Stops ['\n'] := ⟨'\n', [], rfl, rfl, by decide, by decide, by decide⟩
  have hread : readValue .exact [] (v.write ++ ['\n']) = .ok (v, ['\n']) := by
    rw [write, h.readBack 0 [] ['\n'] hroom hend, finish]
  rw [Json.read, hread]
  rfl

end Json
end Concolic

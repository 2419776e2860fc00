import Concolic.Answers.Record
import Concolic.Proofs.Returns

/-! # Carriage returns behind answers

An answer is read from a text exactly if it is read from the text with a carriage return behind it
(`Answer.read_alike`). The members of an object are counted by the length of the text, so that one
more character is fuel for one more member; as each member uses text, that makes no difference. -/

namespace Concolic
namespace Answer

open Json

/-- `readText` reads `cs` and `withReturn cs` alike. -/
theorem readText_alike (cs : List Char) :
    Alike leaveReturn (readText cs) (readText (withReturn cs)) := by
  rw [readText, readText]
  refine skipSpace_elim cs (.error _ _) ?_
  intro c rest _
  dsimp only
  split
  · exact (readQuoted_alike .exact rest).elim Alike.error fun x => .read _ x.2
  · exact .error _ _

/-- `readByte` reads `cs` and `withReturn cs` alike. -/
theorem readByte_alike (cs : List Char) :
    Alike leaveReturn (readByte cs) (readByte (withReturn cs)) := by
  rw [readByte, readByte]
  refine skipSpace_elim cs (.error _ _) ?_
  intro c rest _
  dsimp only
  split
  · refine (readNumber_alike (c :: rest)).elim Alike.error ?_
    intro x
    obtain ⟨number, rest⟩ := x
    cases number with
    | int n =>
      dsimp only [leaveReturn]
      split
      · exact .read _ rest
      · exact .error _ _
    | float x => exact .error _ _
  · exact .error _ _

/-- `readMoreBytes` reads `cs` and `withReturn cs` alike, by induction on the length of `cs`. -/
theorem readMoreBytes_alike (cs : List Char) :
    Alike leaveReturn (readMoreBytes cs) (readMoreBytes (withReturn cs)) := by
  induction hn : cs.length using Nat.strongRecOn generalizing cs with
  | ind n ih =>
    rw [readMoreBytes_eq, readMoreBytes_eq]
    -- by induction on the length; the carriage return is white space and is skipped wherever it is
    -- met
    refine skipSpace_elim cs (.error _ _) ?_
    intro c rest hlength
    simp only [head?_skipSpace_withReturn]
    split
    · exact .read _ rest
    split
    · split
      · exact .error _ _
      · obtain ⟨⟨b, rest'⟩, hb, hb'⟩ | ⟨fault, fault', hb, hb'⟩ := readByte_alike rest
        · have hlength' := length_readByte_lt hb
          simp only [hb, hb', leaveReturn]
          exact (ih rest'.length (by omega) rest' rfl).elim Alike.error fun x => .read _ x.2
        · simp only [hb, hb']
          exact .error _ _
    · exact .error _ _

/-- `readBytes` reads `cs` and `withReturn cs` alike. -/
theorem readBytes_alike (cs : List Char) :
    Alike leaveReturn (readBytes cs) (readBytes (withReturn cs)) := by
  rw [readBytes, readBytes]
  refine skipSpace_elim cs (.error _ _) ?_
  intro c rest _
  dsimp only
  split
  · refine skipSpace_elim rest (.error _ _) ?_
    intro d rest' _
    dsimp only
    split
    · exact .read _ rest'
    · refine (readByte_alike rest).elim Alike.error ?_
      intro x
      obtain ⟨b, rest⟩ := x
      dsimp only [leaveReturn]
      exact (readMoreBytes_alike rest).elim Alike.error fun x => .read _ x.2
  · exact .error _ _

/-- `readPair` reads `cs` and `withReturn cs` alike. -/
theorem readPair_alike (cs : List Char) :
    Alike leaveReturn (readPair cs) (readPair (withReturn cs)) := by
  rw [readPair, readPair, head?_skipSpace_withReturn]
  split
  · exact .error _ _
  refine (readText_alike cs).elim Alike.error ?_
  intro x
  obtain ⟨name, rest⟩ := x
  dsimp only [leaveReturn]
  refine skipSpace_elim rest (.error _ _) ?_
  intro c rest _
  simp only [head?_skipSpace_withReturn]
  split
  · exact .error _ _
  split
  · split
    · exact .error _ _
    refine (readBytes_alike rest).elim Alike.error ?_
    intro x
    obtain ⟨bytes, rest⟩ := x
    dsimp only [leaveReturn]
    refine skipSpace_elim rest (.error _ _) ?_
    intro c rest _
    dsimp only
    split
    · exact .read _ rest
    · exact .error _ _
  · exact .error _ _

/-- `readColon` reads `cs` and `withReturn cs` alike. -/
theorem readColon_alike (cs : List Char) :
    Alike withReturn (readColon cs) (readColon (withReturn cs)) := by
  rw [readColon, readColon]
  refine skipSpace_elim cs (.error _ _) ?_
  intro c rest _
  dsimp only
  split
  · exact .ok rest
  · exact .error _ _

/-- `readMember` reads `cs` and `withReturn cs` alike, for unknown names as well. -/
theorem readMember_alike (m : Members) (key cs : List Char) :
    Alike leaveReturn (readMember m key cs) (readMember m key (withReturn cs)) := by
  rw [readMember, readMember]
  -- by the key: the name, the bytes, or a member that is not known
  split
  · split
    · exact .error _ _
    refine (readColon_alike cs).elim Alike.error ?_
    intro rest
    dsimp only
    exact (readText_alike rest).elim Alike.error fun x => .read _ x.2
  split
  · split
    · exact .error _ _
    refine (readColon_alike cs).elim Alike.error ?_
    intro rest
    dsimp only
    exact (readBytes_alike rest).elim Alike.error fun x => .read _ x.2
  · refine (readColon_alike cs).elim Alike.error ?_
    intro rest
    dsimp only
    exact (skipValue_alike rest).elim Alike.error (.read m)

/-! ## Lengths -/

/-- `readColon` uses at least one character. -/
theorem length_readColon_lt {cs rest : List Char} (h : readColon cs = .ok rest) :
    rest.length < cs.length := by
  unfold readColon at h
  split at h
  · cases h
  · rename_i hcs
    split at h
    · cases h
      exact length_lt_of_skipSpace hcs
    · cases h

/-- `readMoreBytes` leaves no more text than there is. -/
theorem length_readMoreBytes_le {cs rest : List Char} {bytes : List UInt8}
    (h : readMoreBytes cs = .ok (bytes, rest)) : rest.length ≤ cs.length := by
  induction hn : cs.length using Nat.strongRecOn generalizing cs bytes with
  | ind n ih =>
    rw [readMoreBytes_eq] at h
    -- every branch that does not give bytes contradicts `h`
    split at h
    · cases h
    rename_i c behind hcs
    have hbehind := length_lt_of_skipSpace hcs
    split at h
    · cases h
      omega
    split at h
    · split at h
      · cases h
      split at h
      · cases h
      rename_i b rest' hbyte
      have hrest := length_readByte_lt hbyte
      split at h
      · cases h
      rename_i hmore
      cases h
      have hlast := ih rest'.length (by omega) hmore rfl
      omega
    · cases h

/-- `readBytes` leaves no more text than there is. -/
theorem length_readBytes_le {cs rest : List Char} {bytes : List UInt8}
    (h : readBytes cs = .ok (bytes, rest)) : rest.length ≤ cs.length := by
  unfold readBytes at h
  split at h
  · cases h
  rename_i hcs
  have hbehind := length_lt_of_skipSpace hcs
  split at h
  · split at h
    · cases h
    rename_i hnext
    have hlength := length_lt_of_skipSpace hnext
    split at h
    · cases h
      omega
    split at h
    · cases h
    rename_i hbyte
    have hrest := length_readByte_lt hbyte
    split at h
    · cases h
    rename_i hmore
    cases h
    have hlast := length_readMoreBytes_le hmore
    omega
  · cases h

/-- `readMember` leaves no more text than there is. -/
theorem length_readMember_le {m m' : Members} {key cs rest : List Char}
    (h : readMember m key cs = .ok (m', rest)) : rest.length ≤ cs.length := by
  unfold readMember at h
  -- by the key: each reader behind the colon leaves less
  split at h
  · split at h
    · cases h
    split at h
    · cases h
    rename_i hcolon
    have hbehind := length_readColon_lt hcolon
    split at h
    · cases h
    rename_i hread
    cases h
    have hrest := length_readText_lt hread
    omega
  split at h
  · split at h
    · cases h
    split at h
    · cases h
    rename_i hcolon
    have hbehind := length_readColon_lt hcolon
    split at h
    · cases h
    rename_i hread
    cases h
    have hrest := length_readBytes_le hread
    omega
  · split at h
    · cases h
    rename_i hcolon
    have hbehind := length_readColon_lt hcolon
    split at h
    · cases h
    rename_i hskip
    cases h
    have hrest := length_skipValue_le hskip
    omega

/-! ## Objects and answers -/

/-- `readMembers` reads `cs` with `fuel` and `withReturn cs` with `fuel + 1` alike. -/
theorem readMembers_alike {fuel : Nat} (m : Members) {cs : List Char} (hfuel : cs.length ≤ fuel) :
    Alike leaveReturn (readMembers fuel m cs) (readMembers (fuel + 1) m (withReturn cs)) := by
  -- the text with the return is longer by one character, and so the fuel is by one step
  induction fuel generalizing m cs with
  | zero =>
    -- without characters both readings fail at once
    obtain rfl := List.length_eq_zero_iff.1 (Nat.le_zero.1 hfuel)
    obtain ⟨fault, hread⟩ := (readQuoted_alike .exact []).of_error (by rw [readQuoted])
    rw [readMembers, readMembers, hread]
    exact .error _ _
  | succ fuel ih =>
    rw [readMembers, readMembers]
    obtain ⟨⟨key, rest⟩, hkey, hkey'⟩ | ⟨fault, fault', hkey, hkey'⟩ := readQuoted_alike .exact cs
    · have hrest := length_readQuoted_lt hkey
      simp only [hkey, hkey', leaveReturn]
      obtain ⟨⟨m', behind⟩, hm, hm'⟩ | ⟨fault, fault', hm, hm'⟩ := readMember_alike m key rest
      · have hbehind := length_readMember_le hm
        simp only [hm, hm', leaveReturn]
        refine skipSpace_elim behind (.error _ _) ?_
        intro c next hnext
        dsimp only
        split
        · refine skipSpace_elim next (.error _ _) ?_
          intro d inner hinner
          dsimp only
          split
          · exact ih m' (by omega)
          · exact .error _ _
        split
        · cases m'.answer with
          | error fault => exact .error _ _
          | ok answer => exact .read answer next
        · exact .error _ _
      · simp only [hm, hm']
        exact .error _ _
    · simp only [hkey, hkey']
      exact .error _ _

/-- `readObject` reads `cs` and `withReturn cs` alike. -/
theorem readObject_alike (cs : List Char) :
    Alike leaveReturn (readObject cs) (readObject (withReturn cs)) := by
  rw [readObject, readObject]
  refine skipSpace_elim cs (.error _ _) ?_
  intro c rest _
  dsimp only
  split
  · exact .error _ _
  split
  · have hlength : (withReturn rest).length = rest.length + 1 := List.length_append
    rw [hlength]
    exact readMembers_alike {} (Nat.le_refl _)
  · exact .error _ _

/-- `Answer.read` reads the same answer from `cs` and `withReturn cs`, if it reads one. -/
theorem read_alike (cs : List Char) : Alike id (Answer.read cs) (Answer.read (withReturn cs)) := by
  rw [Answer.read, Answer.read]
  refine skipSpace_elim cs (.error _ _) ?_
  intro c rest _
  dsimp only
  -- the record in either form, which may leave the return behind
  have hfound : Alike leaveReturn
      (if c = '[' then readPair rest else if c = '\x7b' then readObject rest
        else .error (misfit c rest))
      (if c = '[' then readPair (withReturn rest) else if c = '\x7b' then
        readObject (withReturn rest) else .error (misfit c (withReturn rest))) := by
    split
    · exact readPair_alike rest
    split
    · exact readObject_alike rest
    · exact .error _ _
  refine hfound.elim Alike.error ?_
  intro x
  obtain ⟨answer, behind⟩ := x
  dsimp only [leaveReturn]
  exact (readEnd_alike behind).elim Alike.error fun _ => .ok answer

end Answer
end Concolic

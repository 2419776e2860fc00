import Concolic.Json.Reader

/-! # Answer records

An answer is a record of one line: the name of a buffer and the bytes found for it, as a JSON object
with the members `name` and `bytes`, or as an array of the two. Members of other names are passed
over. The text is read from the left and refused at the first fault: a value of another kind is
unexpected as soon as it is met, and so are a member given twice and, at the end of the object, one
that is missing. -/

namespace Concolic

/-- An answer of the engine. -/
structure Answer where
  /-- The name of the buffer. -/
  name : String
  /-- The bytes found for it. -/
  bytes : List UInt8
deriving DecidableEq, Repr

namespace Answer

open Json

/-- The fault of a value that is not of the wanted kind and whose first character is `c`. -/
def misfit (c : Char) (cs : List Char) : Fault :=
  if c = '[' ∨ c = '\x7b' then .unexpected
  else
    match readScalar .exact c cs with
    | .error fault => fault
    | .ok _ => .unexpected

/-- Reads a string. -/
def readText (cs : List Char) : Read String :=
  match skipSpace cs with
  | [] => .error .truncated
  | c :: rest =>
    if c = '"' then
      match readQuoted .exact rest with
      | .error fault => .error fault
      | .ok (text, rest) => .ok (String.ofList text, rest)
    else .error (misfit c rest)

/-- Reads a number from 0 to 255. -/
def readByte (cs : List Char) : Read UInt8 :=
  match skipSpace cs with
  | [] => .error .truncated
  | c :: rest =>
    if c = '-' ∨ (digitValue? c).isSome then
      match readNumber (c :: rest) with
      | .error fault => .error fault
      | .ok (.int n, rest) =>
        if 0 ≤ n ∧ n < 256 then .ok (UInt8.ofNat n.toNat, rest) else .error .unexpected
      | .ok (.float _, _) => .error .unexpected
    else .error (misfit c rest)

theorem length_readText_lt {cs rest : List Char} {text : String}
    (h : readText cs = .ok (text, rest)) : rest.length < cs.length := by
  have hspace := length_skipSpace_le cs
  unfold readText at h
  split at h
  · simp at h
  · rename_i hcs
    rw [hcs, List.length_cons] at hspace
    split at h
    · split at h
      · simp at h
      · rename_i hread
        simp only [Except.ok.injEq, Prod.mk.injEq] at h
        have := length_readQuoted_lt hread
        rw [← h.2]
        omega
    · simp at h

theorem length_readByte_lt {cs rest : List Char} {b : UInt8} (h : readByte cs = .ok (b, rest)) :
    rest.length < cs.length := by
  have hspace := length_skipSpace_le cs
  unfold readByte at h
  split at h
  · simp at h
  · rename_i hcs
    rw [hcs] at hspace
    split at h
    · -- only a number that is a byte is an answer, and its reader takes at least one character
      split at h
      · simp at h
      · rename_i hread
        have := length_readNumber_lt hread
        split at h
        · simp only [Except.ok.injEq, Prod.mk.injEq] at h
          rw [← h.2]
          omega
        · simp at h
      · simp at h
    · simp at h

/-! ## Bytes -/

/-- Reads the bytes of an array behind one of them. -/
def readMoreBytes (cs : List Char) : Read (List UInt8) :=
  match h : skipSpace cs with
  | [] => .error .truncated
  | c :: rest =>
    have hrest : rest.length < cs.length := by
      have := length_skipSpace_le cs
      rw [h, List.length_cons] at this
      omega
    if c = ']' then .ok ([], rest)
    else if c = ',' then
      -- a comma before the closing bracket is a fault of the text, whatever would be read there
      if (skipSpace rest).head? = some ']' then .error .malformed
      else
        match hb : readByte rest with
        | .error fault => .error fault
        | .ok (b, rest') =>
          have := length_readByte_lt hb
          match readMoreBytes rest' with
          | .error fault => .error fault
          | .ok (bytes, rest'') => .ok (b :: bytes, rest'')
    else .error .malformed
termination_by cs.length

/-- What `readMoreBytes` does, without the bound by which it ends. -/
theorem readMoreBytes_eq (cs : List Char) :
    readMoreBytes cs
      = match skipSpace cs with
        | [] => .error .truncated
        | c :: rest =>
          if c = ']' then .ok ([], rest)
          else if c = ',' then
            if (skipSpace rest).head? = some ']' then .error .malformed
            else
              match readByte rest with
              | .error fault => .error fault
              | .ok (b, rest) =>
                match readMoreBytes rest with
                | .error fault => .error fault
                | .ok (bytes, rest) => .ok (b :: bytes, rest)
          else .error .malformed := by
  -- the definition keeps equations for its termination; the cases of its matches are those here
  rw [readMoreBytes]
  split
  · rename_i hcs
    simp only [hcs]
  · rename_i hcs
    simp only [hcs]
    split
    · rfl
    · split
      · split
        · rfl
        · split
          · rename_i hb
            simp only [hb]
          · rename_i hb
            simp only [hb]
      · rfl

/-- Reads an array of bytes. -/
def readBytes (cs : List Char) : Read (List UInt8) :=
  match skipSpace cs with
  | [] => .error .truncated
  | c :: rest =>
    if c = '[' then
      match skipSpace rest with
      | [] => .error .truncated
      | d :: rest' =>
        if d = ']' then .ok ([], rest')
        else
          match readByte rest with
          | .error fault => .error fault
          | .ok (b, rest) =>
            match readMoreBytes rest with
            | .error fault => .error fault
            | .ok (bytes, rest) => .ok (b :: bytes, rest)
    else .error (misfit c rest)

/-! ## Records -/

/-- Reads an answer behind the bracket that opens its array. -/
def readPair (cs : List Char) : Read Answer :=
  -- too few items are a fault of the record, not of the text
  if (skipSpace cs).head? = some ']' then .error .unexpected
  else
    match readText cs with
    | .error fault => .error fault
    | .ok (name, rest) =>
      match skipSpace rest with
      | [] => .error .truncated
      | c :: rest =>
        if c = ']' then .error .unexpected
        else if c = ',' then
          -- but a comma with nothing behind it is one of the text
          if (skipSpace rest).head? = some ']' then .error .malformed
          else
            match readBytes rest with
            | .error fault => .error fault
            | .ok (bytes, rest) =>
              match skipSpace rest with
              | [] => .error .truncated
              | c :: rest => if c = ']' then .ok (⟨name, bytes⟩, rest) else .error .malformed
        else .error .malformed

/-- The members of an answer that have been read. -/
structure Members where
  /-- The member `name`. -/
  name : Option String := none
  /-- The member `bytes`. -/
  bytes : Option (List UInt8) := none

/-- The answer of an object whose end has been met. -/
def Members.answer (m : Members) : Except Fault Answer :=
  match m.name, m.bytes with
  | some name, some bytes => .ok ⟨name, bytes⟩
  | _, _ => .error .unexpected

/-- Reads the colon behind a key. -/
def readColon (cs : List Char) : Except Fault (List Char) :=
  match skipSpace cs with
  | [] => .error .truncated
  | c :: rest => if c = ':' then .ok rest else .error .malformed

/-- Reads a member behind its key. -/
def readMember (m : Members) (key : List Char) (cs : List Char) : Read Members :=
  if key = "name".toList then
    if m.name.isSome then .error .unexpected
    else
      match readColon cs with
      | .error fault => .error fault
      | .ok rest =>
        match readText rest with
        | .error fault => .error fault
        | .ok (name, rest) => .ok ({ m with name := some name }, rest)
  else if key = "bytes".toList then
    if m.bytes.isSome then .error .unexpected
    else
      match readColon cs with
      | .error fault => .error fault
      | .ok rest =>
        match readBytes rest with
        | .error fault => .error fault
        | .ok (bytes, rest) => .ok ({ m with bytes := some bytes }, rest)
  else
    -- a member that is not known may have any value
    match readColon cs with
    | .error fault => .error fault
    | .ok rest =>
      match skipValue rest with
      | .error fault => .error fault
      | .ok rest => .ok (m, rest)

/-- Reads the members of an object behind the quote that opens a key. Every member is shorter than
the text, whose length is a bound on their number. -/
def readMembers : (fuel : Nat) → (m : Members) → List Char → Read Answer
  | 0, _, _ => .error .truncated
  | fuel + 1, m, cs =>
    match readQuoted .exact cs with
    | .error fault => .error fault
    | .ok (key, rest) =>
      match readMember m key rest with
      | .error fault => .error fault
      | .ok (m, rest) =>
        match skipSpace rest with
        | [] => .error .truncated
        | c :: rest =>
          if c = ',' then
            match skipSpace rest with
            | [] => .error .truncated
            | d :: rest => if d = '"' then readMembers fuel m rest else .error .malformed
          else if c = '\x7d' then
            -- only at the end is it known whether a member is missing
            match m.answer with
            | .error fault => .error fault
            | .ok answer => .ok (answer, rest)
          else .error .malformed

/-- Reads an answer behind the brace that opens its object. -/
def readObject (cs : List Char) : Read Answer :=
  match skipSpace cs with
  | [] => .error .truncated
  | c :: rest =>
    if c = '\x7d' then .error .unexpected
    else if c = '"' then readMembers rest.length {} rest
    else .error .malformed

/-- Reads a text that holds one answer and nothing else. -/
def read (cs : List Char) : Except Fault Answer :=
  match skipSpace cs with
  | [] => .error .truncated
  | c :: rest =>
    let found :=
      if c = '[' then readPair rest
      else if c = '\x7b' then readObject rest
      else .error (misfit c rest)
    match found with
    | .error fault => .error fault
    | .ok (answer, rest) =>
      match readEnd rest with
      | .error fault => .error fault
      | .ok () => .ok answer

end Answer
end Concolic

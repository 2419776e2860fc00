import Concolic.Json.Numeral
import Concolic.Json.Quoted

/-! # Reading JSON values

A value is read with the containers that it is inside of, innermost first: a finished value is added
to the innermost container, and a finished container is the next finished value. Each step uses
text, so reading ends with the text (`Json.read`). -/

namespace Concolic
namespace Json

/-- A container that is being read, its parts so far in reverse. -/
inductive Frame where
  /-- An array with its items. -/
  | array (items : List Json)
  /-- An object with its members and the key of the one that is being read. -/
  | object (members : List (String × Json)) (key : String)

/-- The depth of nesting at which values are refused. -/
def depthLimit : Nat := 128

/-- Whether one more container may be entered. -/
def mayEnter (mode : Mode) (frames : List Frame) : Bool :=
  mode == .skim || frames.length + 1 < depthLimit

/-- Reads a value that is no container and whose first character is `c`. -/
def readScalar (mode : Mode) (c : Char) (cs : List Char) : Read Json :=
  if c = '"' then
    match readQuoted mode cs with
    | .error fault => .error fault
    | .ok (text, rest) => .ok (.string (String.ofList text), rest)
  else if c = 'n' then
    match readWord ['u', 'l', 'l'] cs with
    | .error fault => .error fault
    | .ok rest => .ok (.null, rest)
  else if c = 't' then
    match readWord ['r', 'u', 'e'] cs with
    | .error fault => .error fault
    | .ok rest => .ok (.bool true, rest)
  else if c = 'f' then
    match readWord ['a', 'l', 's', 'e'] cs with
    | .error fault => .error fault
    | .ok rest => .ok (.bool false, rest)
  else if c = '-' ∨ (digitValue? c).isSome then
    match mode with
    | .skim =>
      -- a number that is passed over need not be in the range of numbers
      match readNumeral .skim (c :: cs) with
      | .error fault => .error fault
      | .ok (_, rest) => .ok (.null, rest)
    | .exact =>
      match readNumber (c :: cs) with
      | .error fault => .error fault
      | .ok (.int n, rest) => .ok (.int n, rest)
      | .ok (.float x, rest) => .ok (.float x, rest)
  else .error .malformed

/-- `readScalar` leaves no more than what follows its first character `c`. -/
theorem length_readScalar_le {mode : Mode} {c : Char} {cs rest : List Char} {v : Json}
    (h : readScalar mode c cs = .ok (v, rest)) : rest.length ≤ cs.length := by
  unfold readScalar at h
  split at h
  · split at h
    · simp at h
    · rename_i hread
      simp only [Except.ok.injEq, Prod.mk.injEq] at h
      have := length_readQuoted_lt hread
      rw [← h.2]
      omega
  · -- `null`, `true` and `false` are read alike
    iterate 3
      split at h
      · split at h
        · simp at h
        · rename_i hread
          simp only [Except.ok.injEq, Prod.mk.injEq] at h
          exact h.2 ▸ length_readWord_le hread
    split at h
    · split at h
      · split at h
        · simp at h
        · rename_i hread
          simp only [Except.ok.injEq, Prod.mk.injEq] at h
          have := length_readNumeral_lt hread
          rw [← h.2]
          simp only [List.length_cons] at this
          omega
      · split at h
        · simp at h
        all_goals
          rename_i hread
          simp only [Except.ok.injEq, Prod.mk.injEq] at h
          have := length_readNumber_lt hread
          rw [← h.2]
          simp only [List.length_cons] at this
          omega
    · simp at h

mutual

/-- Reads a value inside the given containers, up to the end of the outermost. -/
def readValue (mode : Mode) (frames : List Frame) (cs : List Char) : Read Json :=
  match h : skipSpace cs with
  | [] => .error .truncated
  | c :: rest =>
    have hrest : rest.length < cs.length := by
      have := length_skipSpace_le cs
      rw [h, List.length_cons] at this
      omega
    if c = '[' then
      if mayEnter mode frames then
        match h' : skipSpace rest with
        | [] => .error .truncated
        | d :: rest' =>
          have hrest' : rest'.length < rest.length := by
            have := length_skipSpace_le rest
            rw [h', List.length_cons] at this
            omega
          if d = ']' then finish mode frames (.array []) rest'
          -- the first item is read from `rest`, which still has its first character `d`
          else readValue mode (.array [] :: frames) rest
      else .error .malformed
    else if c = '{' then
      if mayEnter mode frames then
        match h' : skipSpace rest with
        | [] => .error .truncated
        | d :: rest' =>
          have hrest' : rest'.length < rest.length := by
            have := length_skipSpace_le rest
            rw [h', List.length_cons] at this
            omega
          if d = '}' then finish mode frames (.object []) rest'
          else if d = '"' then readMember mode frames [] rest'
          else .error .malformed
      else .error .malformed
    else
      match hs : readScalar mode c rest with
      | .error fault => .error fault
      | .ok (v, rest') =>
        have := length_readScalar_le hs
        finish mode frames v rest'
termination_by cs.length

/-- Reads a member of an object behind the quote that opens its key. -/
def readMember (mode : Mode) (frames : List Frame) (members : List (String × Json))
    (cs : List Char) : Read Json :=
  match h : readQuoted mode cs with
  | .error fault => .error fault
  | .ok (key, rest) =>
    have hrest := length_readQuoted_lt h
    match h' : skipSpace rest with
    | [] => .error .truncated
    | c :: rest' =>
      have hrest' : rest'.length < rest.length := by
        have := length_skipSpace_le rest
        rw [h', List.length_cons] at this
        omega
      if c = ':' then readValue mode (.object members (String.ofList key) :: frames) rest'
      else .error .malformed
termination_by cs.length

/-- Goes on behind a finished value. -/
def finish (mode : Mode) (frames : List Frame) (v : Json) (cs : List Char) : Read Json :=
  match frames with
  | [] => .ok (v, cs)
  | frame :: frames =>
    match h : skipSpace cs with
    | [] => .error .truncated
    | c :: rest =>
      have hrest : rest.length < cs.length := by
        have := length_skipSpace_le cs
        rw [h, List.length_cons] at this
        omega
      -- `v` is an item or a member of the innermost container
      match frame with
      | .array items =>
        if c = ',' then readValue mode (.array (v :: items) :: frames) rest
        else if c = ']' then finish mode frames (.array (v :: items).reverse) rest
        else .error .malformed
      | .object members key =>
        if c = ',' then
          match h' : skipSpace rest with
          | [] => .error .truncated
          | d :: rest' =>
            have hrest' : rest'.length < rest.length := by
              have := length_skipSpace_le rest
              rw [h', List.length_cons] at this
              omega
            if d = '"' then readMember mode frames ((key, v) :: members) rest'
            else .error .malformed
        else if c = '}' then finish mode frames (.object ((key, v) :: members).reverse) rest
        else .error .malformed
termination_by cs.length

end

/-- What `readValue` does, without the bounds by which it ends. -/
theorem readValue_eq (mode : Mode) (frames : List Frame) (cs : List Char) :
    readValue mode frames cs
      = match skipSpace cs with
        | [] => .error .truncated
        | c :: rest =>
          if c = '[' then
            if mayEnter mode frames then
              match skipSpace rest with
              | [] => .error .truncated
              | d :: rest' =>
                if d = ']' then finish mode frames (.array []) rest'
                else readValue mode (.array [] :: frames) rest
            else .error .malformed
          else if c = '\x7b' then
            if mayEnter mode frames then
              match skipSpace rest with
              | [] => .error .truncated
              | d :: rest' =>
                if d = '\x7d' then finish mode frames (.object []) rest'
                else if d = '"' then readMember mode frames [] rest'
                else .error .malformed
            else .error .malformed
          else
            match readScalar mode c rest with
            | .error fault => .error fault
            | .ok (v, rest') => finish mode frames v rest' := by
  -- the definition keeps equations for its termination; the cases of its matches are those here
  rw [readValue]
  split
  · rename_i hcs
    simp only [hcs]
  · rename_i c rest hcs
    simp only [hcs]
    split
    · split
      · split
        · rename_i hrest
          simp only [hrest]
        · rename_i hrest
          simp only [hrest]
      · rfl
    · split
      · split
        · split
          · rename_i hrest
            simp only [hrest]
          · rename_i hrest
            simp only [hrest]
        · rfl
      · split
        · rename_i hread
          simp only [hread]
        · rename_i hread
          simp only [hread]

/-- What `readMember` does, without the bounds by which it ends. -/
theorem readMember_eq (mode : Mode) (frames : List Frame) (members : List (String × Json))
    (cs : List Char) :
    readMember mode frames members cs
      = match readQuoted mode cs with
        | .error fault => .error fault
        | .ok (key, rest) =>
          match skipSpace rest with
          | [] => .error .truncated
          | c :: rest =>
            if c = ':' then readValue mode (.object members (String.ofList key) :: frames) rest
            else .error .malformed := by
  rw [readMember]
  split
  · rename_i hkey
    simp only [hkey]
  · rename_i hkey
    simp only [hkey]
    split
    · rename_i hrest
      simp only [hrest]
    · rename_i hrest
      simp only [hrest]

/-- What `finish` does inside a container, without the bounds by which it ends. -/
theorem finish_cons_eq (mode : Mode) (frame : Frame) (frames : List Frame) (v : Json)
    (cs : List Char) :
    finish mode (frame :: frames) v cs
      = match skipSpace cs with
        | [] => .error .truncated
        | c :: rest =>
          match frame with
          | .array items =>
            if c = ',' then readValue mode (.array (v :: items) :: frames) rest
            else if c = ']' then finish mode frames (.array (v :: items).reverse) rest
            else .error .malformed
          | .object members key =>
            if c = ',' then
              match skipSpace rest with
              | [] => .error .truncated
              | d :: rest =>
                if d = '"' then readMember mode frames ((key, v) :: members) rest
                else .error .malformed
            else if c = '\x7d' then finish mode frames (.object ((key, v) :: members).reverse) rest
            else .error .malformed := by
  -- as for `readValue_eq`
  rw [finish]
  split
  · rename_i hcs
    simp only [hcs]
  · rename_i hcs
    simp only [hcs]
    split
    · rfl
    · split
      · split
        · rename_i hrest
          simp only [hrest]
        · rename_i hrest
          simp only [hrest]
      · rfl

/-- Reads a text that holds one value and nothing else. -/
def read (cs : List Char) : Except Fault Json :=
  match readValue .exact [] cs with
  | .error fault => .error fault
  | .ok (v, rest) =>
    match readEnd rest with
    | .error fault => .error fault
    | .ok () => .ok v

/-- Passes over the value at the front of a text. -/
def skipValue (cs : List Char) : Except Fault (List Char) :=
  match readValue .skim [] cs with
  | .error fault => .error fault
  | .ok (_, rest) => .ok rest

end Json
end Concolic

import Concolic.Config.Format.Yaml.Flow

/-! # Settings in YAML

Blocks of YAML are nested by the indentation of lines: the items of a sequence have dashes, and the
entries of a map have keys with colons. Behind a dash or a key a node may stand on the same line,
and the part of the line before it counts as indentation. -/

namespace Concolic
namespace Yaml

/-- What is left to read: lines, and the nodes with names so far. -/
structure Rest where
  /-- The lines that are left. -/
  lines : List (List Char)
  /-- The nodes with names, the latest first. -/
  names : Settings := []

/-- A reader of lines. -/
abbrev Block (α : Type) := StateT Rest Option α

namespace Block

/-! ## Lines -/

/-- The number of spaces at the front of a line. -/
def indentation (line : List Char) : Nat := (line.takeWhile (· == ' ')).length

/-- Whether a line holds blanks only. -/
def isEmptyLine (line : List Char) : Bool := line.all isBlankChar

/-- Whether a text is a comment behind blanks, or nothing. -/
def saysNothing (line : List Char) : Bool :=
  match line.dropWhile isBlankChar with
  | [] => true
  | c :: _ => c == '#'

/-- Passes over lines that say nothing. -/
def skipSilent : Block Unit := modify fun r => { r with lines := r.lines.dropWhile saysNothing }

/-- The next line, which stays in place. -/
def peekLine? : Block (Option (List Char)) := return (← get).lines.head?

/-- Puts other lines in place of those that are left. -/
def setLines (lines : List (List Char)) : Block Unit := modify fun r => { r with lines := lines }

/-- Passes over the next line. -/
def dropLine : Block Unit := modify fun r => { r with lines := r.lines.tail }

/-- Puts spaces in place of the first characters of the next line. -/
def clear (n : Nat) : Block Unit := modify fun r =>
  match r.lines with
  | [] => r
  | line :: lines => { r with lines := (List.replicate n ' ' ++ line.drop n) :: lines }

/-- The lines of a text. -/
def splitLines : List Char → List (List Char)
  | [] => [[]]
  | c :: cs =>
    if c = '\n' then [] :: splitLines cs
    else
      match splitLines cs with
      | [] => [[c]]
      | line :: lines => (c :: line) :: lines

/-- Reads from the front of the next line and over any number of lines; nothing but a comment may
stand behind on the last one. -/
def scan {α : Type} (p : Scan α) : Block α := do
  let text := List.intercalate ['\n'] (← get).lines
  let (a, rest) ← StateT.lift (p.run text)
  match splitLines rest with
  | [] => failure
  | tail :: lines =>
    if saysNothing tail then
      setLines lines
      return a
    else failure

/-! ## Scalars over lines -/

/-- The lines of a plain scalar behind the first, each with the number of ends of lines before
it. -/
def plainLines (least : Nat) : (breaks : Nat) → List (List Char) → List Char × List (List Char)
  | _, [] => ([], [])
  | breaks, line :: lines =>
    if isEmptyLine line then
      let (taken, rest) := plainLines least (breaks + 1) lines
      if taken.isEmpty then ([], line :: lines) else (taken, rest)
    else
      let text := line.dropWhile isBlankChar
      if indentation line < least ∨ text.head? = some '#' then ([], line :: lines)
      else
        match (plainSpan false true text) with
        | (span, []) =>
          let (taken, rest) := plainLines least 1 lines
          (foldedBreaks breaks ++ trimEnd span ++ taken, rest)
        | (span, '#' :: _) => (foldedBreaks breaks ++ trimEnd span, lines)
        | (_, _) => ([], line :: lines)

/-- A plain scalar whose lines behind the first are indented. -/
def plain (least : Nat) : Block (List Char) := do
  let (first, tail) ← (do
    match (← get).lines with
    | [] => failure
    | line :: lines =>
      let (first, tail) ← StateT.lift ((plainLine false).run (line.dropWhile isBlankChar))
      if saysNothing tail then
        setLines lines
        return (first, tail)
      else failure)
  if tail.isEmpty then
    let (more, rest) := plainLines least 1 (← get).lines
    setLines rest
    return first ++ more
  else return first

/-- The lines of a block scalar: those with the indentation, and empty ones. -/
def scalarLines (indent : Nat) : List (List Char) → List (List Char) × List (List Char)
  | [] => ([], [])
  | line :: lines =>
    if indent ≤ indentation line ∨ line.all (· == ' ') then
      let (taken, rest) := scalarLines indent lines
      (line.drop indent :: taken, rest)
    else ([], line :: lines)

/-- Folds lines: one end of a line between lines without more indentation is a space. `breaks` is
the number of ends of lines since the text before, and `deeper` whether that text is indented
more. -/
def foldLines : (started : Bool) → (deeper : Bool) → (breaks : Nat) → List (List Char) → List Char
  | _, _, _, [] => []
  | started, deeper, breaks, line :: lines =>
    if line.isEmpty then foldLines started deeper (breaks + 1) lines
    else
      let isDeeper := line.head? = some ' ' ∨ line.head? = some '\t'
      let joint :=
        if !started ∨ deeper ∨ isDeeper then List.replicate breaks '\n' else foldedBreaks breaks
      joint ++ line ++ foldLines true isDeeper 1 lines

/-- A scalar in lines of its own behind a bar, or folded behind an angle bracket. The line of the
mark may say how far the lines are indented, and what becomes of the ends of lines at the end. -/
def scalarBlock (least : Nat) : Block Setting := do
  match (← get).lines with
  | [] => failure
  | line :: lines =>
    let header := line.dropWhile isBlankChar
    let marks := header.tail.takeWhile fun c => c == '+' || c == '-' || c.isDigit
    let rest := header.tail.dropWhile fun c => c == '+' || c == '-' || c.isDigit
    let digits := marks.filter Char.isDigit
    if !saysNothing rest ∨ rest.head? = some '#' ∨ 2 < marks.length ∨ 1 < digits.length ∨
        digits = ['0'] then failure
    else
      -- without a digit in the header the first line that is not empty sets the indentation
      let found := (lines.dropWhile isEmptyLine).head?.elim 0 indentation
      let indent := ((Number.natural? 10 digits).map (least - 1 + ·)).getD (max found least)
      let (taken, left) := scalarLines indent lines
      setLines left
      -- the empty lines at the end are kept or left out as the header says
      let ending := (taken.reverse.takeWhile List.isEmpty).length
      let content := taken.take (taken.length - ending)
      let text :=
        if header.head? = some '|' then List.intercalate ['\n'] content
        else foldLines false false 0 content
      let closing :=
        if '-' ∈ marks then []
        else if '+' ∈ marks then
          List.replicate (ending + (if content.isEmpty then 0 else 1)) '\n'
        else if content.isEmpty then []
        else ['\n']
      return .text (String.ofList (text ++ closing))

/-! ## Nodes -/

/-- Whether a text starts an item of a sequence. -/
def startsItem : List Char → Bool
  | '-' :: cs => endsKey false cs
  | _ => false

/-- The key at the front of a text and the number of characters up to and with its colon. -/
def key? (text : List Char) : Option (Setting × Nat) :=
  let reader : Scan Setting := do
    let k ← (do return Setting.text (← quoted)) <|>
      (do return (ofPlain? (← plainLine false)).getD .nil)
    blanks
    Scan.char ':'
    return k
  match reader.run text with
  | some (k, rest) =>
    if endsKey false rest then some (k, text.length - rest.length) else none
  | none => none

/-- Keeps a node under a name. -/
def keep (name : Option String) (s : Setting) : Block Unit :=
  match name with
  | some n => modify fun r => { r with names := (n, s) :: r.names }
  | none => pure ()

mutual

/-- The node on the next lines that are indented by at least `least`; nothing if there are none. -/
def node : (fuel : Nat) → (least : Nat) → Block Setting
  | 0, _ => failure
  | fuel + 1, least => do
    skipSilent
    match ← peekLine? with
    | none => return .nil
    | some line =>
      let indent := indentation line
      if indent < least then return .nil
      else if startsItem (line.drop indent) then return .array (← items fuel indent)
      else if (key? (line.drop indent)).isSome then
        StateT.lift (table? (← members fuel indent))
      else inline fuel least

/-- The items of a sequence with their dashes at one indentation. -/
def items : (fuel : Nat) → (indent : Nat) → Block (List Setting)
  | 0, _ => failure
  | fuel + 1, indent => do
    skipSilent
    match ← peekLine? with
    | none => return []
    | some line =>
      if indentation line = indent ∧ startsItem (line.drop indent) then
        clear (indent + 1)
        let first ← node fuel (indent + 1)
        return first :: (← items fuel indent)
      else return []

/-- The members of a map with their keys at one indentation. -/
def members : (fuel : Nat) → (indent : Nat) → Block (List (Setting × Setting))
  | 0, _ => failure
  | fuel + 1, indent => do
    skipSilent
    match ← peekLine? with
    | none => return []
    | some line =>
      if indentation line ≠ indent then return []
      else
        match key? (line.drop indent) with
        | none => return []
        | some (key, size) =>
          clear (indent + size)
          let value ← memberValue fuel indent
          return (key, value) :: (← members fuel indent)

/-- The value of a member behind its key: on the same line, or on the next lines. -/
def memberValue : (fuel : Nat) → (indent : Nat) → Block Setting
  | 0, _ => failure
  | fuel + 1, indent => do
    match ← peekLine? with
    | none => return .nil
    | some line =>
      if saysNothing line then below fuel indent else inline fuel (indent + 1)

/-- The value of a member on the lines below its key. The dashes of a sequence need no more
indentation than the key. -/
def below : (fuel : Nat) → (indent : Nat) → Block Setting
  | 0, _ => failure
  | fuel + 1, indent => do
    dropLine
    skipSilent
    match ← peekLine? with
    | none => return .nil
    | some line =>
      if indentation line = indent ∧ startsItem (line.drop indent) then
        return .array (← items fuel indent)
      else node fuel (indent + 1)

/-- A node that starts on a line behind other text, or a scalar. -/
def inline : (fuel : Nat) → (least : Nat) → Block Setting
  | 0, _ => failure
  | fuel + 1, least => do
    match ← peekLine? with
    | none => failure
    | some line =>
      let text := line.dropWhile isBlankChar
      let ((name, tag), rest) ← StateT.lift (properties.run text)
      -- properties may be followed by their node in the lines below
      if name.isSome ∨ tag.isSome then clear (line.length - rest.length)
      let s ←
        match rest with
        | [] => if name.isSome ∨ tag.isSome then below fuel (least - 1) else failure
        | c :: _ =>
          if c = '#' then below fuel (least - 1)
          else if c = '|' ∨ c = '>' then scalarBlock least
          else if c = '"' ∨ c = '\'' then
            (do return Setting.text (← scan (do blanks; quoted)))
          else if c = '[' ∨ c = '\x7b' then
            (do
              let names := (← get).names
              scan (do blanks; flowNode names fuel))
          else if c = '*' then
            (do
              let names := (← get).names
              scan (do blanks; named? names))
          else (do StateT.lift (ofTagged? tag (← plain least)))
      keep name s
      return s

end

end Block

/-! ## Documents -/

/-- The text with a line feed at the end of each line. -/
def unifyBreaks : List Char → List Char
  | [] => []
  | '\r' :: '\n' :: cs => '\n' :: unifyBreaks cs
  | c :: cs => (if c = '\r' then '\n' else c) :: unifyBreaks cs

/-- Whether a line starts with a mark of three characters that stands alone. -/
def startsWithMark (mark line : List Char) : Bool :=
  mark.isPrefixOf line && endsKey false (line.drop 3)

/-- Whether lines outside of marks are a document: directives and comments are none. -/
def haveContent (lines : List (List Char)) : Bool :=
  lines.any fun line => !Block.saysNothing line && line.head? != some '%'

/-- The lines up to the first mark, and the documents behind it. -/
def splitDocuments : List (List Char) → List (List Char) × List (List (List Char))
  | [] => ([], [])
  | line :: lines =>
    let (current, later) := splitDocuments lines
    if startsWithMark ['-', '-', '-'] line then
      ([], ((List.replicate 3 ' ' ++ line.drop 3) :: current) :: later)
    else if startsWithMark ['.', '.', '.'] line then
      ([], if haveContent current then current :: later else later)
    else (line :: current, later)

/-- The documents of a text. -/
def documents (lines : List (List Char)) : List (List (List Char)) :=
  let (current, later) := splitDocuments lines
  if haveContent current then current :: later else later

/-- Reads a document. -/
def readDocument? (fuel : Nat) (lines : List (List Char)) : Option Setting := do
  let (s, rest) ← (do
    let s ← Block.node fuel 0
    Block.skipSilent
    return s : Block Setting).run { lines := lines }
  if rest.lines.isEmpty then some s else none

/-- Reads a configuration in YAML, which has one document at most. -/
def read? (cs : List Char) : Option Setting :=
  match documents (Block.splitLines (unifyBreaks cs)) with
  | [] => some (.table [])
  | [lines] => readDocument? (4 * cs.length + 4) lines
  | _ => none

end Yaml
end Concolic

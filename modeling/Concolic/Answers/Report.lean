import Concolic.Answers.Record
import Concolic.Assignments
import Concolic.FileTree
import Concolic.Text.Blank
import Concolic.Text.Joined
import Concolic.Text.Lines

/-! # Reports

A report reads the answers of a file, one to a line, into assignments. Blank lines are passed over.
A lenient report skips the lines that hold no answer that can be read, and notes and warns of each;
a strict one fails. Text that is not UTF-8 fails both. -/

namespace Concolic

/-- Why a line gives no answer. -/
inductive LineError where
  /-- The line is no UTF-8 text. -/
  | notText
  /-- The line is no record. -/
  | notRecord (fault : Json.Fault)
deriving DecidableEq, Repr

/-- The answer on `line`, or `none` for a blank line. -/
def readLine (line : List UInt8) : Option (Except LineError Answer) :=
  match Utf8.decode? line with
  | none => some (.error .notText)
  | some cs =>
    if isBlank cs then none
    else
      match Answer.read cs with
      | .ok answer => some (.ok answer)
      | .error fault => some (.error (.notRecord fault))

/-- The numbers and answers of the lines that are not blank; the first line has `number`. -/
def readLines (number : Nat) : List (List UInt8) → List (Nat × Except LineError Answer)
  | [] => []
  | line :: lines =>
    match readLine line with
    | none => readLines (number + 1) lines
    | some item => (number, item) :: readLines (number + 1) lines

/-- The answers in a file, with the numbers of their lines from one on. -/
def readRecords (bytes : List UInt8) : List (Nat × Except LineError Answer) :=
  readLines 1 (linesOf bytes)

/-- Why there is no report. -/
inductive ReportError where
  /-- A file cannot be read or written. -/
  | file (error : FileError)
  /-- A line holds no record. -/
  | record (line : Nat) (fault : Json.Fault)
  /-- An answer cannot be read. -/
  | decode (error : BufferError)
  /-- The text of the assignments cannot be written. -/
  | serialize (error : FileError)
deriving DecidableEq, Repr

/-- What the JSON reader says of the fault of the line with a number; the words are its own. -/
abbrev FaultWords := Nat → Json.Fault → String

namespace ReportError

/-- The error of a line. -/
def ofLine (number : Nat) : LineError → ReportError
  | .notText => file .notText
  | .notRecord fault => record number fault

/-- The error in words. -/
def message (words : FaultWords) : ReportError → String
  | file error => s!"I/O failure: {error.message}"
  | record line fault => s!"Invalid answer record at line {line}: {words line fault}"
  | decode error => s!"Failed to decode the answers: {error.message}"
  | serialize error => s!"Failed to write the assignments: {error.message}"

/-- The error behind this one, in words. -/
def cause (words : FaultWords) : ReportError → String
  | file error => error.message
  | record line fault => words line fault
  | decode error => error.message
  | serialize error => error.message

end ReportError

/-- What a report warns of. -/
inductive Notice where
  /-- A line was skipped because it holds no record. -/
  | skippedLine (line : Nat) (fault : Json.Fault)
  /-- An answer was skipped because it cannot be read. -/
  | skippedAnswer (name : String) (line : Nat) (error : BufferError)
  /-- Lines were skipped. -/
  | skippedLines (lines : List Nat)
deriving DecidableEq, Repr

/-- The notice in words. -/
def Notice.message (words : FaultWords) : Notice → String
  | skippedLine line fault => s!"Skipping line {line}: {words line fault}"
  | skippedAnswer name line error =>
    s!"Skipping the answer for `{name}` at line {line}: {error.message}"
  | skippedLines lines =>
    let numbers := ((Joined.ofList lines).render toString).1
    s!"Skipped {lines.length} malformed answers at lines: {numbers}"

/-- What the answers of a file come to. -/
structure Report where
  /-- The assignments of the answers that can be read. -/
  tree : Assignments := .empty
  /-- The numbers of the lines that were skipped. -/
  skipped : List Nat := []

namespace Report

/-- The report with one more skipped line. -/
def skip (r : Report) (line : Nat) : Report := { r with skipped := r.skipped ++ [line] }

/-! ## Strict reports -/

/-- The answers of all lines, or the error of the first line without one. -/
def answersOf : List (Nat × Except LineError Answer) → Except ReportError (List Answer)
  | [] => .ok []
  | (line, .error error) :: _ => .error (ReportError.ofLine line error)
  | (_, .ok answer) :: rest =>
    match answersOf rest with
    | .error error => .error error
    | .ok answers => .ok (answer :: answers)

/-- The report of a file in which every answer can be read. -/
def strict (bytes : List UInt8) : Except ReportError Report :=
  match answersOf (readRecords bytes) with
  | .error error => .error error
  | .ok answers =>
    match Assignments.write .empty (answers.map fun a => (a.name, a.bytes)) with
    | (.error error, _) => .error (.decode error)
    | (.ok _, tree) => .ok { tree := tree }

/-! ## Lenient reports -/

/-- The report of the lines behind those of `r`, and the notices of these lines. -/
def addLines (r : Report) :
    List (Nat × Except LineError Answer) → Except ReportError Report × List Notice
  | [] => (.ok r, [])
  | (_, .error .notText) :: _ => (.error (.file .notText), [])
  | (line, .error (.notRecord fault)) :: rest =>
    let (result, notices) := (r.skip line).addLines rest
    (result, .skippedLine line fault :: notices)
  | (line, .ok answer) :: rest =>
    match r.tree.decode answer.name answer.bytes with
    | (.ok (), tree) => { r with tree := tree }.addLines rest
    | (.error error, tree) =>
      let (result, notices) := ({ r with tree := tree }.skip line).addLines rest
      (result, .skippedAnswer answer.name line error :: notices)

/-- The report of a file, with the lines in `skipped` that hold no answer that can be read. -/
def lenient (bytes : List UInt8) : Except ReportError Report × List Notice :=
  addLines {} (readRecords bytes)

/-! ## Reports of files -/

/-- The report of a file, `strict` or `lenient`, and what it warns of. -/
def build (strict : Bool) (bytes : List UInt8) : Except ReportError Report × List Notice :=
  if strict then (Report.strict bytes, []) else lenient bytes

end Report

end Concolic

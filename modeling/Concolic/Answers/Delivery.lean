import Concolic.Answers.Printed
import Concolic.Answers.Report
import Concolic.FileTree

/-! # Deliveries

A request to decode reads the whole input, makes its report and then writes the assignments. It is
carried out by one definition over any system that can read, create and write files
(`DecodeRequest.execute` over a `Host`): the program runs it over the files of its machine, and
`DecodeRequest.run` over a tree of files, where what is left behind can be told. -/

namespace Concolic

/-- What to decode, and where to write it. -/
structure DecodeRequest where
  /-- The path of the answers. -/
  input : String
  /-- The path to write to; standard output if there is none. -/
  output : Option String
  /-- Whether the first malformed answer is an error. -/
  strict : Bool
deriving DecidableEq, Repr

/-! ## Hosts -/

/-- What a request asks of the system, which answers in the monad `m` and has outputs `O`. -/
structure Host (m : Type → Type) (O : Type) where
  /-- Reads the file at a path to the end. -/
  read (path : String) : m (Except FileError (List UInt8))
  /-- Creates the file at a path, empty, in place of one that is there. -/
  create (path : String) : m (Except FileError O)
  /-- The standard output. -/
  stdout : m O
  /-- Hands bytes over to an output, behind those handed over before. -/
  write (output : O) (bytes : List UInt8) : m (Except FileError Unit)
  /-- Waits until an output has all that was handed over. -/
  flush (output : O) : m (Except FileError Unit)
  /-- Warns of something. -/
  warn (notices : List Notice) : m Unit
  /-- Tells why a request failed. -/
  fail (error : ReportError) : m Unit

namespace DecodeRequest

section

variable {m : Type → Type} [Monad m] {O : Type}

/-- Asks for something that may fail; an error becomes `wrap error`. -/
def attempt {α : Type} (wrap : FileError → ReportError) (asked : m (Except FileError α)) :
    ExceptT ReportError m α :=
  ExceptT.mk do
    match ← asked with
    | .ok result => return .ok result
    | .error error => return .error (wrap error)

/-- The output at a path, created, or standard output if there is none. -/
def openOutput (host : Host m O) : Option String → ExceptT ReportError m O
  | some path => attempt .file (host.create path)
  | none => ExceptT.lift host.stdout

/-- Hands `tree` over to `output`: first its text, and then the end of the line. -/
def handOver (host : Host m O) (order : MemberOrder) (tree : Assignments) (output : O) :
    ExceptT ReportError m Unit := do
  attempt .serialize (host.write output (Utf8.encode (tree.json order).write))
  attempt .file (host.write output (Utf8.encode ['\n']))
  attempt .file (host.flush output)

/-- What is said of `r.skipped`, if there are any. -/
def summary (r : Report) : List Notice :=
  if r.skipped = [] then [] else [.skippedLines r.skipped]

/-- Reads the whole input, and writes the assignments only when there is a report. -/
def execute (host : Host m O) (order : MemberOrder) (q : DecodeRequest) :
    ExceptT ReportError m Report := do
  let bytes ← attempt .file (host.read q.input)
  let (result, notices) := Report.build q.strict bytes
  ExceptT.lift (host.warn notices)
  match result with
  | .error error => throw error
  | .ok r =>
    ExceptT.lift (host.warn (summary r))
    let output ← openOutput host q.output
    handOver host order r.tree output
    return r

end

end DecodeRequest

/-! ## Trees of files as hosts -/

/-- Where writing stops. -/
structure Stop where
  /-- The number of bytes that are in the output, of all that were handed over. -/
  reached : Nat
  /-- What the system says. -/
  error : FileError

/-- What the device behind an output makes of bytes: whether it stops there. -/
structure Device where
  /-- `bytes` are handed over behind `sent`. -/
  write (sent bytes : List UInt8) : Option Stop
  /-- All of `sent` has to reach the output. -/
  flush (sent : List UInt8) : Option Stop

/-- The device that takes all bytes. -/
def Device.steady : Device where
  write _ _ := none
  flush _ := none

/-- Files and outputs in the course of a request. -/
structure Desk where
  /-- The files. -/
  files : FileTree
  /-- The bytes on standard output. -/
  printed : List UInt8 := []
  /-- The bytes handed over to the output. -/
  sent : List UInt8 := []
  /-- What was warned of. -/
  notices : List Notice := []

/-- The desk with the content of an output set to `bytes`: the file at a place, or standard output
for `none`. -/
def Desk.fill (d : Desk) (output : Option Place) (bytes : List UInt8) : Desk :=
  match output with
  | some place => { d with files := d.files.put place (.file bytes) }
  | none => { d with printed := bytes }

/-- A tree of files as a host: what is written reaches a device. -/
def Device.host (device : Device) (workDir : Place) : Host (StateM Desk) (Option Place) where
  read path := fun d => (d.files.readPath workDir path, d)
  create path := fun d =>
    match d.files.target workDir path with
    | .error error => (.error error, d)
    | .ok place => (.ok (some place), d.fill (some place) [])
  stdout := fun d => (none, d)
  write output bytes := fun d =>
    let d' := { d with sent := d.sent ++ bytes }
    match device.write d.sent bytes with
    | some stop => (.error stop.error, d'.fill output (d'.sent.take stop.reached))
    | none => (.ok (), d')
  flush output := fun d =>
    match device.flush d.sent with
    | some stop => (.error stop.error, d.fill output (d.sent.take stop.reached))
    | none => (.ok (), d.fill output d.sent)
  warn notices := fun d => ((), { d with notices := d.notices ++ notices })
  fail _ := fun d => ((), d)

/-- What running a request leaves behind. -/
structure Delivery where
  /-- The report, or why there is none. -/
  result : Except ReportError Report
  /-- What was warned of. -/
  notices : List Notice
  /-- The files afterwards. -/
  files : FileTree
  /-- The bytes written to standard output. -/
  printed : List UInt8 := []

/-- Carries out a request over a tree of files. -/
def DecodeRequest.run (device : Device) (order : MemberOrder) (q : DecodeRequest) (t : FileTree)
    (workDir : Place) : Delivery :=
  let (result, d) := (q.execute (device.host workDir) order).run.run { files := t }
  ⟨result, d.notices, d.files, d.printed⟩

end Concolic

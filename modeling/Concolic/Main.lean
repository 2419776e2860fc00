import Concolic.CommandLine

/-! # The program

The files and outputs of the machine as a host, over which the tool runs. What is warned of and why
a run failed goes to standard error. -/

namespace Concolic
namespace CommandLine

/-- What the reader of records says of a fault. -/
def faultWords : FaultWords := fun _ fault =>
  match fault with
  | .malformed => "the text is not JSON"
  | .unexpected => "the value is no record"
  | .truncated => "the text ends too soon"

/-- The result of an action, or what the system says of its failure. -/
def attempted {α : Type} (action : IO α) : IO (Except FileError α) := do
  try
    let result ← action
    return .ok result
  catch error => return .error (.system (toString error))

/-- The machine as a host. -/
def machine : Host IO IO.FS.Stream where
  read path := attempted do
    let content ← IO.FS.readBinFile path
    return content.toList
  create path := attempted do
    let handle ← IO.FS.Handle.mk path .write
    return .ofHandle handle
  stdout := IO.getStdout
  write output bytes := attempted (output.write (ByteArray.mk bytes.toArray))
  flush output := attempted output.flush
  warn notices := notices.forM fun notice => IO.eprintln s!"warning: {notice.message faultWords}"
  fail error := IO.eprintln s!"error: {error.message faultWords}"

end CommandLine
end Concolic

/-- Runs the program on its arguments. -/
def main (args : List String) : IO UInt32 := do
  let status ← Concolic.CommandLine.program Concolic.CommandLine.machine .byKey
    Concolic.CommandLine.parse args
  return status.toUInt32

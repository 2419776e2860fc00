import Concolic.Answers.Delivery

/-! # The command line

Reading the arguments is left to a library (`ArgumentParser`): either they are a request to decode,
which is carried out, or the library says what to show instead and with which status to exit.

The parser `CommandLine.parse` knows one command, `decode`, with the options `--input` (`-i`),
`--output` (`-o`) and `--strict`. A value follows its option as the next argument, behind an equals
sign, or behind the letter. An option without a value yet is settled when the next option or the end
of the arguments is met, so of two faults the one met first is told, except that an unknown argument
is told at once. -/

namespace Concolic

/-- What a parser of arguments does where they are no request. -/
structure Refusal where
  /-- The exit status. -/
  status : Nat
  /-- What is written to standard output. -/
  printed : String
deriving DecidableEq, Repr

/-- A reader of the arguments behind the name of the program. -/
abbrev ArgumentParser := List String → Except Refusal DecodeRequest

/-- Why the arguments are no request. Help and version are asked for; the rest are mistakes. -/
inductive UsageError where
  /-- Help is asked for. -/
  | help
  /-- Help on `decode` is asked for. -/
  | decodeHelp
  /-- Help on `help` is asked for. -/
  | helpHelp
  /-- The version is asked for. -/
  | version
  /-- There is no command. -/
  | noCommand
  /-- There is no such command. -/
  | unknownCommand
  /-- There is no such argument. -/
  | unknownArgument
  /-- The input is not given. -/
  | missingInput
  /-- An option has no value, or an empty one. -/
  | missingValue
  /-- A value is given to an option that takes none. -/
  | unwantedValue
  /-- An option is given twice. -/
  | repeated
deriving DecidableEq, Repr

namespace UsageError

/-- The exit status: zero only where the text that is shown was asked for. -/
def status : UsageError → Nat
  | help => 0
  | decodeHelp => 0
  | helpHelp => 0
  | version => 0
  | noCommand => 2
  | unknownCommand => 2
  | unknownArgument => 2
  | missingInput => 2
  | missingValue => 2
  | unwantedValue => 2
  | repeated => 2

end UsageError

namespace CommandLine

/-- The options that take a path. -/
inductive PathOption where
  | input
  | output
deriving DecidableEq, Repr

/-- The path option of a letter. -/
def PathOption.ofLetter? (c : Char) : Option PathOption :=
  if c = 'i' then some input else if c = 'o' then some output else none

/-- The path option of a word. -/
def PathOption.ofWord? (word : String) : Option PathOption :=
  if word = "input" then some input else if word = "output" then some output else none

/-- The options of `decode` that have been read. -/
structure Options where
  /-- The path of the input. -/
  input : Option String := none
  /-- The path of the output. -/
  output : Option String := none
  /-- Whether the first malformed answer is an error. -/
  strict : Bool := false
  /-- The option that was read last, with the argument behind it, until it is settled. -/
  pending : Option (PathOption × Option String) := none
deriving DecidableEq, Repr

namespace Options

/-- The options with a path set, which can be done once and not to nothing. -/
def setPath (o : Options) (option : PathOption) (path : String) : Except UsageError Options :=
  match option with
  | .input =>
    if o.input.isSome then .error .repeated
    else if path = "" then .error .missingValue
    else .ok { o with input := some path }
  | .output =>
    if o.output.isSome then .error .repeated
    else if path = "" then .error .missingValue
    else .ok { o with output := some path }

/-- Settles the option that was read last. -/
def settle (o : Options) : Except UsageError Options :=
  match o.pending with
  | none => .ok o
  | some (_, none) => .error .missingValue
  | some (option, some path) => { o with pending := none }.setPath option path

/-- Reads a path option with the value attached to it, if there is one. -/
def readPath (o : Options) (option : PathOption) (attached : Option String) :
    Except UsageError Options :=
  match o.settle with
  | .error error => .error error
  | .ok o =>
    match attached with
    | some path => o.setPath option path
    | none => .ok { o with pending := some (option, none) }

/-- Reads the option that makes reports strict. -/
def readStrict (o : Options) : Except UsageError Options :=
  match o.settle with
  | .error error => .error error
  | .ok o => if o.strict then .error .repeated else .ok { o with strict := true }

/-- Shows help, unless the option that was read last is at fault. -/
def readHelp (o : Options) : Except UsageError Options :=
  match o.settle with
  | .error error => .error error
  | .ok _ => .error .decodeHelp

/-- Reads a word behind two dashes, with the text behind its equals sign. -/
def readWord (o : Options) (word : String) (attached : Option String) :
    Except UsageError Options :=
  match PathOption.ofWord? word with
  | some option => o.readPath option attached
  | none =>
    if word = "strict" then
      if attached.isSome then .error .unwantedValue else o.readStrict
    else if word = "help" then
      if attached.isSome then .error .unwantedValue else o.readHelp
    else .error .unknownArgument

/-- Reads a letter behind one dash, with the text behind it. -/
def readLetter (o : Options) (letter : Char) (behind : List Char) : Except UsageError Options :=
  match PathOption.ofLetter? letter with
  | some option =>
    match behind with
    | [] => o.readPath option none
    | c :: cs => o.readPath option (some (String.ofList (if c = '=' then cs else c :: cs)))
  | none => if letter = 'h' then o.readHelp else .error .unknownArgument

/-- Reads an argument that is no option: the value of the option before it. -/
def readValue (o : Options) (arg : String) : Except UsageError Options :=
  match o.pending with
  | some (option, none) => .ok { o with pending := some (option, some arg) }
  | _ => .error .unknownArgument

/-- The request that the options make. -/
def request (o : Options) : Except UsageError DecodeRequest :=
  match o.settle with
  | .error error => .error error
  | .ok o =>
    match o.input with
    | none => .error .missingInput
    | some input => .ok ⟨input, o.output, o.strict⟩

end Options

/-- What an argument looks like. -/
inductive Shape where
  /-- Two dashes alone: no option follows. -/
  | endOfOptions
  /-- Two dashes and a word, with the text behind its equals sign. -/
  | word (word : String) (attached : Option String)
  /-- One dash and a letter, with the text behind it. -/
  | letter (letter : Char) (behind : List Char)
  /-- Anything else. -/
  | plain

/-- The text before the first equals sign, and the text behind it. -/
def splitEquals : List Char → List Char × Option (List Char)
  | [] => ([], none)
  | c :: cs =>
    if c = '=' then ([], some cs)
    else
      let (word, attached) := splitEquals cs
      (c :: word, attached)

/-- What an argument looks like. A dash alone is no option. -/
def shapeOf (arg : String) : Shape :=
  match arg.toList with
  | '-' :: '-' :: [] => .endOfOptions
  | '-' :: '-' :: cs =>
    let (word, attached) := splitEquals cs
    .word (String.ofList word) (attached.map String.ofList)
  | '-' :: c :: cs => .letter c cs
  | _ => .plain

/-- Reads the arguments of `decode`. -/
def readDecode (o : Options) : List String → Except UsageError DecodeRequest
  | [] => o.request
  | arg :: args =>
    match shapeOf arg with
    | .endOfOptions =>
      match args with
      | [] => o.request
      | _ :: _ => .error .unknownArgument
    | .word word attached =>
      match o.readWord word attached with
      | .error error => .error error
      | .ok o => readDecode o args
    | .letter letter behind =>
      match o.readLetter letter behind with
      | .error error => .error error
      | .ok o => readDecode o args
    | .plain =>
      match o.readValue arg with
      | .error error => .error error
      | .ok o => readDecode o args

/-- What is shown when help on a command is asked for. -/
def helpOn? (command : String) : Option UsageError :=
  if command = "decode" then some .decodeHelp
  else if command = "help" then some .helpHelp
  else none

/-- Reads the arguments behind the name of the program. -/
def readArguments : List String → Except UsageError DecodeRequest
  | [] => .error .noCommand
  | arg :: args =>
    if arg = "decode" then readDecode {} args
    else if arg = "help" then
      match args with
      | [] => .error .help
      | [command] => .error ((helpOn? command).getD .unknownCommand)
      | _ => .error .unknownCommand
    else
      match shapeOf arg with
      | .endOfOptions =>
        match args with
        | [] => .error .noCommand
        | arg :: _ =>
          if (helpOn? arg).isSome then .error .unknownArgument else .error .unknownCommand
      | .word word attached =>
        if word = "help" then .error (if attached.isSome then .unwantedValue else .help)
        else if word = "version" then
          .error (if attached.isSome then .unwantedValue else .version)
        else .error .unknownArgument
      | .letter letter _ =>
        if letter = 'h' then .error .help
        else if letter = 'V' then .error .version
        else .error .unknownArgument
      | .plain => .error .unknownCommand

/-- How the tool is used. -/
def usage : String :=
  "Tools for the answers found for marshaled values

Usage: marsho <COMMAND>

Commands:
  decode  Decode raw answers into the values of the marked objects
  help    Print this message or the help of the given subcommand(s)

Options:
  -h, --help     Print help
  -V, --version  Print version
"

/-- How `decode` is used. -/
def decodeUsage : String :=
  "Decode raw answers into the values of the marked objects

Usage: marsho decode [OPTIONS] --input <INPUT>

Options:
  -i, --input <INPUT>    Path to the answers, one JSON object with `name` and `bytes` per line
  -o, --output <OUTPUT>  Path to write the decoded assignments to, stdout if not given
      --strict           Whether to fail on the first malformed answer instead of skipping it
  -h, --help             Print help
"

/-- How `help` is used. -/
def helpUsage : String :=
  "Print this message or the help of the given subcommand(s)

Usage: marsho help [COMMAND]...

Arguments:
  [COMMAND]...  Print help for the subcommand(s)
"

/-- The version of the tool, under the name of its package. -/
def versionText : String := "orchestrator 0.2.0\n"

/-- What the tool prints to standard output where there is no request. -/
def textFor : UsageError → String
  | .help => usage
  | .decodeHelp => decodeUsage
  | .helpHelp => helpUsage
  | .version => versionText
  | _ => ""

/-- What is done about a usage error: its `status`, and its text. -/
def refusal (error : UsageError) : Refusal := ⟨error.status, textFor error⟩

/-- The parser of the options above: `readArguments`, with a `refusal` for its errors. -/
def parse : ArgumentParser := fun args => (readArguments args).mapError refusal

/-! ## Running the tool -/

section

variable {m : Type → Type} [Monad m] {O : Type}

/-- Runs the tool on the arguments behind its name, and gives the exit status. -/
def program (host : Host m O) (order : MemberOrder) (parser : ArgumentParser)
    (args : List String) : m Nat := do
  match parser args with
  | .error refusal =>
    let output ← host.stdout
    let _ ← host.write output (Utf8.encode refusal.printed.toList)
    let _ ← host.flush output
    return refusal.status
  | .ok request =>
    match ← (request.execute host order).run with
    | .error error =>
      host.fail error
      return 1
    | .ok _ => return 0

end

/-- What a run of the tool leaves behind. -/
structure Exit where
  /-- The exit status. -/
  status : Nat
  /-- The bytes written to standard output. -/
  printed : List UInt8
  /-- The files afterwards. -/
  files : FileTree

/-- Runs the tool over a tree of files. -/
def run (device : Device) (order : MemberOrder) (parser : ArgumentParser) (args : List String)
    (t : FileTree) (workDir : Place) : Exit :=
  let (status, d) := (program (device.host workDir) order parser args).run { files := t }
  ⟨status, d.printed, d.files⟩

end CommandLine
end Concolic

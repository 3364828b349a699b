/-
  What the commands do.

  A command reads its input first, then its settings or its address, and only
  then writes anything.  So a command that fails has written nothing, and
  what is wrong with the input is reported before what is wrong with the
  options.

  * `Invocation.source?`: what a command reads.
  * `Invocation.run`: what it makes of that.
  * `runCommand`: both together, from the arguments to the outcome.
-/
import BasicListing.Command.Arguments
import BasicListing.Command.Folder
import BasicListing.Command.Report
import BasicListing.Printer

namespace BasicListing

/-! ## Outcomes -/

/-- The kinds of failures. -/
inductive FailureKind where
  | invalidCommand
  | outOfRange
  | fileNotFound
  | settings
  deriving DecidableEq, Repr

/-- The name by which a kind of failure is reported. -/
def FailureKind.name : FailureKind → Text
  | .invalidCommand => "InvalidCommand".toList
  | .outOfRange => "OutOfRange".toList
  | .fileNotFound => "FileNotFound".toList
  | .settings => "Settings".toList

/-- Why a command has failed. -/
inductive Failure where
  | noCommand
  | unreadable (path : Text) (fault : ReadFault)
  | noData (command : Text)
  | badSettings
  | badAddress (text : Text)
  | pastMemory
  deriving DecidableEq, Repr

namespace Failure

/-- The kind of a failure. -/
def kind : Failure → FailureKind
  | .noCommand | .noData _ => .invalidCommand
  | .unreadable _ _ => .fileNotFound
  | .badSettings => .settings
  | .badAddress _ | .pastMemory => .outOfRange

/-- The level and the message of the record on a failure. -/
def text (f : Failure) : Text :=
  "ERROR ".toList ++ match f with
    | .noCommand => "No subcommand was found, try `a2list --help`".toList
    | .unreadable path fault => "could not read ".toList ++ path ++ ": ".toList ++ fault.message
    | .noData command => command ++ " did not receive any data from previous node".toList
    | .badSettings => "could not parse settings".toList
    | .badAddress text => "address ".toList ++ text ++ " could not be interpreted".toList
    | .pastMemory => "code would run past the end of memory".toList

end Failure

/-- What is reported besides the output of a command that succeeds. -/
inductive Notice where
  | warning (w : Warning)
  /-- The image has no lines. -/
  | noLines
  deriving DecidableEq, Repr

/-- A notice as it is written to standard error. -/
def Notice.text : Notice → Text
  | .warning w => recordText w.text
  | .noLines => "! no program lines were found\n".toList

/-- How a command ends. -/
inductive Outcome where
  | finished (output : Text) (notices : List Notice)
  | failed (failure : Failure)
  /-- The arguments were not understood. -/
  | misused
  deriving DecidableEq, Repr

namespace Outcome

/-- The exit code of a command. -/
def exitCode : Outcome → Nat
  | .finished _ _ => 0
  | .failed _ => 1
  | .misused => 2

/-- All that a command has written to standard output. -/
def output : Outcome → Text
  | .finished output _ => output
  | _ => []

/-- All that a command has reported on standard error, but for the name of a failure. -/
def report : Outcome → Text
  | .finished _ notices => notices.flatMap Notice.text
  | .failed failure => recordText failure.text
  | .misused => []

/-- The lines of a report. -/
def log (outcome : Outcome) : List Text := textLines outcome.report

end Outcome

/-! ## Input -/

/-- Where a command reads from. -/
inductive Source where
  | file (path : Text)
  | standardInput
  deriving DecidableEq, Repr

namespace Source

/-- The file, if one is given, and standard input otherwise. -/
def ofFile : Option Text → Source
  | some path => .file path
  | none => .standardInput

/-- The bytes of a source, given what reading it led to.  Standard input must not be empty. -/
def accept (source : Source) (command : String) (input : Except ReadFault (List UInt8)) :
    Except Failure (List UInt8) :=
  match source, input with
  | .file path, .error fault => .error (.unreadable path fault)
  | .file _, .ok bytes => .ok bytes
  | .standardInput, .error _ | .standardInput, .ok [] => .error (.noData command.toList)
  | .standardInput, .ok bytes => .ok bytes

end Source

/-! ## Listings and dumps -/

namespace ListingOptions

/-- The name shown above a listing: the one given, else that of the file. -/
def title (o : ListingOptions) : Text :=
  (o.name.or (o.file.bind fileName?)).getD "stdin".toList

/-- The settings with what single options ask for put over them. -/
def override (o : ListingOptions) (settings : Settings) : Settings :=
  { settings with
    splitComments := settings.splitComments || o.splitRem
    alignAssignments := settings.alignAssignments && !o.noAlign
    showBranchTargets := settings.showBranchTargets && !o.noTargets
    showHeader := settings.showHeader && !o.noHeader
    onlyShowTargetLineNumbers := settings.onlyShowTargetLineNumbers || o.onlyTargets
    printWidth := o.wrap.getD settings.printWidth }

/-- The settings of a listing: the defaults, then the JSON text, then single options. -/
def settings (o : ListingOptions) : Except Failure Settings :=
  match o.config with
  | none => .ok (o.override {})
  | some text =>
    match Settings.read text with
    | .ok settings => .ok (o.override settings)
    | .error _ => .error .badSettings

/-- The printer with the settings of a listing. -/
def printer (o : ListingOptions) : Except Failure Printer :=
  o.settings.map fun settings => { settings }

end ListingOptions

/-- Write the listing of an image. -/
def runList (o : ListingOptions) (image : Image) : Except Failure Outcome := do
  let printer ← o.printer
  let lines := (printer.program image).lines
  let listing := (printer.listing? o.title image).getD []
  return .finished (listing ++ ['\n'])
    ((printer.targetWarnings image).map .warning ++ (if lines.isEmpty then [.noLines] else []) ++
      (printer.codeWarnings image).map .warning)

/-- Write the dump of an image. -/
def runDump (o : ListingOptions) (image : Image) : Except Failure Outcome := do
  let printer ← o.printer
  return .finished (printer.dump o.title image ++ ['\n'])
    ((printer.targetWarnings image).map .warning)

/-! ## Disassembly -/

/-- The address in a text: hexadecimal behind a dollar sign, else decimal. -/
def readAddress? : Text → Option UInt16
  | '$' :: t => readWord? 16 t
  | t => readWord? 10 t

/-- The number of bytes in memory. -/
def memorySize : Nat := 0x10000

/-- The address of code that is given without one, as text. -/
def standardAddress : String := "768"

/-- Write the disassembly of some code. -/
def runDasm (addr : Option Text) (bytes : List UInt8) : Except Failure Outcome := do
  let text := addr.getD standardAddress.toList
  match readAddress? text with
  | none => throw (.badAddress text)
  | some address =>
    if memorySize < address.toNat + bytes.length then throw .pastMemory
    return .finished ((sweep address bytes).flatMap fun row => row.text ++ ['\n']) []

/-! ## Commands -/

/-- What the command is told to print when asked for its version. -/
def versionText : Text := "a2list 1.0.0\n".toList

/-- What the command prints when asked for help. -/
def helpText : Text := Text.ofRows <| List.map String.toList
  ["Structured listings of tokenized Applesoft BASIC.",
   "",
   "Usage: a2list [COMMAND]",
   "",
   "Commands:",
   "  list         read tokenized program, write indented listing to stdout",
   "  dump         read tokenized program, write hex dump of each line to stdout",
   "  dasm         disassemble 6502 machine code",
   "  completions  write shell completion script to stdout",
   "  help         print this message",
   ""]

namespace Invocation

/-- What a command reads, if it reads anything. -/
def source? : Invocation → Option Source
  | .list o | .dump o => some (.ofFile o.file)
  | .dasm file _ => some (.ofFile file)
  | .completions _ | .nothing => none

/-- What a command does, given what reading its source led to.  Of `completions` only the
    arguments are checked. -/
def execute (input : Except ReadFault (List UInt8)) : Invocation → Except Failure Outcome
  | .list o => do runList o (← (Source.ofFile o.file).accept "list" input)
  | .dump o => do runDump o (← (Source.ofFile o.file).accept "dump" input)
  | .dasm file addr => do runDasm addr (← (Source.ofFile file).accept "dasm" input)
  | .completions _ => .ok (.finished [] [])
  | .nothing => .error .noCommand

/-- How a command ends, given what reading its source led to. -/
def run (invocation : Invocation) (input : Except ReadFault (List UInt8)) : Outcome :=
  match invocation.execute input with
  | .ok outcome => outcome
  | .error failure => .failed failure

end Invocation

/-- How a command ends that stops before it is run. -/
def Stop.outcome : Stop → Outcome
  | .usage => .misused
  | .help => .finished helpText []
  | .version => .finished versionText []

/-- From the arguments to the outcome, for a command that runs in a folder. -/
def runCommand (folder : Folder) (standardInput : List UInt8) (args : List Text) : Outcome :=
  match Invocation.read args with
  | .error stop => stop.outcome
  | .ok invocation =>
    invocation.run <| match invocation.source? with
      | some (.file path) => folder.read path
      | _ => .ok standardInput

end BasicListing

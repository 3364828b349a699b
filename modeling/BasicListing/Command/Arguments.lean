/-
  The arguments of the command line.

  The first argument names a command, and options of that command follow.  An
  option with a value takes it from the same argument (`--name=X`, `-nX`,
  `-n=X`) or from the next one, which must not begin with a dash unless it is
  a dash alone.  An option is given at most once.  Nothing else is accepted,
  but `--` may stand at the end.

  Arguments are taken in order: the first that is wrong decides, unless one
  before it asks for help or for the version.
-/
import BasicListing.Text.Numeral

namespace BasicListing

/-! ## Options -/

/-- The options of all commands. -/
inductive CommandOption where
  | file | name | config | splitRem | noAlign | noTargets | noHeader | onlyTargets | wrap
  | addr | shell | help | version
  deriving DecidableEq, Repr

namespace CommandOption

/-- The name behind two dashes. -/
def long : CommandOption → String
  | .file => "file"
  | .name => "name"
  | .config => "config"
  | .splitRem => "split-rem"
  | .noAlign => "no-align"
  | .noTargets => "no-targets"
  | .noHeader => "no-header"
  | .onlyTargets => "only-targets"
  | .wrap => "wrap"
  | .addr => "addr"
  | .shell => "shell"
  | .help => "help"
  | .version => "version"

/-- The letter behind one dash. -/
def short? : CommandOption → Option Char
  | .file => some 'f'
  | .name => some 'n'
  | .addr => some 'a'
  | .shell => some 's'
  | .help => some 'h'
  | .version => some 'V'
  | _ => none

/-- The option has a value. -/
def takesValue : CommandOption → Bool
  | .file | .name | .config | .wrap | .addr | .shell => true
  | _ => false

/-- The greatest width that can be asked for. -/
def greatestWidth : Nat := Nat.pow 2 64 - 1

/-- The shells for which completions can be written. -/
def shells : List String := ["bash", "elv", "fish", "ps1", "zsh"]

/-- The value can be used for the option. -/
def accepts (o : CommandOption) (value : Text) : Bool :=
  match o with
  | .wrap => (readNumeral? 10 greatestWidth value).isSome
  | .shell => (shells.map String.toList).contains value
  | _ => true

end CommandOption

/-- Why the arguments do not lead to a command. -/
inductive Stop where
  /-- They are not understood. -/
  | usage
  /-- They ask for help. -/
  | help
  /-- They ask for the version. -/
  | version
  deriving DecidableEq, Repr

/-! ## Reading options -/

/-- Options that are being read. -/
structure OptionReader where
  /-- The options given so far with their values, last first. -/
  given : List (CommandOption × Text) := []
  /-- The option that waits for its value. -/
  pending : Option CommandOption := none
  /-- The argument `--` has been read. -/
  ended : Bool := false

namespace OptionReader

/-- Take an option with its value; one without a value has an empty one. -/
def give (r : OptionReader) (o : CommandOption) (value : Text) : Except Stop OptionReader :=
  if (r.given.lookup o).isSome || !o.accepts value then .error .usage
  else .ok { r with given := (o, value) :: r.given, pending := none }

/-- Take an option that has no value. -/
def giveFlag (r : OptionReader) : CommandOption → Except Stop OptionReader
  | .help => .error .help
  | .version => .error .version
  | o => r.give o []

/-- Read an option behind two dashes. -/
def stepLong (known : List CommandOption) (r : OptionReader) (arg : Text) :
    Except Stop OptionReader :=
  let name := arg.takeWhile (· != '=')
  match known.find? (fun o => o.long.toList == name), arg.drop name.length with
  | none, _ => .error .usage
  | some o, [] => if o.takesValue then .ok { r with pending := some o } else r.giveFlag o
  | some o, _ :: value => if o.takesValue then r.give o value else .error .usage

/-- Read an option behind one dash; `rest` follows its letter. -/
def stepShort (known : List CommandOption) (r : OptionReader) (letter : Char) (rest : Text) :
    Except Stop OptionReader :=
  match known.find? (fun o => o.short? == some letter) with
  | none => .error .usage
  | some o =>
    if o.takesValue then
      match rest with
      | [] => .ok { r with pending := some o }
      | '=' :: value => r.give o value
      | value => r.give o value
    else r.giveFlag o

/-- Read one argument. -/
def step (known : List CommandOption) (r : OptionReader) (arg : Text) :
    Except Stop OptionReader :=
  if r.ended then .error .usage
  else match r.pending, arg with
    | some o, ['-'] => r.give o arg
    | some _, '-' :: _ => .error .usage
    | some o, _ => r.give o arg
    | none, ['-', '-'] => .ok { r with ended := true }
    | none, '-' :: '-' :: name => r.stepLong known name
    | none, '-' :: letter :: rest => r.stepShort known letter rest
    | none, _ => .error .usage

/-- The options with their values, when all arguments have been read. -/
def finish (r : OptionReader) : Except Stop (List (CommandOption × Text)) :=
  if r.pending.isSome then .error .usage else .ok r.given

end OptionReader

/-- The options, of those that are known, that some arguments give. -/
def readOptions (known : List CommandOption) (args : List Text) :
    Except Stop (List (CommandOption × Text)) := do
  (← args.foldlM (OptionReader.step known) {}).finish

/-! ## Commands -/

/-- The options of a listing or a dump. -/
structure ListingOptions where
  file : Option Text := none
  name : Option Text := none
  config : Option Text := none
  splitRem : Bool := false
  noAlign : Bool := false
  noTargets : Bool := false
  noHeader : Bool := false
  onlyTargets : Bool := false
  wrap : Option Nat := none
  deriving DecidableEq, Repr

/-- What the arguments ask for. -/
inductive Invocation where
  | list (options : ListingOptions)
  | dump (options : ListingOptions)
  | dasm (file addr : Option Text)
  | completions (shell : Text)
  /-- There are no arguments. -/
  | nothing
  deriving DecidableEq, Repr

namespace Invocation

/-- The options that a listing and a dump know. -/
def listingOptions : List CommandOption :=
  [.file, .name, .config, .splitRem, .noAlign, .noTargets, .noHeader, .onlyTargets, .wrap, .help]

/-- The commands, by name. -/
def commandNames : List String := ["list", "dump", "dasm", "completions", "help"]

/-- The options of a listing or a dump. -/
def readListing (args : List Text) : Except Stop ListingOptions := do
  let given ← readOptions listingOptions args
  let has (o : CommandOption) : Bool := (given.lookup o).isSome
  return {
    file := given.lookup .file
    name := given.lookup .name
    config := given.lookup .config
    splitRem := has .splitRem
    noAlign := has .noAlign
    noTargets := has .noTargets
    noHeader := has .noHeader
    onlyTargets := has .onlyTargets
    wrap := (given.lookup .wrap).bind (readNumeral? 10 CommandOption.greatestWidth) }

/-- The options of a disassembly. -/
def readDasm (args : List Text) : Except Stop Invocation := do
  let given ← readOptions [.file, .addr, .help] args
  return .dasm (given.lookup .file) (given.lookup .addr)

/-- The options of completions, where the shell has to be given. -/
def readCompletions (args : List Text) : Except Stop Invocation := do
  let given ← readOptions [.shell, .help] args
  match given.lookup .shell with
  | some shell => return .completions shell
  | none => throw .usage

/-- Help on the command named by the arguments, or on all of them. -/
def readHelp : List Text → Except Stop Invocation
  | [] => .error .help
  | [name] => .error (if (commandNames.map String.toList).contains name then .help else .usage)
  | _ => .error .usage

/-- What the arguments ask for. -/
def read : List Text → Except Stop Invocation
  | [] => .ok .nothing
  | command :: args =>
    match command.asString with
    | "list" => (readListing args).map .list
    | "dump" => (readListing args).map .dump
    | "dasm" => readDasm args
    | "completions" => readCompletions args
    | "help" => readHelp args
    | _ => do
      -- without a command there are only `--`, help and the version
      let _ ← readOptions [.help, .version] (command :: args)
      return .nothing

end Invocation

end BasicListing

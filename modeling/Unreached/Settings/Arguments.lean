import Unreached.Settings.Basic

/-!
# Command-line arguments

Arguments are long options. A value follows its option as the next argument or after an equals sign.

* `Opt` : the options, with their names;
* `UsageError` : how arguments can be wrong;
* `Arguments.read` : what a list of arguments asks for;
* `Arguments.ofCommandLine` : the same with the name of the command in front.

An argument that is no option is refused as soon as it is met, before the option that waits for a
value is settled.
-/

namespace Unreached

set_option autoImplicit false

/-- How arguments can be wrong; asking for help is told the same way. -/
inductive UsageError where
  | unknownArgument
  | invalidValue
  | argumentConflict
  | tooManyValues
  | valueValidation
  | displayHelp
deriving DecidableEq, Repr

/-- The text of what is wrong with arguments. -/
def UsageError.message : UsageError → Text
  | .unknownArgument => "unexpected argument".toList
  | .invalidValue => "a value is required for an option but none was supplied".toList
  | .argumentConflict => "an option cannot be used with another, or several times".toList
  | .tooManyValues => "unexpected value for an option".toList
  | .valueValidation => "invalid value for an option".toList
  | .displayHelp => "help was asked for".toList

/-- The options. -/
inductive Opt where
  | root
  | tsconfig
  | entry
  | skipLead
  | followReexports
  | timeoutSecs
  | noIgnore
  | moveDir
  | json
  | yes
  | noMove
  | help
deriving DecidableEq, Repr

namespace Opt

/-- The name of an option without its hyphens. -/
def name : Opt → Text
  | .root => "root".toList
  | .tsconfig => "tsconfig".toList
  | .entry => "entry".toList
  | .skipLead => "skip-prefix".toList
  | .followReexports => "follow-reexports".toList
  | .timeoutSecs => "timeout-secs".toList
  | .noIgnore => "no-ignore".toList
  | .moveDir => "move-dir".toList
  | .json => "json".toList
  | .yes => "yes".toList
  | .noMove => "no-move".toList
  | .help => "help".toList

/-- The options of a check. -/
def ofCheck : List Opt :=
  [.root, .tsconfig, .entry, .skipLead, .followReexports, .timeoutSecs, .noIgnore, .moveDir, .help]

/-- The options of the command, which are those of a check and how to report it. -/
def ofCommand : List Opt := ofCheck ++ [.json, .yes, .noMove]

/-- Whether an option has a value. -/
def takesValue : Opt → Bool
  | .root | .tsconfig | .entry | .skipLead | .timeoutSecs | .moveDir => true
  | _ => false

/-- Whether an option may be given several times. -/
def repeatable : Opt → Bool
  | .entry | .skipLead => true
  | _ => false

end Opt

/-- What arguments ask for. -/
structure Arguments where
  settings : Settings := {}
  json : Bool := false
  yes : Bool := false
  noMove : Bool := false
deriving DecidableEq, Repr

/-- The value of a text of decimal digits, with or without a plus sign, that fits 64 bits. -/
def wordOfText? (t : Text) : Option Nat :=
  let digits := (Text.after? ['+'] t).getD t
  if digits.isEmpty || !digits.all Char.isDigit then none
  else
    let n := digits.foldl (fun n c => 10 * n + (c.toNat - 48)) 0
    if n < UInt64.size then some n else none

namespace Arguments

/-- Sets an option that has a value. -/
def setValue (a : Arguments) (o : Opt) (v : Text) : Except UsageError Arguments :=
  let s := a.settings
  match o with
  | .root =>
    if v.isEmpty then .error .invalidValue else .ok { a with settings := { s with root := some v } }
  | .tsconfig =>
    if v.isEmpty then .error .invalidValue
    else .ok { a with settings := { s with tsconfig := some v } }
  | .entry => .ok { a with settings := { s with markers := s.markers ++ [v] } }
  | .skipLead => .ok { a with settings := { s with skippedLeads := s.skippedLeads ++ [v] } }
  | .timeoutSecs =>
    match wordOfText? v with
    | none => .error .valueValidation
    | some n => .ok { a with settings := { s with timeout := some n } }
  | .moveDir => .ok { a with settings := { s with moveDir := v } }
  | _ => .ok a

/-- Sets an option that has no value. -/
def setFlag (a : Arguments) (o : Opt) : Except UsageError Arguments :=
  match o with
  | .followReexports => .ok { a with settings := { a.settings with reexports := true } }
  | .noIgnore => .ok { a with settings := { a.settings with noIgnore := true } }
  | .json => .ok { a with json := true }
  | .yes => .ok { a with yes := true }
  | .noMove => .ok { a with noMove := true }
  | .help => .error .displayHelp
  | _ => .ok a

/-- The arguments read so far. -/
structure State where
  arguments : Arguments := {}
  /-- The options that were set. -/
  seen : List Opt := []
  /-- The option whose value is the last one read, or is still to come. -/
  pending : Option (Opt × Option Text) := none

namespace State

/-- Sets an option, with its value if it has one. -/
def set (s : State) (o : Opt) (v? : Option Text) : Except UsageError State :=
  if o.takesValue && v?.isNone then .error .invalidValue
  else if !o.repeatable && s.seen.contains o then .error .argumentConflict
  else do
    let arguments ← match v? with
      | some v => s.arguments.setValue o v
      | none => s.arguments.setFlag o
    return { s with arguments, seen := o :: s.seen }

/-- Sets the option that is pending. -/
def settle (s : State) : Except UsageError State :=
  match s.pending with
  | none => .ok s
  | some (o, v?) => { s with pending := none }.set o v?

/-- Reads a long option, given without its hyphens. -/
def readLong (options : List Opt) (s : State) (t : Text) : Except UsageError State :=
  let name := t.takeWhile (· ≠ '=')
  let value? := (t.dropWhile (· ≠ '=')).tail?
  match options.find? (·.name = name) with
  | none => .error .unknownArgument
  | some o =>
    if o.takesValue then do
      let s ← s.settle
      match value? with
      | some v => s.set o (some v)
      | none => .ok { s with pending := some (o, none) }
    else match value? with
      | some _ => .error .tooManyValues
      | none => do (← s.settle).set o none

/-- Reads the arguments one after the other. After two hyphens nothing may follow. -/
def readAll (options : List Opt) : State → List Text → Except UsageError State
  | s, [] => s.settle
  | s, arg :: args =>
    match arg with
    | ['-', '-'] => if args.isEmpty then s.settle else .error .unknownArgument
    | '-' :: '-' :: t => do readAll options (← s.readLong options t) args
    | '-' :: 'h' :: _ => do
      let s ← s.settle
      readAll options (← s.set .help none) args
    | '-' :: _ :: _ => .error .unknownArgument
    | v =>
      match s.pending with
      | some (o, none) => readAll options { s with pending := some (o, some v) } args
      | _ => .error .unknownArgument

end State

/-- What a list of arguments with the given options asks for. -/
def read (options : List Opt) (args : List Text) : Except UsageError Arguments := do
  let s ← State.readAll options {} args
  if s.arguments.yes && s.arguments.noMove then .error .argumentConflict else .ok s.arguments

/-- The name of the one command. -/
def commandName : Text := "unused-files".toList

/-- What the arguments of the program ask for: the name of the command, then its options. -/
def ofCommandLine : List Text → Except UsageError Arguments
  | [] => .error .unknownArgument
  | command :: args =>
    if command = commandName then read Opt.ofCommand args
    else if command = "--help".toList || command.startsWith "-h".toList then .error .displayHelp
    else .error .unknownArgument

end Arguments

/-- How the program is used. -/
def helpText : Text :=
  ("Report source files that no entry point imports, and move them aside\n\n" ++
    "Usage: unused-files [OPTIONS]\n\n" ++
    "Options:\n" ++
    "  --root <DIR>            Root directory of the project (defaults to the repository around)\n" ++
    "  --tsconfig <FILE>       File with the path aliases (defaults to tsconfig.json at the root)\n" ++
    "  --entry <TEXT>          Text that marks the paths of entry files (repeatable)\n" ++
    "  --skip-prefix <TEXT>    Start of imports that are never resolved (repeatable)\n" ++
    "  --follow-reexports      Count re-exports as imports\n" ++
    "  --timeout-secs <N>      Give up after so many seconds\n" ++
    "  --no-ignore             Do not honour ignore files\n" ++
    "  --move-dir <DIR>        Directory below the root that unused files are moved to\n" ++
    "  --json                  Print a JSON report instead of the list (never moves files)\n" ++
    "  --yes                   Move unused files without asking\n" ++
    "  --no-move               Only report, never move files\n" ++
    "  -h, --help              Print this text\n").toList

/-- The settings that a list of arguments states. -/
def Settings.read (args : List Text) : Except UsageError Settings :=
  (Arguments.read Opt.ofCheck args).map (·.settings)

end Unreached

import Unreached.Confirm
import Unreached.Relocate
import Unreached.Report.Basic
import Unreached.Settings.Arguments

/-!
# A run of the command

`run` is the whole command as a function: from the arguments, the input and the files to the output,
the exit code and the files afterwards. Files are only moved where the check finds some that are
unused, a report in words is asked for, and consent is given by an option or by an answer.
-/

namespace Unreached

set_option autoImplicit false

/-- What a run leaves behind. -/
structure RunResult where
  exit : Nat
  output : Text := []
  errors : Text := []
  /-- The files afterwards. -/
  tree : Tree
  /-- The places that files left and those that they went to. -/
  moves : List (Text × Text) := []
  /-- Whether more input could change the outcome. -/
  awaitsInput : Bool := false

/-- The exit code of a run that finds unused files or fails. -/
def failureExit : Nat := 1

/-- The exit code of a run with wrong arguments. -/
def usageExit : Nat := 2

/-- The exit code of a run whose deadline no clock can tell. -/
def overflowExit : Nat := 101

/-- The lines of the causes of a failure, numbered from `n`. -/
def numberedCauses : Nat → List Text → Text
  | _, [] => []
  | n, cause :: causes =>
    "    ".toList ++ Text.ofNat n ++ ": ".toList ++ cause ++ ['\n'] ++ numberedCauses (n + 1) causes

/-- The text of a failure with its causes, the outermost first. -/
def failureText : List Text → Text
  | [] => []
  | [outer] => "Error: ".toList ++ outer ++ ['\n']
  | [outer, cause] => "Error: ".toList ++ outer ++ "\n\nCaused by:\n    ".toList ++ cause ++ ['\n']
  | outer :: causes =>
    "Error: ".toList ++ outer ++ "\n\nCaused by:\n".toList ++ numberedCauses 0 causes

/-- A number of milliseconds as a text. -/
def elapsedText (elapsed : Nat) : Text := Text.ofNat elapsed ++ ['m', 's']

section
variable (host : Host) (tree : Tree)

/-- The report on moved files. -/
def relocationText (r : Relocation) : Text :=
  (Style.bold.and .green).paint host.color ['✓']
    ++ " Moved ".toList ++ count host.color .cyan r.moved.length
    ++ " files to ".toList ++ Style.blue.paint host.color r.destination ++ ['\n']
    ++ r.failed.flatMap fun (path, e) =>
      (Style.bold.and .red).paint host.color ['✗'] ++ [' '] ++ path ++ " (".toList
        ++ Style.dimmed.paint host.color e.message ++ ")\n".toList

/-- The end of a run that moves the unused files, after `output`. -/
def runMove (output : Text) (moveDir : Text) (r : CheckResult) : RunResult :=
  match relocate tree host.cwd r.root r.unused moveDir with
  | (tree, .error fault) =>
    { exit := failureExit, output,
      errors := failureText [noDestinationText r.root moveDir, fault.message], tree }
  | (tree, .ok relocation) =>
    { exit := if relocation.failed.isEmpty then 0 else failureExit
      output := output ++ relocationText host relocation
      tree
      moves := relocation.moves r.root }

/-- The end of a run that finds unused files and reports them in words. -/
def runUnused (args : Arguments) (input : Bytes) (r : CheckResult) : RunResult :=
  let output :=
    listing host.color (some host.cwd.path) r ++ timing host.color host.elapsed host.threads r
  if args.noMove then { exit := failureExit, output, tree }
  else if args.yes then runMove host tree output args.settings.moveDir r
  else
    let dialogue := confirm input
    let output := output ++ dialogue.output
    match dialogue.accepted? with
    | none => { exit := failureExit, output, errors := failureText [Fault.notText.message], tree }
    | some false => { exit := failureExit, output, tree, awaitsInput := dialogue.ended }
    | some true => runMove host tree output args.settings.moveDir r

/-- The end of a run whose check succeeded. -/
def runReport (args : Arguments) (input : Bytes) (r : CheckResult) : RunResult :=
  if args.json then
    { exit := if r.unused.isEmpty then 0 else failureExit, output := jsonReport r, tree }
  else if r.unused.isEmpty then
    { exit := 0,
      output := nothingUnused host.color ++ timing host.color host.elapsed host.threads r, tree }
  else runUnused host tree args input r

/-- The end of a run with arguments that were read, after its check. -/
def conclude (args : Arguments) (input : Bytes) : Except CheckError CheckResult → RunResult
  | .error .clockOverflow => { exit := overflowExit, tree }
  | .error e =>
    { exit := failureExit, errors := failureText (e.causes (elapsedText host.elapsed)), tree }
  | .ok r => runReport host tree args input r

/-- The end of a run with wrong arguments. -/
def runUsage : UsageError → RunResult
  | .displayHelp => { exit := 0, output := helpText, tree }
  | e =>
    { exit := usageExit,
      errors := "error: ".toList ++ e.message ++ "\n\n".toList ++ helpText, tree }

/-- A run of the command with all its arguments. -/
def run (args : List Text) (input : Bytes) : RunResult :=
  match Arguments.ofCommandLine args with
  | .error e => runUsage tree e
  | .ok args => conclude host tree args input (check host tree args.settings)

end

end Unreached

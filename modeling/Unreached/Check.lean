import Unreached.Collect
import Unreached.EntryPoint
import Unreached.Graph.Engine
import Unreached.Settings.Basic

/-!
# The check for unused files

`check` collects the files of a project, finds those that its entry points reach, and reports the
rest.

* `Host` : what the check asks of the machine it runs on;
* `CheckError` : why a check fails, with the texts of the failure from the outermost to the
  innermost;
* `CheckResult` : what a check finds.
-/

namespace Unreached

set_option autoImplicit false

/-! ## The machine -/

/-- What the outcome of a run depends on besides the files. -/
structure Host where
  /-- The working directory. -/
  cwd : Location
  /-- The deadline that a timeout of so many seconds sets. A timeout of no seconds has passed at the
  first check. -/
  deadline : Nat → Deadline := fun seconds => if seconds = 0 then .after 0 else .never
  /-- Whether output is coloured. -/
  color : Bool := false
  /-- The number of threads. -/
  threads : Nat := 1
  /-- The number of milliseconds that the run takes. -/
  elapsed : Nat := 0

/-- Instants are counted in seconds up to this number, which a deadline must not exceed. -/
def lastInstant : Nat := UInt64.size / 2 - 1

/-- The deadline that a timeout sets, if there is such an instant. The clock has left its start
behind. -/
def Host.deadlineOf? (host : Host) : Option Nat → Option Deadline
  | none => some .never
  | some seconds => if lastInstant ≤ seconds then none else some (host.deadline seconds)

/-- The files of the project at `root` as a tree holds them. -/
def Tree.sources (tree : Tree) (cwd : Location) (root : Text) : Sources := fun file =>
  (tree.readText cwd (Path.below root file)).toOption

/-! ## Failures -/

/-- Why a check fails. -/
inductive CheckError where
  /-- No root is given, and no repository is around the working directory. -/
  | noRepository
  | rootUnreadable (root : Text) (fault : Fault)
  | noEntries (root : Text)
  /-- The deadline passed when so many files were expanded. -/
  | deadlineExceeded (expanded : Nat)
  /-- The timeout leads past the last instant. -/
  | clockOverflow
deriving DecidableEq, Repr

/-- The text of an unreadable root. -/
def rootUnreadableText (root : Text) (fault : Fault) : Text :=
  "Cannot read project root ".toList ++ root ++ ": ".toList ++ fault.message

/-- The text of a passed deadline, after the time given as a text. -/
def deadlineText (elapsed : Text) (expanded : Nat) : Text :=
  "Traversal deadline exceeded after ".toList ++ elapsed ++ " (".toList ++ Text.ofNat expanded
    ++ " files expanded)".toList

/-- The texts of a failure, the outermost first. -/
def CheckError.causes (elapsed : Text) : CheckError → List Text
  | .noRepository => ["Could not find .git directory in any parent folder".toList]
  | .rootUnreadable root fault =>
    ["Failed to list files under ".toList ++ root, rootUnreadableText root fault, fault.message]
  | .noEntries root => ["No entry files found under ".toList ++ root]
  | .deadlineExceeded expanded =>
    ["Import graph traversal failed".toList, deadlineText elapsed expanded]
  | .clockOverflow => ["overflow when adding duration to instant".toList]

/-! ## The check -/

/-- What a check finds. -/
structure CheckResult where
  /-- The root that paths are read from. -/
  root : Text
  /-- The files that no entry point reaches, in the order of their paths. -/
  unused : List SourceFile
  /-- The number of entry points. -/
  entries : Nat
  /-- The number of source files. -/
  inventorySize : Nat
  /-- The number of files that are reached. -/
  reachable : Nat
  /-- The number of files that were read. -/
  filesAnalyzed : Nat
deriving DecidableEq, Repr

/-- The project that a check looks at: imports can only name files that can be reported. -/
def Settings.project (s : Settings) (inventory : Inventory) : Project where
  inventory := inventory.candidates
  aliases := s.aliases
  reexports := s.reexports
  skippedLeads := generatedLeads ++ s.skippedLeads

/-- What is collected for a check. The directory for unused files is left out. -/
def Settings.collection (s : Settings) : Collection := ⟨[s.moveDir], !s.noIgnore⟩

/-- The files that can be reported, are no entry points and are not reached. -/
def unusedFiles (candidates : Inventory) (markers : List Text) (reached : TextSet) :
    List SourceFile :=
  candidates.files.filter fun f => !isEntryPoint markers f.path && !reached.contains f.path

/-- The check of an inventory with the given sources. -/
def Settings.checkInventory (s : Settings) (root : Text) (inventory : Inventory) (sources : Sources)
    (deadline : Deadline) : Except CheckError CheckResult :=
  let entries := inventory.entryPoints s.markers
  let project := s.project inventory
  match Engine.reachableApart (.new project) sources deadline (entries.map (·.path)) with
  | (.error expanded, _) => .error (.deadlineExceeded expanded)
  | (.ok reached, engine) => .ok {
      root
      unused := unusedFiles project.inventory s.markers reached
      entries := entries.length
      inventorySize := inventory.size
      reachable := reached.length
      filesAnalyzed := engine.filesRead }

/-- Finds the unused files of a project. -/
def check (host : Host) (tree : Tree) (settings : Settings) : Except CheckError CheckResult :=
  match settings.initialize? tree host.cwd with
  | none => .error .noRepository
  | some s =>
    let root := s.root.getD []
    match collect s.collection tree host.cwd root with
    | .error fault => .error (.rootUnreadable root fault)
    | .ok inventory =>
      if (inventory.entryPoints s.markers).isEmpty then .error (.noEntries root)
      else match host.deadlineOf? s.timeout with
        | none => .error .clockOverflow
        | some deadline => s.checkInventory root inventory (tree.sources host.cwd root) deadline

end Unreached

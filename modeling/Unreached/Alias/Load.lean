import Unreached.Alias.Tsconfig
import Unreached.Tree.Basic

/-!
# Aliases of a project on disk

* `Alias.Table.ofFile` : the alias table of a tsconfig file, or why there is none;
* `Alias.Table.load` : the alias table of a project, empty where it has none that can be read.
-/

namespace Unreached.Alias

set_option autoImplicit false

/-- The name of the file that defines the aliases of a project. -/
def tsconfigName : Text := "tsconfig.json".toList

/-- Why a file defines no aliases. -/
inductive LoadFailure where
  | unreadable (fault : Fault)
  | notATsconfig
deriving DecidableEq, Repr

/-- The text of a failure on the file at `path`. -/
def LoadFailure.message (path : Text) (e : LoadFailure) : Text :=
  let reason := match e with
    | .unreadable fault => fault.message
    | .notATsconfig => "not a tsconfig document".toList
  "Invalid alias configuration at ".toList ++ path ++ ": ".toList ++ reason

/-- What follows the components of `top` in those of a path that starts with them. -/
def componentsBelow? : (top path : List Path.Component) → Option (List Path.Component)
  | [], path => some path
  | a :: top, b :: path => if a = b then componentsBelow? top path else none
  | _ :: _, [] => none

namespace Table
variable (tree : Tree) (cwd : Location)

/-- The directory of a tsconfig file from the project root. Links are followed on both sides, and a
file outside of the root counts as one at the root. -/
def configDir (root tsconfig : Text) : Text :=
  let canonical (path : Text) := ((tree.canonical cwd path).toOption).getD path
  match Path.parent? (canonical tsconfig) with
  | none => []
  | some dir =>
    match componentsBelow? (Path.components (canonical root)) (Path.components dir) with
    | some below => Path.ofSegments (below.map (·.segment))
    | none => []

/-- The alias table of the tsconfig file at a path. -/
def ofFile (root tsconfig : Text) : Except LoadFailure Table :=
  match tree.readText cwd tsconfig with
  | .error fault => .error (.unreadable fault)
  | .ok text =>
    match Table.read? text (configDir tree cwd root tsconfig) with
    | none => .error .notATsconfig
    | some table => .ok table

/-- The alias table of the project at `root`. A tsconfig file that is missing or is none gives an
empty table. -/
def load (root : Text) (tsconfig? : Option Text) : Table :=
  match ofFile tree cwd root (tsconfig?.getD (Path.join root tsconfigName)) with
  | .ok table => table
  | .error _ => {}

end Table

end Unreached.Alias

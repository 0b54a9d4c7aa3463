import Unreached.Alias.Load

/-!
# Settings of a check

* `Settings` : what a check is asked to do;
* `repositoryRoot?` : the innermost repository around a directory;
* `Settings.initialize` : the settings with the project root found and its aliases read.
-/

namespace Unreached

set_option autoImplicit false

/-- The directory that unused files are moved to unless another is named. -/
def defaultMoveDir : Text := "unusedFile".toList

/-- What a check is asked to do. -/
structure Settings where
  /-- The root of the project. -/
  root : Option Text := none
  /-- The file that defines aliases, if not the one at the root. -/
  tsconfig : Option Text := none
  /-- Texts that make a path an entry point. -/
  markers : List Text := []
  /-- Starts of specifiers that are never resolved. -/
  skippedLeads : List Text := []
  reexports : Bool := false
  /-- The number of seconds that a traversal may take. -/
  timeout : Option Nat := none
  /-- Whether ignore files do not count. -/
  noIgnore : Bool := false
  /-- The directory below the root that unused files are moved to. -/
  moveDir : Text := defaultMoveDir
  aliases : Alias.Table := {}
deriving DecidableEq, Repr

/-- The text on settings whose root was asked for before it was found. -/
def Settings.uninitializedText : Text := "Config not initialized - call initialize() first".toList

/-- The innermost directory at or around `cwd` that holds a repository. -/
def repositoryRoot? (tree : Tree) (cwd : Location) : Option Text :=
  (cwd.upward.map Location.path).find? fun dir => tree.exists? cwd (Path.join dir ".git".toList)

/-- The settings with the project root and the aliases filled in. A given root is stripped of links
where it exists; without one the repository around `cwd` is taken, and there is nothing to do where
there is none. -/
def Settings.initialize? (s : Settings) (tree : Tree) (cwd : Location) : Option Settings :=
  let root? := match s.root with
    | some root => some (((tree.canonical cwd root).toOption).getD root)
    | none => repositoryRoot? tree cwd
  root?.map fun root =>
    { s with root := some root, aliases := Alias.Table.load tree cwd root s.tsconfig }

end Unreached

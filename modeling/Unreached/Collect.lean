import Unreached.Ignore.Scope
import Unreached.Inventory

/-!
# Collecting the source files of a project

`collect` lists the source files below a directory of a tree. A directory whose name holds a dot, a
dependency directory and an excluded one are not entered, nor is one that ignore rules drop. Links
are not followed, apart from one at the root itself.
-/

namespace Unreached

set_option autoImplicit false

/-- The end of the names of declaration files, which are no source files. -/
def declarationSuffix : Text := ".d.ts".toList

/-- The directories of dependencies. -/
def dependencyDirs : List Text := ["node_modules".toList]

/-- Whether a file name is that of a source file. -/
def isSourceName (name : Text) : Bool :=
  !name.endsWith declarationSuffix && (Path.splitName name).2.any sourceExtensions.contains

/-- Whether a directory of this name is not entered. -/
def isSkippedDir (excluded : List Text) (name : Text) : Bool :=
  name.contains '.' || dependencyDirs.contains name || excluded.contains name

/-- What is collected. -/
structure Collection where
  /-- The names of directories that are not entered. -/
  excludedDirs : List Text
  /-- Whether the ignore files of the project count. -/
  respect : Bool

namespace Collection
variable (c : Collection) (root : Location)

/-! ## The rules around a place -/

/-- The directories whose rules count for what `dir` holds, the deepest first: those from it up to
the root, and where ignore files count those that the root lies in. -/
def chain (dir : Location) : List Location := dir.upward.filter fun d => c.respect || d.within root

/-- The directories at and below the root, and those that it lies in. -/
def directories (tree : Tree) : List Location :=
  root.upward ++ tree.entries.filterMap fun
    | (loc, .dir) => if loc.within root && loc ≠ root then some loc else none
    | _ => none

/-- The rules of all the directories. -/
def scopes (tree : Tree) (cwd : Location) : List Ignore.Scope :=
  (directories root tree).map (Ignore.Scope.ofDir tree cwd c.respect)

/-! ## What is taken -/

variable (table : List Ignore.Scope)

/-- Whether the rules of the directories around it drop what is at a location. -/
def drops (loc : Location) (isDir : Bool) : Bool :=
  Ignore.isIgnored ((c.chain root loc.tail).filterMap fun dir => table.find? (·.dir = dir))
    loc isDir

/-- Whether a directory below the root is entered from the one it is in. -/
def enters (dir : Location) : Bool :=
  !isSkippedDir c.excludedDirs (dir.headD []) && !c.drops root table dir true

/-- Whether the file at a location below the root is collected: its name is that of a source file,
the directories on the way to it are entered, and no rule drops it. -/
def takes (loc : Location) : Bool :=
  isSourceName (loc.headD [])
    && ((Location.upward loc.tail).filter fun d => d.within root && d ≠ root).all
      (c.enters root table)
    && !c.drops root table loc false

/-- The source file that an entry of the tree gives. -/
def file? : Location × Node → Option SourceFile
  | (loc, .file _) =>
    if loc.within root && c.takes root table loc then
      some (.ofPath (Path.ofSegments (loc.namesBelow root)))
    else none
  | _ => none

end Collection

/-- The source files below the directory at `root`, or why it cannot be listed. A root written as a
single hyphen lists nothing. -/
def collect (c : Collection) (tree : Tree) (cwd : Location) (root : Text) :
    Except Fault Inventory := do
  let loc ← tree.locate cwd root
  if tree.node? loc ≠ some .dir then .error .notADirectory
  else if root = ['-'] then .ok Inventory.empty
  else
    let table := c.scopes loc tree cwd
    .ok (.ofFiles (tree.entries.filterMap (c.file? loc table)))

end Unreached

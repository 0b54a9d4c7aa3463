import Unreached.SourceFile
import Unreached.Tree.Change

/-!
# Moving files aside

`relocate` moves files into a directory below the project root and keeps their paths there. A file
whose place is taken stays where it is and is told among the failures.
-/

namespace Unreached

set_option autoImplicit false

/-- Why a file was not moved. -/
inductive MoveFailure where
  /-- There is something at the place of the file. -/
  | occupied (place : Text)
  | refused (fault : Fault)
deriving DecidableEq, Repr

/-- The text of a failure. -/
def MoveFailure.message : MoveFailure → Text
  | .occupied place => place ++ " already exists".toList
  | .refused fault => fault.message

/-- The outcome of moving files. -/
structure Relocation where
  /-- The directory that files were moved to. -/
  destination : Text
  /-- The paths of the files that were moved, in the order given. -/
  moved : List Text := []
  /-- The paths of the others, with the reasons, in the order given. -/
  failed : List (Text × MoveFailure) := []
deriving DecidableEq, Repr

section
variable (cwd : Location) (root destination : Text)

/-- Moves the file with the given path from the root to the destination. -/
def moveFile (tree : Tree) (path : Text) : Tree × Option MoveFailure :=
  let source := Path.below root path
  let target := Path.below destination path
  if tree.exists? cwd target then (tree, some (.occupied target))
  else
    let made := tree.mkParents cwd target
    match made.fault? with
    | some fault => (made.tree, some (.refused fault))
    | none =>
      match made.tree.rename cwd source target with
      | .ok tree => (tree, none)
      | .error fault => (made.tree, some (.refused fault))

/-- Moves files one after the other. -/
def moveFiles (tree : Tree) : List Text → Tree × Relocation
  | [] => (tree, { destination })
  | path :: paths =>
    let (tree, failure?) := moveFile cwd root destination tree path
    let (tree, rest) := moveFiles tree paths
    (tree, match failure? with
      | none => { rest with moved := path :: rest.moved }
      | some e => { rest with failed := (path, e) :: rest.failed })

end

/-- Moves files into the directory `dir` below the root, which is made if need be. The first part of
the result is the tree afterwards. -/
def relocate (tree : Tree) (cwd : Location) (root : Text) (files : List SourceFile) (dir : Text) :
    Tree × Except Fault Relocation :=
  let destination := Path.join root dir
  let made := tree.mkdirs cwd destination
  match made.fault? with
  | some fault => (made.tree, .error fault)
  | none =>
    let (tree, relocation) := moveFiles cwd root destination made.tree (files.map (·.path))
    (tree, .ok relocation)

/-- The places that the moved files left and those that they went to. -/
def Relocation.moves (root : Text) (r : Relocation) : List (Text × Text) :=
  r.moved.map fun path => (Path.below root path, Path.below r.destination path)

/-- The text of a destination that could not be made. -/
def noDestinationText (root dir : Text) : Text := "Failed to create ".toList ++ Path.join root dir

end Unreached

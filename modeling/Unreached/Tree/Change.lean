import Unreached.Tree.Basic

/-!
# Changes of a tree

* `Tree.mkdir`, `Tree.mkdirs` : a new directory, and one with its missing parents;
* `Tree.rename` : another place for a file or a directory with all it holds;
* `Tree.write`, `Tree.symlink`, `Tree.remove` : new content, a new link, and the end of a file.
-/

namespace Unreached.Tree

set_option autoImplicit false

variable (tree : Tree)

/-- The tree with a node put at a location. -/
def put (loc : Location) (node : Node) : Tree :=
  ⟨(loc, node) :: tree.entries.filter (·.1 ≠ loc)⟩

/-- The tree without what is at a location. -/
def erase (loc : Location) : Tree := ⟨tree.entries.filter (·.1 ≠ loc)⟩

/-- The location `loc` after what is at `source` has gone to `target`. -/
def moved (source target loc : Location) : Location :=
  if loc.within source then loc.take (loc.length - source.length) ++ target else loc

/-- The tree after what is at `source` has gone to `target`, where nothing stays that was there. -/
def moveTo (source target : Location) : Tree :=
  ⟨(tree.erase target).entries.map fun (loc, node) => (moved source target loc, node)⟩

variable (cwd : Location)

/-- The directory that a path's last segment stands in, and that segment. Without such a segment the
second part is missing. -/
def locateParent (path : Text) : Except Fault (Location × Option Text) := do
  checkPath path
  let segs := Path.segments path
  let dir ← tree.walk true maxLinks (start cwd path) (segs.dropLast ++ [Path.here])
  match segs.getLast? with
  | none => .ok (dir, none)
  | some last =>
    if last = Path.here || last = Path.up then .ok (dir, none)
    else if maxName < last.byteWidth then .error .nameTooLong
    else .ok (dir, some last)

/-- Makes a directory. -/
def mkdir (path : Text) : Except Fault Tree := do
  match ← tree.locateParent cwd path with
  | (_, none) => .error .alreadyExists
  | (dir, some last) =>
    if (tree.node? (last :: dir)).isSome then .error .alreadyExists
    else .ok (tree.put (last :: dir) .dir)

/-- The outcome of an operation that may change the tree before it fails. -/
structure Outcome where
  tree : Tree
  fault? : Option Fault := none

/-- Makes a directory where the attempt may find it made already. -/
def mkdirOrFind (path : Text) : Outcome :=
  match tree.mkdir cwd path with
  | .ok tree => ⟨tree, none⟩
  | .error e => ⟨tree, if tree.isDir cwd path then none else some e⟩

/-- Makes a directory, and first the ones among the given ancestors that are missing. -/
def mkdirsFrom (tree : Tree) (path : Text) : (ancestors : List Text) → Outcome
  | [] =>
    if path.isEmpty then ⟨tree, none⟩
    else match tree.mkdir cwd path with
      | .ok tree => ⟨tree, none⟩
      | .error .notFound => ⟨tree, some .noWholeTree⟩
      | .error e => ⟨tree, if tree.isDir cwd path then none else some e⟩
  | parent :: ancestors =>
    match tree.mkdir cwd path with
    | .ok tree => ⟨tree, none⟩
    | .error .notFound =>
      let made := mkdirsFrom tree parent ancestors
      if made.fault?.isSome then made else made.tree.mkdirOrFind cwd path
    | .error e => ⟨tree, if tree.isDir cwd path then none else some e⟩

/-- Makes a directory with the parents that are missing. The empty path needs none. -/
def mkdirs (path : Text) : Outcome := mkdirsFrom cwd tree path (Path.ancestors path)

/-- Makes the directory that a path is in, with the parents that are missing. -/
def mkParents (path : Text) : Outcome :=
  match Path.parent? path with
  | some parent => tree.mkdirs cwd parent
  | none => ⟨tree, none⟩

/-- Moves what is at one location to another. A file or a link that is there is replaced by a file.
With `slash` set only a directory is moved. -/
def renameAt (slash : Bool) (source target : Location) : Except Fault Tree :=
  match tree.node? source, tree.node? target with
  | none, _ => .error .notFound
  | some .dir, replaced =>
    if source = target then .ok tree
    else if Location.within target source then .error .invalidArgument
    else match replaced with
      | none => .ok (tree.moveTo source target)
      | some .dir =>
        if tree.entries.any fun (loc, _) => loc.within target && loc ≠ target then .error .notEmpty
        else .ok (tree.moveTo source target)
      | some _ => .error .notADirectory
  | some _, replaced =>
    if slash then .error .notADirectory
    else match replaced with
      | some .dir => .error (if Location.within source target then .notEmpty else .isADirectory)
      | _ => .ok (if source = target then tree else tree.moveTo source target)

/-- Moves a file or a directory. A path with a slash at its end tells a directory. -/
def rename (source target : Text) : Except Fault Tree := do
  checkPath source
  checkPath target
  let (sourceDir, sourceName) ← tree.locateParent cwd source
  let (targetDir, targetName) ← tree.locateParent cwd target
  match sourceName, targetName with
  | some sourceName, some targetName =>
    tree.renameAt (source.endsWith ['/'] || target.endsWith ['/']) (sourceName :: sourceDir)
      (targetName :: targetDir)
  | _, _ => .error .busy

/-- Writes a file, which need not exist. A link is followed and must lead to a file. -/
def write (path : Text) (content : Bytes) : Except Fault Tree := do
  match ← tree.locateParent cwd path with
  | (_, none) => .error .isADirectory
  | (dir, some last) =>
    match tree.node? (last :: dir) with
    | none => .ok (tree.put (last :: dir) (.file content))
    | some _ =>
      let loc ← tree.locate cwd path
      if tree.node? loc = some .dir then .error .isADirectory
      else .ok (tree.put loc (.file content))

/-- Makes a symbolic link. -/
def symlink (path target : Text) : Except Fault Tree := do
  match ← tree.locateParent cwd path with
  | (_, none) => .error .alreadyExists
  | (dir, some last) =>
    if (tree.node? (last :: dir)).isSome then .error .alreadyExists
    else .ok (tree.put (last :: dir) (.link target))

/-- Removes a file or a link. -/
def remove (path : Text) : Except Fault Tree := do
  match ← tree.locateParent cwd path with
  | (_, none) => .error .isADirectory
  | (dir, some last) =>
    match tree.node? (last :: dir) with
    | none => .error .notFound
    | some .dir => .error .isADirectory
    | some _ => .ok (tree.erase (last :: dir))

end Unreached.Tree

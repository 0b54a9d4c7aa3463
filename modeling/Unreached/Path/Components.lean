import Unreached.Path.Segments

/-!
# Paths of files

The path of a file on disk is absolute or relative, and may hold `.` and `..` as it was written.

* `join` : a path read from a directory;
* `components` : the parts of a path, without the `.` that change nothing;
* `parent?`, `ancestors` : the paths without their last components;
* `below` : the location of a root-relative path below a directory;
* `between?` : the relative path from one absolute path to another.
-/

namespace Unreached.Path

set_option autoImplicit false

/-- Whether a path starts at the root of all files. -/
def isAbsolute (path : Text) : Bool := path.startsWith ['/']

/-- The path `path` read from the directory `dir`. An absolute path stays as it is. -/
def join (dir path : Text) : Text :=
  if isAbsolute path || dir.isEmpty then path
  else if dir.endsWith ['/'] then dir ++ path
  else dir ++ '/' :: path

/-- The location below `dir` of a path from the project root. -/
def below (dir path : Text) : Text := (segments path).foldl join dir

/-! ## Components -/

/-- A part of a path. -/
inductive Component where
  | root
  | here
  | up
  | name (t : Text)
deriving DecidableEq, Repr

namespace Component

/-- The component of a segment. -/
def ofSegment (s : Text) : Component :=
  if s = Path.here then .here else if s = Path.up then .up else .name s

/-- The segment of a component below the root. -/
def segment : Component → Text
  | .root => []
  | .here => Path.here
  | .up => Path.up
  | .name t => t

end Component

/-- The components of a path. A `.` counts only at the start of a relative path. -/
def components (path : Text) : List Component :=
  let cs := (segments path).map Component.ofSegment
  if isAbsolute path then .root :: cs.filter (· ≠ .here)
  else match cs with
    | .here :: cs => .here :: cs.filter (· ≠ .here)
    | cs => cs.filter (· ≠ .here)

/-- The path with the given components. -/
def ofComponents : List Component → Text
  | .root :: cs => '/' :: joined (cs.map Component.segment)
  | cs => joined (cs.map Component.segment)

/-- The path without its last component. The root and the empty path have none. -/
def parent? (path : Text) : Option Text :=
  match (components path).reverse with
  | [] | [.root] => none
  | _ :: cs => some (ofComponents cs.reverse)

/-- The paths that arise from dropping one or more of the last components, the longest first. The
components stand in reverse. -/
def properAncestors : List Component → List Text
  | [] | [.root] => []
  | _ :: cs => ofComponents cs.reverse :: properAncestors cs

/-- The parent of a path, its parent, and so on. -/
def ancestors (path : Text) : List Text := properAncestors (components path).reverse

/-! ## From one path to another -/

/-- The components of `target` and of `base` after the ones that they share from the start. -/
def afterCommon : List Component → List Component → List Component × List Component
  | t :: target, b :: base => if t = b then afterCommon target base else (t :: target, b :: base)
  | target, base => (target, base)

/-- The relative path that leads from `base` to `target`, if both are absolute or both start
alike. -/
def between? (target base : Text) : Option Text :=
  let target := components target
  let base := components base
  if target.head? ≠ base.head? then none
  else
    let (down, ups) := afterCommon target base
    let steps :=
      ups.map (fun _ => up) ++ (down.map Component.segment).filter fun s => !s.isEmpty && s ≠ here
    some (if steps.isEmpty then here else joined steps)

end Unreached.Path

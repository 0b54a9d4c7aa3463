import Unreached.Path.Components
import Unreached.Text.Bytes
import Unreached.Tree.Fault

/-!
# Trees of files

A tree maps locations to files, directories and symbolic links.

* `Location` : a place in a tree;
* `Tree.node?` : what is at a location;
* `Tree.locate` : the location that a path leads to, through links;
* `Tree.readText`, `Tree.exists`, `Tree.isDir`, `Tree.canonical` : what can be asked about a path.
-/

namespace Unreached

set_option autoImplicit false

/-- A place in a tree, as the names that lead from it up to the root. Its own name comes first, and
the root has none. -/
abbrev Location := List Text

namespace Location

/-- The absolute path of a location. -/
def path (loc : Location) : Text := '/' :: Path.joined loc.reverse

/-- A location, the directory it is in, and so on up to the root. -/
def upward : Location → List Location
  | [] => [[]]
  | name :: dir => (name :: dir) :: upward dir

/-- Whether a location is `top` or lies below it. -/
def within (loc top : Location) : Bool := top.isSuffixOf loc

/-- The names that lead from `top` down to a location within it. -/
def namesBelow (loc top : Location) : List Text := (loc.take (loc.length - top.length)).reverse

end Location

/-- What a tree holds at a location. -/
inductive Node where
  | dir
  | file (content : Bytes)
  | link (target : Text)
deriving DecidableEq, Repr

/-- A tree of files. The root is always a directory and is not listed. -/
structure Tree where
  entries : List (Location × Node) := []
deriving DecidableEq, Repr

namespace Tree
variable (tree : Tree)

/-- What the tree holds at a location. -/
def node? (loc : Location) : Option Node := if loc = [] then some .dir else tree.entries.lookup loc

/-! ## Following paths -/

/-- The segments that a path makes one follow. A slash at the end asks for a directory, as a last
`.` does. -/
def steps (path : Text) : List Text :=
  Path.segments path ++ if path.endsWith ['/'] then [Path.here] else []

/-- The longest name that a file may have, in bytes. -/
def maxName : Nat := 255

/-- Paths must be shorter than this, in bytes. -/
def maxPath : Nat := 4096

/-- The number of links that may be followed on one way. -/
def maxLinks : Nat := 40

/-- Follows segments from a directory. A link is followed unless it is the last and `follow` is not
set. -/
def walk (follow : Bool) (links : Nat) (loc : Location) (segs : List Text) :
    Except Fault Location :=
  match segs with
  | [] => .ok loc
  | s :: segs =>
    if tree.node? loc ≠ some .dir then .error .notADirectory
    else if s = Path.here then walk follow links loc segs
    else if s = Path.up then walk follow links loc.tail segs
    else if maxName < s.byteWidth then .error .nameTooLong
    else match tree.node? (s :: loc) with
      | none => .error .notFound
      | some (.link target) =>
        if segs.isEmpty && !follow then .ok (s :: loc)
        else match links with
          | 0 => .error .linkLoop
          | links + 1 =>
            walk follow links (if Path.isAbsolute target then [] else loc) (steps target ++ segs)
      | some _ => walk follow links (s :: loc) segs
termination_by (links, segs.length)

/-- Refuses the paths that no file can have. -/
def checkPath (path : Text) : Except Fault Unit :=
  if path.contains '\x00' then .error .nulInPath
  else if path.isEmpty then .error .notFound
  else if maxPath ≤ path.byteWidth then .error .nameTooLong
  else .ok ()

variable (cwd : Location)

/-- The directory that a path starts from. -/
def start (path : Text) : Location := if Path.isAbsolute path then [] else cwd

/-- The location that a path leads to from the directory `cwd`, through links. -/
def locate (path : Text) : Except Fault Location := do
  checkPath path
  tree.walk true maxLinks (start cwd path) (steps path)

/-- What a path leads to, through links. -/
def stat (path : Text) : Except Fault Node := do
  let loc ← tree.locate cwd path
  match tree.node? loc with
  | none => .error .notFound
  | some node => .ok node

/-- Whether a path leads to something. -/
def exists? (path : Text) : Bool := (tree.stat cwd path).isOk

/-- Whether a path leads to a directory. -/
def isDir (path : Text) : Bool := (tree.stat cwd path).toOption = some .dir

/-- The absolute path without links of the place that a path leads to. -/
def canonical (path : Text) : Except Fault Text := (tree.locate cwd path).map Location.path

/-- The content of the file that a path leads to. -/
def read (path : Text) : Except Fault Bytes := do
  match ← tree.stat cwd path with
  | .file content => .ok content
  | .dir => .error .isADirectory
  | .link _ => .error .notFound

/-- The text of the file that a path leads to. -/
def readText (path : Text) : Except Fault Text := do
  match (← tree.read cwd path).text? with
  | some t => .ok t
  | none => .error .notText

end Tree

end Unreached

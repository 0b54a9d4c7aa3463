import Unreached.Text.Basic

/-!
# Segments of a path

A path text is read as its non-empty segments between slashes.

* `segments`, `ofSegments` : the segments of a path, and the path `/a/b` of a list of segments;
* `walk?` : following segments from a location, which fails on a climb above the root;
* `normal` : the same with the climb above the root clamped, which is the lexical normal form of an
  absolute path;
* `dirPart`, `namePart`, `stem`, `extension?` : the parts of a path around its last slash and its
  last dot.
-/

namespace Unreached.Path

set_option autoImplicit false

/-! ## Segments -/

/-- The non-empty segments of a path. -/
def segments (path : Text) : List Text := (path.splitOn '/').filter (!·.isEmpty)

/-- The root-anchored path of a list of segments, empty for none. -/
def ofSegments (segs : List Text) : Text := segs.flatMap ('/' :: ·)

/-- The segments joined by slashes. -/
def joined : List Text → Text
  | [] => []
  | [s] => s
  | s :: segs => s ++ '/' :: joined segs

/-- The segment that stays where it is. -/
def here : Text := ['.']

/-- The segment that climbs to the parent. -/
def up : Text := ['.', '.']

/-! ## Walks -/

/-- Follows segments from a location, whose deepest segment comes first. A climb above the root
fails. -/
def walk? : List Text → List Text → Option (List Text)
  | stack, [] => some stack
  | stack, s :: segs =>
    if s = here then walk? stack segs
    else if s = up then
      match stack with
      | [] => none
      | _ :: stack => walk? stack segs
    else walk? (s :: stack) segs

/-- Follows segments from a location, whose deepest segment comes first. A climb above the root
stays at the root. -/
def clampedWalk : List Text → List Text → List Text
  | stack, [] => stack
  | stack, s :: segs =>
    if s = here then clampedWalk stack segs
    else if s = up then clampedWalk stack.tail segs
    else clampedWalk (s :: stack) segs

/-- The segments of the lexical normal form of an absolute path. -/
def normal (path : Text) : List Text := (clampedWalk [] (segments path)).reverse

/-! ## The last segment -/

/-- The part of a path up to and including its last slash. -/
def dirPart (path : Text) : Text := (path.reverse.dropWhile (· ≠ '/')).reverse

/-- The part of a path after its last slash. -/
def namePart (path : Text) : Text := (path.reverse.takeWhile (· ≠ '/')).reverse

/-- A file name around its last dot. A dot that starts the name starts no extension. -/
def splitName (name : Text) : Text × Option Text :=
  match name.reverse.dropWhile (· ≠ '.') with
  | _ :: c :: base => ((c :: base).reverse, some (name.reverse.takeWhile (· ≠ '.')).reverse)
  | _ => (name, none)

/-- The path without the extension of its file name. -/
def stem (path : Text) : Text := dirPart path ++ (splitName (namePart path)).1

/-- The extension of the path's file name. -/
def extension? (path : Text) : Option Text := (splitName (namePart path)).2

theorem dirPart_append_namePart (path : Text) : dirPart path ++ namePart path = path := by
  rw [dirPart, namePart, ← List.reverse_append, List.takeWhile_append_dropWhile,
    List.reverse_reverse]

end Unreached.Path

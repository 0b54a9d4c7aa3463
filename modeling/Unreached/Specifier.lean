import Unreached.Path.Segments

/-!
# Module specifiers

* `isRelative`, `isAnchored` : specifiers read from the importing file and from the project root;
* `split` : the levels that a specifier climbs, and the segments that it then descends;
* `relativize` : the relative specifier that leads from a file to a location.
-/

namespace Unreached.Specifier

set_option autoImplicit false

/-- Whether a specifier is read from the directory of the importing file. -/
def isRelative (spec : Text) : Bool :=
  spec = Path.here || spec = Path.up || spec.startsWith "./".toList || spec.startsWith "../".toList

/-- Whether a specifier is read from the project root. -/
def isAnchored (spec : Text) : Bool := spec.startsWith ['/']

/-- Follows segments after `levels` climbs and the descent `down`, whose deepest segment comes
first. -/
def splitFrom : (levels : Nat) → (down : List Text) → List Text → Nat × List Text
  | levels, down, [] => (levels, down.reverse)
  | levels, down, s :: segs =>
    if s = Path.here then splitFrom levels down segs
    else if s = Path.up then
      match down with
      | [] => splitFrom (levels + 1) [] segs
      | _ :: down => splitFrom levels down segs
    else splitFrom levels (s :: down) segs

/-- The number of levels that a specifier climbs and the segments that it descends from there. A
`..` takes back the segment before it, and climbs where there is none. -/
def split (spec : Text) : Nat × List Text := splitFrom 0 [] (Path.segments spec)

/-- The number of segments of the importing file's path that a specifier leaves: the file itself and
one for each level climbed. -/
def ascent (spec : Text) : Nat := (split spec).1 + 1

/-- The number of leading segments that two lists share. -/
def commonLength : List Text → List Text → Nat
  | a :: as, b :: bs => if a = b then commonLength as bs + 1 else 0
  | _, _ => 0

/-- The relative specifier that leads from the directory of the file `importer` to the location
`target`. -/
def relativize (importer target : Text) : Text :=
  let dir := (Path.segments importer).dropLast
  let target := Path.segments target
  let common := commonLength dir target
  let rest := Path.joined (target.drop common)
  if dir.length = common then "./".toList ++ rest
  else Text.times (dir.length - common) "../".toList ++ rest

end Unreached.Specifier

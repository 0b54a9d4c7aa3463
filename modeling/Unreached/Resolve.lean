import Unreached.Alias.Table
import Unreached.Inventory
import Unreached.Specifier

/-!
# Resolution of specifiers

A specifier names a location without its extension, or with one, or a directory with an index file.
`resolve?` finds the file of the inventory that it names when imported from a given file. A relative
specifier falls back to the first file whose path ends like it; aliases only apply to specifiers
that are neither relative nor root-anchored.
-/

namespace Unreached

set_option autoImplicit false

/-- One way to read a specifier: the end that the file's stem must have, and the exact stem if the
location is known. -/
structure Probe where
  tail : Text
  place? : Option Text
deriving DecidableEq, Repr

/-- The probe with `f` applied to both of its texts. -/
def Probe.map (f : Text → Text) (p : Probe) : Probe := ⟨f p.tail, p.place?.map f⟩

/-- Whether a path ends in the extension of a source file. -/
def hasSourceExtension (path : Text) : Bool := (Path.extension? path).any sourceExtensions.contains

/-- The readings of a probe in the order in which they are tried: as it stands, without its source
extension, and as a directory with an index file. Without a tail only the last is left. -/
def Probe.variants (p : Probe) : List Probe :=
  (if p.tail.isEmpty then []
    else if hasSourceExtension p.tail then [p, p.map Path.stem]
    else [p])
    ++ [p.map (· ++ "/index".toList)]

/-- The probe of a relative specifier of `importer`. Above the project root the exact location is
unknown. -/
def Probe.relative (spec importer : Text) : Probe :=
  let tail := (Specifier.split spec).2
  let ascent := Specifier.ascent spec
  let place := Path.segments importer
  ⟨Path.ofSegments tail,
    if ascent ≤ place.length then
      some (Path.ofSegments (place.take (place.length - ascent) ++ tail))
    else none⟩

/-- The probe of a root-anchored specifier. -/
def Probe.anchored (spec : Text) : Probe :=
  let tail := Path.ofSegments (Specifier.split spec).2
  ⟨tail, some tail⟩

namespace Inventory
variable (inv : Inventory)

/-- The first file whose stem ends with `tail`. -/
def bySuffix? (tail : Text) : Option SourceFile := inv.files.find? (·.stem.endsWith tail)

/-- The file at a probe's exact location, and failing that, where `anywhere` is set, the first that
ends like it. -/
def match? (anywhere : Bool) (p : Probe) : Option SourceFile :=
  (p.place?.bind inv.byStem?).or (if anywhere then inv.bySuffix? p.tail else none)

/-- The file that the first successful reading of a probe finds. -/
def probe? (anywhere : Bool) (p : Probe) : Option SourceFile :=
  p.variants.findSome? (inv.match? anywhere)

/-- The file that a relative specifier of `importer` names. -/
def resolveRelative? (spec importer : Text) : Option SourceFile :=
  inv.probe? true (.relative spec importer)

/-- The file that a root-anchored specifier names. -/
def resolveAnchored? (spec : Text) : Option SourceFile := inv.probe? false (.anchored spec)

/-- The file that a specifier names when the file `importer` imports it. -/
def resolve? (aliases : Alias.Table) (spec importer : Text) : Option SourceFile :=
  if Specifier.isRelative spec then inv.resolveRelative? spec importer
  else if Specifier.isAnchored spec then inv.resolveAnchored? spec
  else (aliases.candidates spec).findSome? fun rule =>
    inv.resolveRelative? (Specifier.relativize importer (rule.substitute spec)) importer

end Inventory

end Unreached

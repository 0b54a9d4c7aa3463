import Unreached.Import.Scan
import Unreached.Resolve

/-!
# The import graph of a project

The files of a project are the vertices of a graph, and an import that resolves is an edge.

* `Project` : the files that take part and how imports are read;
* `Project.imports`, `Project.resolve?` : the local specifiers of a file, and the file that one
  names;
* `Project.targets` : the files that a file imports.
-/

namespace Unreached

set_option autoImplicit false

/-- The texts of the files of a project by their paths, where they can be read. -/
abbrev Sources := Text → Option Text

/-- The characters that start a specifier of the project itself. -/
def localMarkers : List Char := ['~', '.', '/']

/-- The starts of specifiers of generated code, which is not part of a project's files. -/
def generatedLeads : List Text := ["~/edgedb".toList]

/-- A project as its import graph sees it. -/
structure Project where
  /-- The files that an import can name. -/
  inventory : Inventory
  aliases : Alias.Table := {}
  /-- Whether re-exports count as imports. -/
  reexports : Bool := false
  /-- The starts of specifiers that are never resolved. -/
  skippedLeads : List Text := generatedLeads

namespace Project
variable (p : Project)

/-- Whether a specifier points into the project. -/
def isLocal (spec : Text) : Bool := spec.head?.any localMarkers.contains || p.aliases.isAlias spec

/-- Whether a specifier is never resolved. -/
def isSkipped (spec : Text) : Bool := p.skippedLeads.any spec.startsWith

/-- The local specifiers that a file imports. A file that cannot be read imports nothing. -/
def imports (sources : Sources) (file : Text) : List Text :=
  match sources file with
  | some source => Import.scan p.reexports p.isLocal source
  | none => []

/-- The path of the file that a specifier of the file `importer` names. -/
def resolve? (importer spec : Text) : Option Text :=
  (p.inventory.resolve? p.aliases spec importer).map (·.path)

/-- The files that the specifiers of the file `importer` name, but for those that are never
resolved. -/
def resolveAll (importer : Text) (specs : List Text) : List Text :=
  (specs.filter (!p.isSkipped ·)).filterMap (p.resolve? importer)

/-- The files that a file imports. -/
def targets (sources : Sources) (file : Text) : List Text :=
  p.resolveAll file (p.imports sources file)

end Project

end Unreached

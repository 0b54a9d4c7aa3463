import Unreached.Alias.Table
import Unreached.Json.Relaxed
import Unreached.Json.Strict
import Unreached.Ordered
import Unreached.Path.Segments

/-!
# Aliases of a tsconfig document

* `Tsconfig.ofJson?` : the part of a tsconfig document that defines aliases;
* `Tsconfig.read?` : the same for a text, which may be JSON or its relaxed form;
* `Tsconfig.table` : the alias rules of a document in a given directory.
-/

namespace Unreached

set_option autoImplicit false

/-- What a tsconfig document says on aliases. -/
structure Tsconfig where
  /-- The directory that targets are read from. -/
  baseUrl : Option Text := none
  /-- The aliases with their targets, in the order of the aliases. -/
  paths : List (Text × List Text) := []
deriving DecidableEq, Repr

namespace Tsconfig

/-! ## Reading -/

/-- A text, or nothing for null. -/
def optionalText? : Json → Option (Option Text)
  | .null => some none
  | .text t => some (some t)
  | _ => none

/-- A list of texts. -/
def texts? : Json → Option (List Text)
  | .list items => items.mapM fun | .text t => some t | _ => none
  | _ => none

/-- The aliases with their targets. Of several members with one key the last counts. -/
def paths? : Json → Option (List (Text × List Text))
  | .object members =>
    let last := members.foldl (fun entries member => insertBy Prod.fst member entries) []
    last.mapM fun (key, v) => (texts? v).map (key, ·)
  | _ => none

/-- The compiler options, as an object or as a list of the values in their order. -/
def ofOptions? : Json → Option Tsconfig
  | .object members => do
    let baseUrl ← ((Json.member? members "baseUrl".toList).map optionalText?).getD (some none)
    let paths ← ((Json.member? members "paths".toList).map paths?).getD (some [])
    return ⟨baseUrl, paths⟩
  | .list [baseUrl] => do return ⟨← optionalText? baseUrl, []⟩
  | .list [baseUrl, paths] => do return ⟨← optionalText? baseUrl, ← paths? paths⟩
  | _ => none

/-- The document, as an object or as a list of the values in their order. -/
def ofJson? : Json → Option Tsconfig
  | .object members =>
    ((Json.member? members "compilerOptions".toList).map ofOptions?).getD (some {})
  | .list [] => some {}
  | .list [options] => ofOptions? options
  | _ => none

/-- Reads a document, as JSON and failing that as relaxed JSON. -/
def read? (t : Text) : Option Tsconfig :=
  ((Json.Strict.read? t).or (Json.Relaxed.read? t)).bind ofJson?

/-! ## Rules -/

/-- A text without the stars at its end. -/
def dropStars (t : Text) : Text := t.dropEndWhile (· = '*')

/-- The location, from the project root, of a target of a document in the directory `dir`. It is
normalised, backslashes then become slashes, and it keeps a slash at its end where the alias has
one. -/
def location (dir baseUrl target : Text) (keepSlash : Bool) : Text :=
  let path := '/' :: dir ++ '/' :: baseUrl ++ '/' :: dropStars target
  let out := Text.replaceChar '\\' '/' ('/' :: Path.joined (Path.normal path))
  if keepSlash && !out.endsWith ['/'] then out ++ ['/'] else out

/-- The rules of the alias `key`. -/
def rulesOf (dir baseUrl key : Text) (targets : List Text) : List Alias.Rule :=
  let lead := dropStars key
  targets.map fun target =>
    ⟨lead, location dir baseUrl target (lead.endsWith ['/']), key.endsWith ['*']⟩

/-- The alias table of a document in the directory `dir`, which is empty for the project root. -/
def table (doc : Tsconfig) (dir : Text) : Alias.Table :=
  ⟨doc.paths.flatMap fun (key, targets) => rulesOf dir (doc.baseUrl.getD ['.']) key targets⟩

end Tsconfig

/-- The alias table of a tsconfig text in the directory `dir`. -/
def Alias.Table.read? (text dir : Text) : Option Alias.Table :=
  (Tsconfig.read? text).map (·.table dir)

end Unreached

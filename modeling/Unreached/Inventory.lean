import Unreached.Ordered
import Unreached.SourceFile

/-!
# Inventories

An inventory holds the files that take part in an analysis, one for each path, in the order of their
paths, and an index of their positions by stems.

* `StemIndex.ofFiles` : the positions of files by their stems;
* `Inventory.ofFiles` : the inventory of a list of files, where the first of several with one path
  stays;
* `Inventory.get?` : the file with a given path, found by halving the list;
* `Inventory.byStem?` : the first file with a given stem, found in the index;
* `Inventory.filter` : the files that satisfy a condition.
-/

namespace Unreached

set_option autoImplicit false

/-! ## Positions by stems -/

/-- The positions of files by their stems. -/
abbrev StemIndex := List (Text × List Nat)

namespace StemIndex

/-- The index with a position more for a stem, after those that it has. -/
def add (stem : Text) (position : Nat) : StemIndex → StemIndex
  | [] => [(stem, [position])]
  | (s, positions) :: index =>
    if s = stem then (s, positions ++ [position]) :: index
    else (s, positions) :: add stem position index

/-- The index with the positions of files, the first of which is at `start`. -/
def addAll (index : StemIndex) (start : Nat) : List SourceFile → StemIndex
  | [] => index
  | f :: files => addAll (index.add f.stem start) (start + 1) files

/-- The index of a list of files. -/
def ofFiles (files : List SourceFile) : StemIndex := addAll [] 0 files

/-- The positions of a stem. -/
def positions (index : StemIndex) (stem : Text) : List Nat := (index.lookup stem).getD []

end StemIndex

/-! ## Searching by halves -/

/-- The file with a given path in a list in the order of paths. As long as there is more than one
file, the one in the middle tells in which half to go on. -/
def searchPath (path : Text) (files : List SourceFile) : Option SourceFile :=
  if h : 1 < files.length then
    let half := files.length / 2
    have : half < files.length := by omega
    if path < files[half].path then searchPath path (files.take half)
    else searchPath path (files.drop half)
  else files.head?.filter (·.path = path)
termination_by files.length
decreasing_by
  · simp only [List.length_take]
    omega
  · simp only [List.length_drop]
    omega

/-! ## Inventories -/

/-- The files of an analysis. -/
structure Inventory where
  /-- The files, in the order of their paths. -/
  files : List SourceFile
  ascending : Ascending SourceFile.path files
  /-- The positions of the files by their stems. -/
  index : StemIndex := .ofFiles files
  indexed : index = .ofFiles files := by rfl

namespace Inventory

theorem ext {inv inv' : Inventory} (h : inv.files = inv'.files) : inv = inv' := by
  obtain ⟨files, ascending, index, rfl⟩ := inv
  obtain ⟨files', ascending', index', rfl⟩ := inv'
  cases h
  rfl

/-- The inventory without files. -/
def empty : Inventory := { files := [], ascending := List.Pairwise.nil }

/-- Files in the order of their paths. Of several files with one path the first stays. -/
def arrange : List SourceFile → List SourceFile
  | [] => []
  | f :: files => insertBy SourceFile.path f (arrange files)

theorem ascending_arrange (files : List SourceFile) :
    Ascending SourceFile.path (arrange files) := by
  induction files with
  | nil => exact List.Pairwise.nil
  | cons f files ih => exact ascending_insertBy ih

/-- The inventory of a list of files. Of several files with one path the first stays. -/
def ofFiles (files : List SourceFile) : Inventory :=
  { files := arrange files, ascending := ascending_arrange files }

/-- The inventory of the files at the given paths. -/
def ofPaths (paths : List Text) : Inventory := ofFiles (paths.map SourceFile.ofPath)

/-- The paths of the files. -/
def paths (inv : Inventory) : List Text := inv.files.map (·.path)

theorem nodup_paths (inv : Inventory) : inv.paths.Nodup := inv.ascending.nodup_keys

/-- The number of files. -/
def size (inv : Inventory) : Nat := inv.files.length

/-- Whether there is no file. -/
def isEmpty (inv : Inventory) : Bool := inv.files.isEmpty

/-- The file with a given path. -/
def get? (inv : Inventory) (path : Text) : Option SourceFile := searchPath path inv.files

/-- The first file, in the order of paths, with a given stem. -/
def byStem? (inv : Inventory) (stem : Text) : Option SourceFile :=
  (inv.index.positions stem).head?.bind (inv.files[·]?)

/-- The files that satisfy `keep`. -/
def filter (inv : Inventory) (keep : SourceFile → Bool) : Inventory :=
  { files := inv.files.filter keep, ascending := inv.ascending.filter keep }

end Inventory

end Unreached

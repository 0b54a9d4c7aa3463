import Unreached.Proofs.Locations

/-!
# Files that are named with their extension

Files are looked up by their stems, so a specifier that names a file with its extension competes
with the other files of that stem.

* `Path.splitName_append` : a name that ends in an extension has it, unless the dot starts the name;
* `Inventory.probe?_named_file` : the order in which the location of a named file is read;
* `named_file_found` : what is found for a specifier that names a file with its extension.
-/

namespace Unreached

set_option autoImplicit false

/-! ## Extensions -/

theorem dot_not_mem_sourceExtensions {ext : Text} (h : ext ∈ sourceExtensions) : '.' ∉ ext := by
  revert ext
  decide

theorem two_le_length_sourceExtensions {ext : Text} (h : ext ∈ sourceExtensions) :
    2 ≤ ext.length := by
  revert ext
  decide

namespace Path
variable {name ext : Text} {segs : List Text}

theorem splitName_append (base : Text) (hext : '.' ∉ ext) :
    splitName (base ++ '.' :: ext) =
      if base = [] then ('.' :: ext, none) else (base, some ext) := by
  have hdots : ∀ c ∈ ext.reverse, decide (c ≠ '.') = true := by
    intro c hc
    simpa using fun heq : c = '.' => hext (heq ▸ List.mem_reverse.1 hc)
  have hreverse : (base ++ '.' :: ext).reverse = ext.reverse ++ '.' :: base.reverse := by simp
  unfold splitName
  rw [hreverse, List.dropWhile_append_of_pos hdots, List.takeWhile_append_of_pos hdots]
  rcases List.eq_nil_or_concat' base with rfl | ⟨base, c, rfl⟩ <;> simp

theorem splitName_of_endsWith (hext : '.' ∉ ext) (h : name.endsWith ('.' :: ext)) :
    (splitName name).2 = some ext ∨ splitName name = (name, none) := by
  obtain ⟨base, rfl⟩ := List.isSuffixOf_iff_suffix.1 h
  rw [splitName_append base hext]
  split <;> simp_all

end Path

/-! ## Named files -/

/-- Whether a relative or root-anchored specifier names a file with its extension. -/
structure Specifier.NamesFile (aliases : Alias.Table) (spec importer : Text) (file : SourceFile) :
    Prop where
  not_isBare : isBare spec = false
  extension : ∃ name ∈ (Path.segments spec).getLast?, ∃ ext ∈ sourceExtensions,
    name.endsWith ('.' :: ext)
  location : ∃ location ∈ locations aliases spec importer, file.path = Path.ofSegments location

instance (aliases : Alias.Table) (spec importer : Text) (file : SourceFile) :
    Decidable (Specifier.NamesFile aliases spec importer file) :=
  decidable_of_iff
    (Specifier.isBare spec = false ∧
      (∃ name ∈ (Path.segments spec).getLast?, ∃ ext ∈ sourceExtensions,
        name.endsWith ('.' :: ext)) ∧
      ∃ location ∈ Specifier.locations aliases spec importer, file.path = Path.ofSegments location)
    ⟨fun ⟨hbare, hextension, hlocation⟩ => ⟨hbare, hextension, hlocation⟩,
      fun ⟨hbare, hextension, hlocation⟩ => ⟨hbare, hextension, hlocation⟩⟩

namespace Specifier
variable {aliases : Alias.Table} {spec importer : Text} {file : SourceFile}

/-- The descent of a specifier that ends in an extension ends with its last segment. -/
theorem split_of_extension {name ext : Text} (hlast : (Path.segments spec).getLast? = some name)
    (hsource : ext ∈ sourceExtensions) (hends : name.endsWith ('.' :: ext)) :
    ∃ tail, (split spec).2 = tail ++ [name] := by
  obtain ⟨segs, hsegs⟩ := List.getLast?_eq_some_iff.1 hlast
  have hlength : 3 ≤ name.length := by
    have hsuffix := (List.isSuffixOf_iff_suffix.1 hends).length_le
    have := two_le_length_sourceExtensions hsource
    simp only [List.length_cons] at hsuffix
    omega
  have hhere : name ≠ Path.here := fun heq => by simp [heq, Path.here] at hlength
  have hup : name ≠ Path.up := fun heq => by simp [heq, Path.up] at hlength
  exact ⟨_, by rw [split, hsegs, splitFrom_append_name hhere hup]⟩

end Specifier

namespace Inventory
variable {inv : Inventory} {anywhere : Bool} {front tail : List Text} {name ext : Text}
  {file found : SourceFile}

/-- The location of a file with its extension is read as a stem first, and then without the
extension. -/
theorem probe?_named_file (hfile : file ∈ inv.files)
    (hpath : file.path = Path.ofSegments (front ++ (tail ++ [name]))) (hname : '/' ∉ name)
    (hsource : ext ∈ sourceExtensions) (hends : name.endsWith ('.' :: ext)) :
    inv.probe? anywhere (.ofLocation front (tail ++ [name])) =
      (inv.byStem? file.path).or
        ((if anywhere then inv.bySuffix? (Path.ofSegments (tail ++ [name])) else none).or
          (inv.byStem? file.stem)) := by
  obtain ⟨first, hfirst⟩ := byStem?_isSome hfile
  have hmatch : inv.match? anywhere (.ofLocation front (tail ++ [name])) =
      (inv.byStem? file.path).or
        (if anywhere then inv.bySuffix? (Path.ofSegments (tail ++ [name])) else none) :=
    match?_of_place (congrArg some hpath.symm)
  have hstem : file.stem = Path.stem (Path.ofSegments (front ++ (tail ++ [name]))) :=
    congrArg Path.stem hpath
  rw [probe?, Probe.ofLocation, Probe.variants_eq (by simp), List.findSome?_cons,
    ← Probe.ofLocation, ← Option.or_assoc, ← hmatch]
  cases hfound : inv.match? anywhere (.ofLocation front (tail ++ [name])) with
  | some found => rfl
  | none =>
    rw [Option.none_or, hfirst]
    rcases Path.splitName_of_endsWith (dot_not_mem_sourceExtensions hsource) hends with hsplit |
      hsplit
    · have hextension : hasSourceExtension (Path.ofSegments (tail ++ [name])) := by
        rw [Path.hasSourceExtension_concat tail hname, hsplit]
        simpa using hsource
      rw [if_pos hextension, List.singleton_append, List.findSome?_cons,
        match?_of_place (congrArg some hstem.symm), hfirst]
      rfl
    · -- the dot starts the name, so the location is a stem, and the file has it
      have hwhole : file.stem = file.path := by
        rw [hstem, hpath, ← List.append_assoc, Path.stem_concat _ hname, hsplit,
          Path.ofSegments_concat]
      rw [← hwhole, hfirst, Option.some_or] at hmatch
      rw [hmatch] at hfound
      cases hfound

end Inventory

/-- **Files named with their extension.** If a relative or root-anchored specifier names a file with
its extension, then a file is found: the first that has the whole location as its stem, failing
that, for a relative specifier, the first whose stem ends like the specifier, and failing that the
first with the stem of the file. So the file itself is found if no file with its stem comes before
it and the stem of no other file is the location, or ends like the specifier. -/
theorem named_file_found (inv : Inventory) (aliases : Alias.Table) (spec importer : Text)
    (file : SourceFile) (hfile : file ∈ inv.files)
    (hnames : Specifier.NamesFile aliases spec importer file) :
    ∃ found, inv.resolve? aliases spec importer = some found ∧
      (inv.byStem? file.path).or
        ((if Specifier.isAnchored spec then none
          else inv.bySuffix? (Path.ofSegments (Specifier.split spec).2)).or
          (inv.byStem? file.stem)) = some found ∧
      ((∀ other ∈ inv.files, other.stem = file.stem → ¬other.path < file.path) →
        (∀ other ∈ inv.files, other ≠ file →
          if Specifier.isAnchored spec then other.stem ≠ file.path
          else ¬other.stem.endsWith (Path.ofSegments (Specifier.split spec).2)) →
        found = file) := by
  obtain ⟨hbare, ⟨name, hlast, ext, hsource, hends⟩, location, hlocation, hpath⟩ := hnames
  obtain ⟨tail, htail⟩ := Specifier.split_of_extension hlast hsource hends
  obtain ⟨front, rfl, hresolve⟩ := inv.resolve?_of_location hbare hlocation
  have hslash : '/' ∉ name := (Path.isSegment_of_mem_segments (List.mem_of_getLast? hlast)).2
  rw [htail] at hpath hresolve ⊢
  rw [Inventory.probe?_named_file hfile hpath hslash hsource hends] at hresolve
  have hside :
      (if !Specifier.isAnchored spec then inv.bySuffix? (Path.ofSegments (tail ++ [name]))
        else none) =
      if Specifier.isAnchored spec then none
      else inv.bySuffix? (Path.ofSegments (tail ++ [name])) := by
    cases Specifier.isAnchored spec <;> rfl
  rw [hside] at hresolve
  obtain ⟨first, hfirst⟩ := Inventory.byStem?_isSome hfile
  obtain ⟨found, hfound⟩ : ∃ found, inv.resolve? aliases spec importer = some found := by
    rw [hresolve, hfirst, ← Option.or_assoc]
    exact Option.isSome_iff_exists.1 (by simp)
  refine ⟨found, hfound, hresolve.symm.trans hfound, fun hfirstOfStem hrivals => ?_⟩
  have hmem : found ∈ inv.files := Inventory.mem_of_resolve? hfound
  by_contra hne
  have hrival := hrivals found hmem hne
  rw [hresolve] at hfound
  rcases Option.or_eq_some_iff.1 hfound with hwhole | ⟨-, hfound⟩
  · have hstem := (Inventory.of_byStem? hwhole).2
    split at hrival
    · exact hrival hstem
    · refine hrival (List.isSuffixOf_iff_suffix.2 ?_)
      rw [hstem, hpath, Path.ofSegments_append front]
      exact List.suffix_append _ _
  · rcases Option.or_eq_some_iff.1 hfound with hsuffix | ⟨-, hstem⟩
    · split at hsuffix
      · cases hsuffix
      · next hanchored =>
        rw [if_neg hanchored] at hrival
        exact hrival (Inventory.of_bySuffix? hsuffix).2
    · have hnot : ¬file.path < found.path :=
        Inventory.find?_first (Inventory.find?_of_byStem? hstem) hfile (decide_eq_true rfl)
      refine hfirstOfStem found hmem (Inventory.of_byStem? hstem).2
        (lt_of_not_lt_of_ne hnot fun heq => ?_)
      exact hne (Inventory.eq_of_path_eq hmem hfile heq.symm)

/-! ### Files that share a stem -/

def siblingFiles : Inventory := .ofPaths ["/src/util.ts".toList, "/src/util.tsx".toList]

theorem named_file_found_siblingFiles :
    SourceFile.ofPath "/src/util.ts".toList ∈ siblingFiles.files ∧
      Specifier.NamesFile {} "./util.ts".toList "/src/main.ts".toList
        (.ofPath "/src/util.ts".toList) ∧
      siblingFiles.resolve? {} "./util.ts".toList "/src/main.ts".toList =
        some (.ofPath "/src/util.ts".toList) := by
  have hfile : SourceFile.ofPath "/src/util.ts".toList ∈ siblingFiles.files := by decide +kernel
  have hnames : Specifier.NamesFile {} "./util.ts".toList "/src/main.ts".toList
      (.ofPath "/src/util.ts".toList) := by
    decide +kernel
  obtain ⟨found, hfound, -, heq⟩ := named_file_found siblingFiles {} _ _ _ hfile hnames
  exact ⟨hfile, hnames, heq (by decide +kernel) (by decide +kernel) ▸ hfound⟩

/-- Whether a specifier finds the file that it names with its extension. -/
def FindsNamedFile (inv : Inventory) (spec importer : Text) (file : SourceFile) : Prop :=
  file ∈ inv.files → Specifier.NamesFile {} spec importer file →
    inv.resolve? {} spec importer = some file

instance (inv : Inventory) (spec importer : Text) (file : SourceFile) :
    Decidable (FindsNamedFile inv spec importer file) :=
  inferInstanceAs (Decidable (file ∈ inv.files → Specifier.NamesFile {} spec importer file →
    inv.resolve? {} spec importer = some file))

/-- Another file is found if it shares the stem and comes first, if it has the location as its stem,
or if its stem ends like the specifier. -/
theorem named_file_not_found :
    ¬FindsNamedFile (.ofPaths ["/util.js".toList, "/util.ts".toList]) "./util.ts".toList
      "/main.ts".toList (.ofPath "/util.ts".toList) ∧
    ¬FindsNamedFile (.ofPaths ["/util.ts".toList, "/util.ts.js".toList]) "/util.ts".toList
      "/main.ts".toList (.ofPath "/util.ts".toList) ∧
    ¬FindsNamedFile (.ofPaths ["/a/util.ts.js".toList, "/b/util.ts".toList]) "./util.ts".toList
      "/b/main.ts".toList (.ofPath "/b/util.ts".toList) := by
  decide +kernel

end Unreached

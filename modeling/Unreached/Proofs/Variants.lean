import Mathlib.Data.List.Basic
import Unreached.Proofs.NamedFiles

/-!
# What specifiers can find

The segments that a specifier descends are read in up to three ways, and the first way that fits a
file decides.

* `Path.EndsIn` : paths that end with given segments, on a segment boundary;
* `Specifier.variants` : the ways to read a descent. The variants of a probe are the probes of these
  (`Probe.variants_below`);
* `Inventory.FindsFirst` : a search that finds a file if one fits, and then one that the first
  reading possible fits;
* `resolution_exact` : resolution is such a search, by the end of the stem for relative specifiers,
  and by the whole stem for root-anchored ones.
-/

namespace Unreached

set_option autoImplicit false

/-! ## Names and their extensions -/

namespace Path
variable {name base ext path : Text} {segs : List Text}

theorem eq_of_splitName (h : splitName name = (base, some ext)) : name = base ++ '.' :: ext := by
  unfold splitName at h
  split at h
  · next dot c rest hdrop =>
    have hdot : dot = '.' := by
      have hhead := List.head?_dropWhile_not (· ≠ '.') name.reverse
      rw [hdrop] at hhead
      simpa using hhead
    have hname : name =
        (name.reverse.takeWhile (· ≠ '.') ++ name.reverse.dropWhile (· ≠ '.')).reverse := by
      rw [List.takeWhile_append_dropWhile, List.reverse_reverse]
    rw [hdrop, hdot] at hname
    simp only [Prod.mk.injEq, Option.some.injEq] at h
    obtain ⟨rfl, rfl⟩ := h
    exact hname.trans (by simp)
  · simp at h

/-- The part of a name before its source extension, unless the dot starts the name. -/
def sourceBase? (name : Text) : Option Text :=
  (sourceExtensions.findSome? fun ext => name.dropSuffix? ('.' :: ext)).filter (!·.isEmpty)

theorem sourceBase?_eq (name : Text) :
    sourceBase? name =
      if (splitName name).2.any sourceExtensions.contains then some (splitName name).1
      else none := by
  unfold sourceBase?
  cases hfound : sourceExtensions.findSome? fun ext => name.dropSuffix? ('.' :: ext) with
  | some base =>
    obtain ⟨ext, hsource, hdrop⟩ := List.exists_of_findSome?_eq_some hfound
    obtain ⟨_, rfl, heq⟩ := List.dropSuffix?_eq_some_iff.1 hdrop
    rw [beq_iff_eq.1 heq, splitName_append base (dot_not_mem_sourceExtensions hsource)]
    split <;> simp_all
  | none =>
    cases hsplit : splitName name with
    | mk base ext? =>
      cases ext? with
      | none => rfl
      | some ext =>
        have hext : ext ∉ sourceExtensions := by
          intro hsource
          have hnone := List.findSome?_eq_none_iff.1 hfound ext hsource
          have hdrop : name.dropSuffix? ('.' :: ext) = some base :=
            List.dropSuffix?_eq_some_iff.2 ⟨_, eq_of_splitName hsplit, beq_self_eq_true _⟩
          rw [hdrop] at hnone
          cases hnone
        simp [hext]

/-! ## Ends of paths -/

/-- Whether a path ends with the given segments, the first of which stands after a slash. -/
def EndsIn (path : Text) (segs : List Text) : Prop := ∃ front, path = front ++ '/' :: joined segs

theorem endsWith_iff_endsIn : path.endsWith ('/' :: joined segs) ↔ EndsIn path segs := by
  rw [Text.endsWith, List.isSuffixOf_iff_suffix]
  exact exists_congr fun front => eq_comm

instance (path : Text) (segs : List Text) : Decidable (EndsIn path segs) :=
  decidable_of_iff _ endsWith_iff_endsIn

theorem ofSegments_eq_joined (h : segs ≠ []) : ofSegments segs = '/' :: joined segs := by
  induction segs with
  | nil => exact absurd rfl h
  | cons s segs ih =>
    cases segs with
    | nil => simp [ofSegments, joined]
    | cons t segs =>
      have hcons : ofSegments (s :: t :: segs) = '/' :: (s ++ ofSegments (t :: segs)) := rfl
      rw [hcons, ih (List.cons_ne_nil _ _)]
      rfl

end Path

/-! ## The ways to read a descent -/

namespace Specifier
variable {tail v : List Text}

/-- The ways to read the segments that a specifier descends, in the order in which they are tried:
as they stand, without the source extension of the last, and as a directory with an index file.
Where there are none, only the last way is left. -/
def variants (tail : List Text) : List (List Text) :=
  (match tail.getLast? with
    | none => []
    | some name => tail :: ((Path.sourceBase? name).map (tail.dropLast ++ [·])).toList)
    ++ [tail ++ ["index".toList]]

theorem variants_concat (segs : List Text) (name : Text) :
    variants (segs ++ [name]) =
      (segs ++ [name]) :: (((Path.sourceBase? name).map (segs ++ [·])).toList ++
        [segs ++ [name] ++ ["index".toList]]) := by
  simp [variants]

theorem ne_nil_of_mem_variants (h : v ∈ variants tail) : v ≠ [] := by
  rcases List.eq_nil_or_concat' tail with rfl | ⟨segs, name, rfl⟩
  · rintro rfl
    simp [variants] at h
  · rintro rfl
    simp [variants_concat] at h

end Specifier

namespace Probe
variable {tail : List Text}

/-- The probe of a descent, below `front?` if the place where it starts is known. -/
def below (front? : Option (List Text)) (tail : List Text) : Probe :=
  ⟨Path.ofSegments tail, front?.map fun front => Path.ofSegments (front ++ tail)⟩

theorem map_index_below (front? : Option (List Text)) (tail : List Text) :
    (below front? tail).map (· ++ "/index".toList) = below front? (tail ++ ["index".toList]) := by
  unfold below Probe.map
  simp only [← List.append_assoc, Path.ofSegments_concat, Option.map_map]
  rfl

theorem map_stem_below (front? : Option (List Text)) (segs : List Text) {name : Text}
    (hname : '/' ∉ name) :
    (below front? (segs ++ [name])).map Path.stem =
      below front? (segs ++ [(Path.splitName name).1]) := by
  unfold below Probe.map
  simp only [← List.append_assoc, Path.ofSegments_concat, ← Path.stem_concat _ hname,
    Option.map_map]
  rfl

/-- **The variants of a probe are the probes of the variants of its descent.** -/
theorem variants_below (front? : Option (List Text)) (htail : ∀ s ∈ tail, Path.IsSegment s) :
    (below front? tail).variants = (Specifier.variants tail).map (below front?) := by
  rcases List.eq_nil_or_concat' tail with rfl | ⟨segs, name, rfl⟩
  · exact congrArg (fun p => [p]) (map_index_below front? [])
  · have hname : '/' ∉ name := (htail name (by simp)).2
    rw [below, variants_eq (by simp), ← below, map_stem_below front? segs hname, map_index_below,
      Specifier.variants_concat, Path.sourceBase?_eq, Path.hasSourceExtension_concat segs hname]
    split <;> simp

end Probe

namespace Specifier

theorem isSegment_normal (spec : Text) : ∀ s ∈ Path.normal spec, Path.IsSegment s := by
  rw [← split_snd]
  exact isSegment_split spec

/-- The probe of a relative specifier is that of its descent, below the part of its location that
comes before. -/
theorem exists_relative_eq (spec importer : Text) :
    ∃ front?, Probe.relative spec importer = .below front? (Path.normal spec) ∧
      location? importer spec = front?.map (· ++ Path.normal spec) := by
  rw [← split_snd]
  cases hlocation : location? importer spec with
  | none => exact ⟨none, by rw [relative_eq, hlocation]; rfl, rfl⟩
  | some location =>
    obtain ⟨front, rfl, -, hprobe⟩ := relative_of_location? hlocation
    exact ⟨some front, hprobe, rfl⟩

theorem anchored_eq_below (spec : Text) :
    Probe.anchored spec = .below (some []) (Path.normal spec) := by
  rw [← split_snd]
  rfl

end Specifier

/-! ## Searches -/

namespace Inventory
variable {inv : Inventory} {found : SourceFile}

/-- Whether a file comes first, in the order of paths, among those that satisfy a condition. -/
structure IsFirst (inv : Inventory) (among : SourceFile → Prop) (found : SourceFile) : Prop where
  mem : found ∈ inv.files
  belongs : among found
  least : ∀ other ∈ inv.files, among other → ¬other.path < found.path

theorem isFirst_byStem? {stem : Text} (h : inv.byStem? stem = some found) :
    inv.IsFirst (·.stem = stem) found where
  mem := (of_byStem? h).1
  belongs := (of_byStem? h).2
  least := fun _ hother hstem => find?_first (find?_of_byStem? h) hother (decide_eq_true hstem)

/-- What a search in several ways finds, where `fits` tells which files a way fits: a file if some
way fits one, and then one that the first such way fits. -/
structure FindsFirst {α : Type} (inv : Inventory) (fits : α → SourceFile → Prop) (ways : List α)
    (found? : Option SourceFile) : Prop where
  isSome_iff : found?.isSome ↔ ∃ way ∈ ways, ∃ file ∈ inv.files, fits way file
  first : ∀ found ∈ found?, found ∈ inv.files ∧ ∃ before way after, ways = before ++ way :: after ∧
    fits way found ∧ ∀ earlier ∈ before, ∀ file ∈ inv.files, ¬fits earlier file

theorem findsFirst_findSome? {α : Type} {fits : α → SourceFile → Prop} {ways : List α}
    {search : α → Option SourceFile}
    (hsound : ∀ way ∈ ways, ∀ found, search way = some found → found ∈ inv.files ∧ fits way found)
    (hcomplete : ∀ way ∈ ways, search way = none → ∀ file ∈ inv.files, ¬fits way file) :
    inv.FindsFirst fits ways (ways.findSome? search) := by
  constructor
  · rw [List.findSome?_isSome_iff]
    constructor
    · rintro ⟨way, hway, hsome⟩
      obtain ⟨found, hfound⟩ := Option.isSome_iff_exists.1 hsome
      exact ⟨way, hway, found, hsound way hway found hfound⟩
    · rintro ⟨way, hway, file, hfile, hfits⟩
      refine ⟨way, hway, Option.isSome_iff_ne_none.2 fun hnone => ?_⟩
      exact hcomplete way hway hnone file hfile hfits
  · intro found hfound
    obtain ⟨before, way, after, hways, hway, hbefore⟩ := List.findSome?_eq_some_iff.1 hfound
    have hmem : way ∈ ways := by simp [hways]
    obtain ⟨hfile, hfits⟩ := hsound way hmem found hway
    refine ⟨hfile, before, way, after, hways, hfits, fun earlier hearlier => ?_⟩
    exact hcomplete earlier (by simp [hways, hearlier]) (hbefore earlier hearlier)

theorem endsIn_of_match? {front? : Option (List Text)} {v : List Text} (hne : v ≠ [])
    (h : inv.match? true (.below front? v) = some found) : Path.EndsIn found.stem v := by
  rw [← Path.endsWith_iff_endsIn, ← Path.ofSegments_eq_joined hne]
  rcases match?_some h with hplace | ⟨-, hends, -⟩
  · obtain ⟨front, -, hstem⟩ := Option.map_eq_some_iff.1 hplace
    rw [← hstem, Path.ofSegments_append]
    exact List.isSuffixOf_iff_suffix.2 (List.suffix_append _ _)
  · exact hends

theorem not_endsIn_of_match? {front? : Option (List Text)} {v : List Text} (hne : v ≠ [])
    (h : inv.match? true (.below front? v) = none) :
    ∀ file ∈ inv.files, ¬Path.EndsIn file.stem v := by
  intro file hfile
  have hsuffix : inv.bySuffix? (Path.ofSegments v) = none := (Option.or_eq_none_iff.1 h).2
  rw [← Path.endsWith_iff_endsIn, ← Path.ofSegments_eq_joined hne]
  exact List.find?_eq_none.1 hsuffix file hfile

theorem resolve?_of_isRelative (inv : Inventory) {aliases : Alias.Table} {spec importer : Text}
    (h : Specifier.isRelative spec) :
    inv.resolve? aliases spec importer = inv.resolveRelative? spec importer :=
  if_pos h

theorem resolve?_of_isAnchored (inv : Inventory) {aliases : Alias.Table} {spec importer : Text}
    (h : Specifier.isAnchored spec) :
    inv.resolve? aliases spec importer = inv.resolveAnchored? spec := by
  have hrelative : ¬Specifier.isRelative spec :=
    fun hrelative => by simp [Specifier.not_isAnchored hrelative] at h
  rw [resolve?, if_neg hrelative, if_pos h]

theorem findsFirst_relative (inv : Inventory) (spec importer : Text) :
    inv.FindsFirst (fun v file => Path.EndsIn file.stem v) (Specifier.variants (Path.normal spec))
      (inv.resolveRelative? spec importer) := by
  obtain ⟨front?, hprobe, -⟩ := Specifier.exists_relative_eq spec importer
  rw [resolveRelative?, probe?, hprobe,
    Probe.variants_below front? (Specifier.isSegment_normal spec), List.findSome?_map]
  refine findsFirst_findSome? (fun v hv found h => ?_) (fun v hv h => ?_)
  · exact ⟨mem_of_match? h, endsIn_of_match? (Specifier.ne_nil_of_mem_variants hv) h⟩
  · exact not_endsIn_of_match? (Specifier.ne_nil_of_mem_variants hv) h

theorem resolveAnchored?_eq (inv : Inventory) (spec : Text) :
    inv.resolveAnchored? spec =
      (Specifier.variants (Path.normal spec)).findSome? fun v =>
        inv.byStem? (Path.ofSegments v) := by
  rw [resolveAnchored?, probe?, Specifier.anchored_eq_below,
    Probe.variants_below _ (Specifier.isSegment_normal spec), List.findSome?_map]
  congr 1
  funext v
  exact Option.or_none

theorem findsFirst_anchored (inv : Inventory) (spec : Text) :
    inv.FindsFirst (fun v file => file.stem = Path.ofSegments v)
      (Specifier.variants (Path.normal spec)) (inv.resolveAnchored? spec) := by
  rw [resolveAnchored?_eq]
  refine findsFirst_findSome? (fun v _ found h => of_byStem? h) (fun v _ h file hfile => ?_)
  rw [byStem?_eq_find?] at h
  simpa using List.find?_eq_none.1 h file hfile

theorem isFirst_anchored {spec : Text} (h : inv.resolveAnchored? spec = some found) :
    inv.IsFirst (·.stem = found.stem) found := by
  rw [resolveAnchored?_eq] at h
  obtain ⟨v, -, hv⟩ := List.exists_of_findSome?_eq_some h
  have hfirst := isFirst_byStem? hv
  rwa [← hfirst.belongs] at hfirst

end Inventory

/-- **What resolution can find.** A relative specifier finds a file if the stem of one ends with a
variant of the specifier's normal form, and then one whose stem ends with the first variant that any
stem ends with. A root-anchored specifier finds a file if a variant is the stem of one, and then the
first file with the first such stem, whatever the importing file. Aliases change neither. -/
theorem resolution_exact (inv : Inventory) (aliases : Alias.Table) (spec importer : Text) :
    (Specifier.isRelative spec →
      inv.FindsFirst (fun v file => Path.EndsIn file.stem v) (Specifier.variants (Path.normal spec))
        (inv.resolve? aliases spec importer) ∧
      ∀ aliases', inv.resolve? aliases' spec importer = inv.resolve? aliases spec importer) ∧
    (Specifier.isAnchored spec →
      inv.FindsFirst (fun v file => file.stem = Path.ofSegments v)
        (Specifier.variants (Path.normal spec)) (inv.resolve? aliases spec importer) ∧
      (∀ found, inv.resolve? aliases spec importer = some found →
        inv.IsFirst (·.stem = found.stem) found) ∧
      ∀ aliases' importer', inv.resolve? aliases' spec importer' =
        inv.resolve? aliases spec importer) := by
  constructor
  · intro hrelative
    rw [inv.resolve?_of_isRelative hrelative]
    refine ⟨inv.findsFirst_relative spec importer, fun aliases' => ?_⟩
    exact inv.resolve?_of_isRelative hrelative
  · intro hanchored
    rw [inv.resolve?_of_isAnchored hanchored]
    refine ⟨inv.findsFirst_anchored spec, fun found hfound => ?_, fun aliases' importer' => ?_⟩
    · exact Inventory.isFirst_anchored hfound
    · exact inv.resolve?_of_isAnchored hanchored

/-! ### A specifier with another extension -/

/-- Files of which no stem ends in `/util.js`, and the first that ends in `util` does not end in
`/util`. -/
def utilFiles : Inventory :=
  .ofPaths ["/a/myutil.ts".toList, "/b/util.ts".toList, "/c/util.js/index.ts".toList,
    "/util.ts".toList]

theorem resolution_exact_utilFiles :
    Specifier.isRelative "./util.js".toList ∧
      utilFiles.FindsFirst (fun v file => Path.EndsIn file.stem v)
        [["util.js".toList], ["util".toList], ["util.js".toList, "index".toList]]
          (some (.ofPath "/b/util.ts".toList)) ∧
      Specifier.isAnchored "/util.js".toList ∧
      utilFiles.FindsFirst (fun v file => file.stem = Path.ofSegments v)
        [["util.js".toList], ["util".toList], ["util.js".toList, "index".toList]]
          (some (.ofPath "/util.ts".toList)) := by
  have hrelative : Specifier.isRelative "./util.js".toList := by decide
  have hanchored : Specifier.isAnchored "/util.js".toList := by decide
  have hvariants {spec : Text} (h : Path.normal spec = ["util.js".toList]) :
      Specifier.variants (Path.normal spec) =
        [["util.js".toList], ["util".toList], ["util.js".toList, "index".toList]] := by
    rw [h]
    decide +kernel
  have hfirst : utilFiles.resolve? {} "./util.js".toList "/x/main.ts".toList =
      some (.ofPath "/b/util.ts".toList) := by
    decide +kernel
  have hfirst' : utilFiles.resolve? {} "/util.js".toList "/x/main.ts".toList =
      some (.ofPath "/util.ts".toList) := by
    decide +kernel
  have hfinds := ((resolution_exact utilFiles {} _ "/x/main.ts".toList).1 hrelative).1
  have hfinds' := ((resolution_exact utilFiles {} _ "/x/main.ts".toList).2 hanchored).1
  rw [hfirst, hvariants (by decide +kernel)] at hfinds
  rw [hfirst', hvariants (by decide +kernel)] at hfinds'
  exact ⟨hrelative, hfinds, hanchored, hfinds'⟩

end Unreached

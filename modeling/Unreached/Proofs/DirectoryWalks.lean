import Unreached.Proofs.Variants

/-!
# Walks from a directory

A relative specifier is walked from the directory of the importing file, and the file that is looked
for first is the one that the walk leads to.

* `Specifier.landing` : the location of that file, which is an index where the specifier descends
  nowhere;
* `relative_follows_walk` : a file there is found before every other. Where the walk climbs above
  the root, only the segments that it descends in the end count;
* `relativize_undone` : the specifier that is made for a location is walked back to it from every
  file.
-/

namespace Unreached

set_option autoImplicit false

namespace Specifier

/-! ## The first place of a relative specifier -/

/-- The location of the file that a specifier names first, if it leads to `location`: this itself,
or its index if the specifier descends nowhere. -/
def landing (spec : Text) (location : List Text) : List Text :=
  if Path.normal spec = [] then location ++ ["index".toList] else location

theorem variants_landing (spec : Text) (front : List Text) :
    ∃ v rest, variants (Path.normal spec) = v :: rest ∧
      front ++ v = landing spec (front ++ Path.normal spec) := by
  unfold landing
  rcases List.eq_nil_or_concat' (Path.normal spec) with hnil | ⟨segs, name, hconcat⟩
  · rw [hnil, if_pos rfl, List.append_nil]
    exact ⟨["index".toList], [], rfl, rfl⟩
  · rw [hconcat, if_neg (by simp)]
    exact ⟨segs ++ [name], _, variants_concat segs name, rfl⟩

end Specifier

namespace Inventory
variable {inv : Inventory} {spec importer : Text} {location : List Text} {found : SourceFile}

theorem resolveRelative?_landing (hlocation : Specifier.location? importer spec = some location)
    (h : inv.byStem? (Path.ofSegments (Specifier.landing spec location)) = some found) :
    inv.resolveRelative? spec importer = some found := by
  obtain ⟨front?, hprobe, hfront⟩ := Specifier.exists_relative_eq spec importer
  obtain ⟨front, rfl, rfl⟩ := Option.map_eq_some_iff.1 (hfront.symm.trans hlocation)
  obtain ⟨v, rest, hvariants, hlanding⟩ := Specifier.variants_landing spec front
  have hplace : (Probe.below (some front) v).place? = some (Path.ofSegments (front ++ v)) := rfl
  rw [← hlanding] at h
  rw [resolveRelative?, probe?, hprobe, Probe.variants_below _ (Specifier.isSegment_normal spec),
    hvariants, List.map_cons, List.findSome?_cons, match?_of_place hplace, h]
  rfl

theorem resolveRelative?_of_climbing (h : Specifier.location? importer spec = none) :
    inv.resolveRelative? spec importer = inv.probe? true (.below none (Path.normal spec)) := by
  rw [resolveRelative?, Specifier.relative_eq, h, Specifier.split_snd]
  rfl

end Inventory

/-- **A relative specifier follows the walk from the directory of the importing file.** If the walk
ends at a location and the file named there exists, then the first such file is found, whatever
other files there are. If it climbs above the root, what is found depends on the descent alone: not
on the importing file, nor on how the specifier is written. -/
theorem relative_follows_walk (inv : Inventory) (aliases : Alias.Table) (spec importer : Text)
    (hrelative : Specifier.isRelative spec) :
    (∀ location, Specifier.location? importer spec = some location →
      (∃ file ∈ inv.files, file.stem = Path.ofSegments (Specifier.landing spec location)) →
        ∃ found, inv.resolve? aliases spec importer = some found ∧
          inv.IsFirst (·.stem = Path.ofSegments (Specifier.landing spec location)) found) ∧
      (Specifier.location? importer spec = none →
        ∀ (aliases' : Alias.Table) (spec' importer' : Text), Specifier.isRelative spec' →
          Specifier.location? importer' spec' = none → Path.normal spec' = Path.normal spec →
          inv.resolve? aliases' spec' importer' = inv.resolve? aliases spec importer) := by
  rw [inv.resolve?_of_isRelative hrelative]
  constructor
  · rintro location hlocation ⟨file, hfile, hstem⟩
    obtain ⟨found, hfound⟩ := Inventory.byStem?_isSome hfile
    rw [hstem] at hfound
    exact ⟨found, Inventory.resolveRelative?_landing hlocation hfound,
      Inventory.isFirst_byStem? hfound⟩
  · intro hnone aliases' spec' importer' hrelative' hnone' htail
    rw [inv.resolve?_of_isRelative hrelative', Inventory.resolveRelative?_of_climbing hnone,
      Inventory.resolveRelative?_of_climbing hnone', htail]

/-! ### Files with one stem -/

/-- Files of which two have the stem `/b/util` and one only ends like it. -/
def utilTwins : Inventory :=
  .ofPaths ["/a/util.ts".toList, "/b/util.js".toList, "/b/util.ts".toList]

theorem relative_follows_walk_utilTwins :
    Specifier.isRelative "../a/../b/./util".toList ∧
      (∃ found, utilTwins.resolve? {} "../a/../b/./util".toList "/a/main.ts".toList = some found ∧
        utilTwins.IsFirst (·.stem = "/b/util".toList) found) ∧
      Specifier.isRelative "../../util".toList ∧
      utilTwins.resolve? {} "./../x/../../util".toList "/main.ts".toList =
        utilTwins.resolve? {} "../../util".toList "/a/main.ts".toList := by
  have hrelative : Specifier.isRelative "../a/../b/./util".toList := by decide
  have hclimbs : Specifier.isRelative "../../util".toList := by decide
  obtain ⟨hwalk, -⟩ := relative_follows_walk utilTwins {} _ "/a/main.ts".toList hrelative
  obtain ⟨-, hclimb⟩ := relative_follows_walk utilTwins {} _ "/a/main.ts".toList hclimbs
  refine ⟨hrelative, ?_, hclimbs, ?_⟩
  · exact hwalk ["b".toList, "util".toList] (by decide +kernel)
      ⟨.ofPath "/b/util.ts".toList, by decide +kernel, by decide +kernel⟩
  · exact hclimb (by decide +kernel) {} _ _ (by decide) (by decide +kernel) (by decide +kernel)

/-! ## Specifiers made for a location -/

theorem Specifier.isRelative_relativize (importer target : Text) :
    isRelative (relativize importer target) := by
  unfold relativize
  dsimp only
  have hle := commonLength_le (Path.segments importer).dropLast (Path.segments target)
  split
  · simp [isRelative, Text.startsWith]
  · next hne =>
    obtain ⟨n, hn⟩ : ∃ n, (Path.segments importer).dropLast.length -
        commonLength (Path.segments importer).dropLast (Path.segments target) = n + 1 :=
      Nat.exists_eq_succ_of_ne_zero (by omega)
    rw [hn]
    simp [isRelative, Text.startsWith, Text.times, List.replicate_succ]

theorem Path.eq_normal_of_fromRoot? {path : Text} {location : List Text}
    (h : fromRoot? path = some location) : location = normal path := by
  unfold fromRoot? at h
  rw [Specifier.walk?_eq_split, Specifier.split_snd] at h
  split at h
  · simpa using h.symm
  · simp at h

/-- **The specifier made for a location leads back to it.** It is relative, and from the directory
of the file that it is made for it is walked to where the target is walked to from the root, if that
does not climb above the root. So the place that is looked up for it is the normal form of the
target, whatever the file. -/
theorem relativize_undone (importer target : Text) (hne : Path.segments importer ≠ [])
    (hdir : ∀ s ∈ (Path.segments importer).dropLast, s ≠ Path.here ∧ s ≠ Path.up) :
    Specifier.isRelative (Specifier.relativize importer target) ∧
      Specifier.location? importer (Specifier.relativize importer target) = Path.fromRoot? target ∧
      (Probe.relative (Specifier.relativize importer target) importer).place? =
        if (Path.fromRoot? target).isSome then some (Path.ofSegments (Path.normal target))
        else none := by
  have hlocation : Specifier.location? importer (Specifier.relativize importer target) =
      Path.fromRoot? target :=
    Specifier.location?_relativize hne hdir
  refine ⟨Specifier.isRelative_relativize importer target, hlocation, ?_⟩
  rw [Specifier.relative_eq, hlocation]
  cases hroot : Path.fromRoot? target with
  | none => rfl
  | some location => rw [Path.eq_normal_of_fromRoot? hroot]; rfl

/-- The target goes on with `..` where it parts from the directory of the file. -/
theorem relativize_undone_pages :
    Specifier.relativize "/src/pages/index.tsx".toList "/src/pages/../../lib/./x".toList =
      "./../../lib/./x".toList ∧
      Specifier.location? "/src/pages/index.tsx".toList "./../../lib/./x".toList =
        some ["lib".toList, "x".toList] ∧
      (Probe.relative "./../../lib/./x".toList "/src/pages/index.tsx".toList).place? =
        some "/lib/x".toList := by
  have hspec : Specifier.relativize "/src/pages/index.tsx".toList
      "/src/pages/../../lib/./x".toList =
      "./../../lib/./x".toList := by decide +kernel
  obtain ⟨-, hlocation, hplace⟩ :=
    relativize_undone "/src/pages/index.tsx".toList "/src/pages/../../lib/./x".toList
      (by decide) (by decide)
  rw [hspec] at hlocation hplace
  exact ⟨hspec, hlocation.trans (by decide +kernel), hplace.trans (by decide +kernel)⟩

end Unreached

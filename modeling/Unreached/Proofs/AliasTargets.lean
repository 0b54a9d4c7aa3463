import Unreached.Proofs.Locations

/-!
# The targets of aliases

The location that an alias gives for a specifier is made relative to the importing file before it is
looked up. From a file in a directory at that location the relative specifier descends nowhere, and
only an index is looked for.

* `alias_target_found` : a specifier finds the file at the location that the first rule for it
  gives, from every file that is not in a directory at that location;
* `alias_target_missed` : from a file in such a directory it need not.
-/

namespace Unreached

set_option autoImplicit false

/-- **The target of an alias is found from everywhere outside of it.** If the location that the
first rule for a specifier gives is the stem of a file, the specifier finds the first such file,
whatever the importing file, unless this is in a directory at that location. -/
theorem alias_target_found (inv : Inventory) (aliases : Alias.Table) (spec importer : Text)
    (rule : Alias.Rule) (location : List Text) (file : SourceFile) (hbare : Specifier.isBare spec)
    (hrule : aliases.find? spec = some rule)
    (hlocation : Path.fromRoot? (rule.substitute spec) = some location) (hfile : file ∈ inv.files)
    (hstem : file.stem = Path.ofSegments location) (himporter : Path.Direct importer)
    (houtside : ¬location <+: (Path.segments importer).dropLast) :
    ∃ found ∈ inv.files, inv.resolve? aliases spec importer = some found ∧
      found.stem = Path.ofSegments location ∧
      ∀ other ∈ inv.files, other.stem = Path.ofSegments location → ¬other.path < found.path := by
  obtain ⟨found, hfound⟩ := Inventory.byStem?_isSome hfile
  rw [hstem] at hfound
  obtain ⟨hmem, hfoundStem⟩ := Inventory.of_byStem? hfound
  refine ⟨found, hmem, ?_, hfoundStem, fun other hother hotherStem =>
    Inventory.find?_first (Inventory.find?_of_byStem? hfound) hother (decide_eq_true hotherStem)⟩
  obtain ⟨rules, hrules⟩ := List.head?_eq_some_iff.1 hrule
  simp only [Specifier.isBare, Bool.and_eq_true, Bool.not_eq_true'] at hbare
  obtain ⟨front, tail, rfl, hne, -, hprobe⟩ :=
    Specifier.relative_relativize himporter hlocation houtside
  have hfirst : inv.resolveRelative? (Specifier.relativize importer (rule.substitute spec))
      importer = some found := by
    rw [Inventory.resolveRelative?, hprobe, Inventory.probe?_of_place hne hfound]
  rw [Inventory.resolve?, hbare.1, hbare.2, hrules, List.findSome?_cons, hfirst]
  rfl

/-! ### A file beside its directory -/

def fooAliases : Alias.Table := ⟨[⟨"@foo".toList, "/foo".toList, false⟩]⟩

def fooFiles : Inventory :=
  .ofPaths ["/foo.ts".toList, "/foo.tsx".toList, "/foo/main.ts".toList, "/lib/main.ts".toList]

theorem alias_target_found_fooFiles :
    fooAliases.find? "@foo".toList = some ⟨"@foo".toList, "/foo".toList, false⟩ ∧
      SourceFile.ofPath "/foo.tsx".toList ∈ fooFiles.files ∧
      ∃ found ∈ fooFiles.files,
        fooFiles.resolve? fooAliases "@foo".toList "/lib/main.ts".toList = some found ∧
        found.stem = Path.ofSegments ["foo".toList] ∧
        ∀ other ∈ fooFiles.files, other.stem = Path.ofSegments ["foo".toList] →
          ¬other.path < found.path := by
  have hrule : fooAliases.find? "@foo".toList = some ⟨"@foo".toList, "/foo".toList, false⟩ := by
    decide +kernel
  have hfile : SourceFile.ofPath "/foo.tsx".toList ∈ fooFiles.files := by decide +kernel
  exact ⟨hrule, hfile, alias_target_found fooFiles fooAliases _ _ _ _ _ (by decide) hrule
    (by decide +kernel) hfile (by decide +kernel) ⟨by decide, by decide⟩ (by decide +kernel)⟩

/-- A file in the directory `/foo` does not find the file `/foo.ts` by an alias for `/foo`. -/
theorem alias_target_missed :
    ¬∀ (inv : Inventory) (aliases : Alias.Table) (spec importer : Text) (rule : Alias.Rule)
      (location : List Text) (file : SourceFile),
        Specifier.isBare spec → aliases.find? spec = some rule →
        Path.fromRoot? (rule.substitute spec) = some location → file ∈ inv.files →
        file.stem = Path.ofSegments location → Path.Direct importer →
        ∃ found, inv.resolve? aliases spec importer = some found ∧
          found.stem = Path.ofSegments location := by
  intro h
  obtain ⟨found, hfound, -⟩ := h fooFiles fooAliases "@foo".toList "/foo/main.ts".toList
    ⟨"@foo".toList, "/foo".toList, false⟩ ["foo".toList] (.ofPath "/foo.ts".toList) (by decide)
    (by decide +kernel) (by decide +kernel) (by decide +kernel) (by decide +kernel)
    ⟨by decide, by decide⟩
  have hnone : fooFiles.resolve? fooAliases "@foo".toList "/foo/main.ts".toList = none := by
    decide +kernel
  rw [hnone] at hfound
  cases hfound

end Unreached

import Mathlib.Data.List.Forall2
import Unreached.Proofs.Locations

/-!
# One alias from two files

An alias is made relative to the importing file before it is looked up. This changes the tail that
stems are compared with, and leaves the places that are looked up first as they are.

* `Specifier.DescendAlike` : from two files the locations that an alias gives lie below them alike,
  so that something is left to descend from both or from neither;
* `Specifier.samePlaces_readings` : the readings of an alias have the same places from both files;
* `alias_shared` : an alias finds the same file from both, unless a tail decides.
-/

namespace Unreached

set_option autoImplicit false

/-! ## Readings with the same places -/

/-- Whether two lists of readings are as long and have the same places. -/
abbrev SamePlaces : List Probe → List Probe → Prop := List.Forall₂ fun r s => r.place? = s.place?

namespace Probe
variable {front front' tail tail' : List Text}

theorem samePlaces_refl (rs : List Probe) : SamePlaces rs rs := List.forall₂_same.2 fun _ _ => rfl

/-- One location has readings with the same places, whatever its last segments are taken to be. -/
theorem samePlaces_variants (hlocation : front ++ tail = front' ++ tail')
    (htail : ∀ s ∈ tail, Path.IsSegment s) (htail' : ∀ s ∈ tail', Path.IsSegment s)
    (hnil : tail = [] ↔ tail' = []) :
    SamePlaces (ofLocation front tail).variants (ofLocation front' tail').variants := by
  by_cases hne : tail = []
  · have hne' := hnil.1 hne
    subst hne hne'
    rw [List.append_nil, List.append_nil] at hlocation
    rw [hlocation]
    exact samePlaces_refl _
  · have hne' := mt hnil.2 hne
    have hextension : hasSourceExtension (Path.ofSegments tail) =
        hasSourceExtension (Path.ofSegments tail') := by
      rw [← Path.hasSourceExtension_append front htail hne, hlocation,
        Path.hasSourceExtension_append front' htail' hne']
    unfold ofLocation
    rw [variants_eq hne, variants_eq hne', hextension, hlocation]
    refine .cons rfl ?_
    split
    · exact .cons rfl (.cons rfl .nil)
    · exact .cons rfl .nil

end Probe

namespace Specifier
variable {aliases : Alias.Table} {spec importer importer' target : Text}

/-- The segments that are left to descend on the way from a file to a location. -/
def descent (importer target : Text) : List Text := (split (relativize importer target)).2

/-- Whether the locations that an alias gives leave something to descend from both files or from
neither. Nothing is left only from a file in a directory at the location. -/
def DescendAlike (aliases : Alias.Table) (spec importer importer' : Text) : Prop :=
  ∀ rule ∈ aliases.candidates spec,
    descent importer (rule.substitute spec) = [] ↔ descent importer' (rule.substitute spec) = []

instance : Decidable (DescendAlike aliases spec importer importer') :=
  inferInstanceAs (Decidable (∀ rule ∈ aliases.candidates spec, _ ↔ _))

theorem descent_of_climbing (himporter : Path.Direct importer)
    (hroot : Path.fromRoot? target = none) : descent importer target = Path.normal target :=
  split_relativize (fun s hs => himporter.names s (List.dropLast_subset _ hs)) hroot

theorem LiesOutside.descendAlike (h : LiesOutside aliases spec importer)
    (h' : LiesOutside aliases spec importer') (hbare : isBare spec) :
    DescendAlike aliases spec importer importer' := by
  simp only [isBare, Bool.and_eq_true, Bool.not_eq_true'] at hbare
  intro rule hrule
  cases hroot : Path.fromRoot? (rule.substitute spec) with
  | none =>
    rw [descent_of_climbing h.direct hroot, descent_of_climbing h'.direct hroot]
  | some location =>
    have hne {file : Text} (hfile : LiesOutside aliases spec file) : descent file
        (rule.substitute spec) ≠ [] := by
      intro hnil
      obtain ⟨front, hlocation, hprefix, -⟩ :=
        relative_of_location? ((hfile.direct.location?_relativize _).trans hroot)
      have hfront : location = front := by rw [hlocation, ← descent, hnil, List.append_nil]
      refine hfile.outside location ?_ (hfront ▸ hprefix)
      unfold locations
      rw [hbare.1, hbare.2]
      exact List.mem_filterMap.2 ⟨rule, hrule, hroot⟩
    exact iff_of_false (hne h) (hne h')

theorem samePlaces_target (himporter : Path.Direct importer) (himporter' : Path.Direct importer')
    (hdescend : descent importer target = [] ↔ descent importer' target = []) :
    SamePlaces (Probe.relative (relativize importer target) importer).variants
      (Probe.relative (relativize importer' target) importer').variants := by
  have hplace := himporter.location?_relativize target
  have hplace' := himporter'.location?_relativize target
  cases hroot : Path.fromRoot? target with
  | none =>
    -- above the root only the tail is known, and it is the same from every file
    rw [relative_eq, relative_eq, hplace, hplace', ← descent, ← descent,
      descent_of_climbing himporter hroot, descent_of_climbing himporter' hroot]
    exact Probe.samePlaces_refl _
  | some location =>
    obtain ⟨front, hlocation, -, hprobe⟩ := relative_of_location? (hplace.trans hroot)
    obtain ⟨front', hlocation', -, hprobe'⟩ := relative_of_location? (hplace'.trans hroot)
    rw [hprobe, hprobe']
    exact Probe.samePlaces_variants (hlocation.symm.trans hlocation') (isSegment_split _)
      (isSegment_split _) hdescend

/-- The places that an alias names do not depend on the importing file. -/
theorem samePlaces_readings (hbare : isBare spec) (himporter : Path.Direct importer)
    (himporter' : Path.Direct importer') (hdescend : DescendAlike aliases spec importer importer') :
    SamePlaces (readings aliases spec importer) (readings aliases spec importer') := by
  simp only [isBare, Bool.and_eq_true, Bool.not_eq_true'] at hbare
  have hreadings (file : Text) : readings aliases spec file =
      (aliases.candidates spec).flatMap fun rule =>
        (Probe.relative (relativize file (rule.substitute spec)) file).variants := by
    unfold readings probes
    rw [hbare.1, hbare.2]
    exact List.flatMap_map _ _ _
  rw [hreadings, hreadings]
  unfold DescendAlike at hdescend
  generalize aliases.candidates spec = rules at hdescend ⊢
  induction rules with
  | nil => exact .nil
  | cons rule rules ih =>
    obtain ⟨hrule, hrules⟩ := List.forall_mem_cons.1 hdescend
    rw [List.flatMap_cons, List.flatMap_cons]
    exact List.rel_append (samePlaces_target himporter himporter' hrule) (ih hrules)

end Specifier

/-! ## What two files find -/

namespace Inventory
variable {inv : Inventory} {rs ss : List Probe}

theorem bySuffix?_ne_of_match?_ne {r s : Probe} (hplace : r.place? = s.place?)
    (h : inv.match? true r ≠ inv.match? true s) :
    (∀ file ∈ inv.files, r.place? ≠ some file.stem) ∧
      inv.bySuffix? r.tail ≠ inv.bySuffix? s.tail := by
  unfold match? at h
  rw [← hplace] at h
  cases hexact : r.place?.bind inv.byStem? with
  | some file =>
    rw [hexact] at h
    exact absurd rfl h
  | none =>
    rw [hexact] at h
    exact ⟨fun file hfile => place?_ne_of_bind hexact hfile, h⟩

/-- Among readings with the same places the same file is found, unless a tail decides. -/
theorem findSome?_samePlaces (h : SamePlaces rs ss) :
    rs.findSome? (inv.match? true) = ss.findSome? (inv.match? true) ∨
      ∃ before r s after, rs.zip ss = before ++ (r, s) :: after ∧
        (∀ p ∈ before, inv.match? true p.1 = none ∧ inv.match? true p.2 = none) ∧
        (∀ file ∈ inv.files, r.place? ≠ some file.stem) ∧
          inv.bySuffix? r.tail ≠ inv.bySuffix? s.tail := by
  induction h with
  | nil => exact .inl rfl
  | @cons r s rs ss hplace _ ih =>
    by_cases hmatch : inv.match? true r = inv.match? true s
    · rw [List.findSome?_cons, List.findSome?_cons, ← hmatch]
      cases hfound : inv.match? true r with
      | some file => exact .inl rfl
      | none =>
        refine ih.imp_right ?_
        rintro ⟨before, r', s', after, hzip, hbefore, hdiffer⟩
        refine ⟨(r, s) :: before, r', s', after, ?_, ?_, hdiffer⟩
        · rw [List.zip_cons_cons, hzip, List.cons_append]
        · exact List.forall_mem_cons.2 ⟨⟨hfound, hmatch ▸ hfound⟩, hbefore⟩
    · exact .inr ⟨[], r, s, rs.zip ss, rfl, by simp, bySuffix?_ne_of_match?_ne hplace hmatch⟩

end Inventory

/-- **An alias names one location from all files.** From any two files the readings of a specifier
that aliases apply to have the same places, in the same order, and the specifier finds the same file
from both. The exception are readings without a file at their place, before which nothing is found
from either file: there the first file that ends like the reading's tail counts, and the tail is
relative to the importing file. -/
theorem alias_shared (inv : Inventory) (aliases : Alias.Table) (spec importer importer' : Text)
    (hbare : Specifier.isBare spec) (himporter : Path.Direct importer)
    (himporter' : Path.Direct importer')
    (hdescend : Specifier.DescendAlike aliases spec importer importer') :
    (Specifier.readings aliases spec importer).map (·.place?) =
        (Specifier.readings aliases spec importer').map (·.place?) ∧
      (inv.resolve? aliases spec importer = inv.resolve? aliases spec importer' ∨
        ∃ before r s after,
          (Specifier.readings aliases spec importer).zip
            (Specifier.readings aliases spec importer') =
            before ++ (r, s) :: after ∧
          (∀ p ∈ before, inv.match? true p.1 = none ∧ inv.match? true p.2 = none) ∧
          (∀ file ∈ inv.files, r.place? ≠ some file.stem) ∧
            inv.bySuffix? r.tail ≠ inv.bySuffix? s.tail) := by
  have hplaces := Specifier.samePlaces_readings hbare himporter himporter' hdescend
  have hanchored : (!Specifier.isAnchored spec) = true := (Bool.and_eq_true_iff.1 hbare).2
  rw [inv.resolve?_eq, inv.resolve?_eq, hanchored]
  refine ⟨?_, Inventory.findSome?_samePlaces hplaces⟩
  exact List.forall₂_eq_eq_eq ▸ List.forall₂_map_left_iff.2 (List.forall₂_map_right_iff.2 hplaces)

theorem liesOutside_deepFile :
    Specifier.LiesOutside libraryAliases "#lib/date".toList "/vendor/deep/main.ts".toList :=
  ⟨⟨by decide, by decide⟩, by decide +kernel⟩

theorem alias_shared_vendorFiles :
    Specifier.DescendAlike libraryAliases "#lib/date".toList "/main.ts".toList
      "/vendor/deep/main.ts".toList ∧
      vendorFiles.resolve? libraryAliases "#lib/date".toList "/main.ts".toList =
        vendorFiles.resolve? libraryAliases "#lib/date".toList "/vendor/deep/main.ts".toList := by
  have hdescend := liesOutside_vendorFiles.descendAlike liesOutside_deepFile (by decide)
  obtain ⟨-, hsame | ⟨before, r, s, after, hzip, -, hempty, htails⟩⟩ :=
    alias_shared vendorFiles libraryAliases "#lib/date".toList "/main.ts".toList
      "/vendor/deep/main.ts".toList (by decide) liesOutside_vendorFiles.direct
      liesOutside_deepFile.direct hdescend
  · exact ⟨hdescend, hsame⟩
  · -- no tail decides: where no file is at a place, none ends like either tail
    have hdecided :
        ∀ p ∈ (Specifier.readings libraryAliases "#lib/date".toList "/main.ts".toList).zip
            (Specifier.readings libraryAliases "#lib/date".toList "/vendor/deep/main.ts".toList),
          (∀ file ∈ vendorFiles.files, p.1.place? ≠ some file.stem) →
          vendorFiles.bySuffix? p.1.tail = vendorFiles.bySuffix? p.2.tail := by decide +kernel
    refine absurd (hdecided (r, s) ?_ hempty) htails
    rw [hzip]
    exact List.mem_append_right _ List.mem_cons_self

/-! ### A tail that decides -/

def sourceAliases : Alias.Table := ⟨[⟨"~/".toList, "/src/".toList, true⟩]⟩

/-- Files of which one is at the location `/src/x` and one ends like it. -/
def tailFiles : Inventory := .ofPaths ["/other/x.ts".toList, "/src/x/index.ts".toList]

/-- From a file in `/src` an alias for `/src/x` finds another file that ends in `/x`, and from the
root it does not. -/
theorem alias_not_shared :
    ¬∀ (inv : Inventory) (aliases : Alias.Table) (spec importer importer' : Text),
      Specifier.isBare spec → Path.Direct importer → Path.Direct importer' →
        inv.resolve? aliases spec importer = inv.resolve? aliases spec importer' := by
  intro h
  have hsame := h tailFiles sourceAliases "~/x".toList "/main.ts".toList "/src/main.ts".toList
    (by decide) ⟨by decide, by decide⟩ ⟨by decide, by decide⟩
  exact absurd hsame (by decide +kernel)

end Unreached

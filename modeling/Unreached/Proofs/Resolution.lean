import Unreached.Proofs.Inventory
import Unreached.Resolve

/-!
# What resolution finds

* `Inventory.mem_of_resolve?` : a specifier only names files of the inventory;
* `Survives keep found found'` : a search that finds `found` among all files finds `found'` among
  those that satisfy `keep`, if it always takes the first file that fits;
* `Inventory.survives_resolve?` : resolution is such a search, so a file that is named stays so when
  other files are taken out, and what names no file still names none.
-/

namespace Unreached

set_option autoImplicit false

variable {inv : Inventory} {aliases : Alias.Table} {anywhere : Bool} {probe : Probe}
  {spec importer : Text} {file : SourceFile}

namespace Inventory

/-! ## Files of the inventory -/

theorem mem_of_match? (h : inv.match? anywhere probe = some file) : file ∈ inv.files := by
  unfold match? at h
  rcases Option.or_eq_some_iff.1 h with h | ⟨-, h⟩
  · obtain ⟨place, -, h⟩ := Option.bind_eq_some_iff.1 h
    exact List.mem_of_find?_eq_some (find?_of_byStem? h)
  · split at h
    · exact List.mem_of_find?_eq_some h
    · cases h

theorem mem_of_probe? (h : inv.probe? anywhere probe = some file) : file ∈ inv.files := by
  obtain ⟨variant, -, h⟩ := List.exists_of_findSome?_eq_some h
  exact mem_of_match? h

theorem mem_of_resolve? (h : inv.resolve? aliases spec importer = some file) :
    file ∈ inv.files := by
  unfold resolve? at h
  split at h
  · exact mem_of_probe? h
  · split at h
    · exact mem_of_probe? h
    · obtain ⟨rule, -, h⟩ := List.exists_of_findSome?_eq_some h
      exact mem_of_probe? h

end Inventory

/-! ## Fewer files -/

/-- Where a search finds `found` among all files, it finds `found'` among those that satisfy `keep`:
the same file if it is kept, and none if there was none. -/
structure Survives (keep : SourceFile → Bool) (found found' : Option SourceFile) : Prop where
  kept : ∀ file, found = some file → keep file → found' = some file
  missed : found = none → found' = none

namespace Survives
variable {keep : SourceFile → Bool}

theorem refl (found : Option SourceFile) : Survives keep found found := ⟨fun _ h _ => h, id⟩

theorem find? (fits : SourceFile → Bool) (files : List SourceFile) :
    Survives keep (files.find? fits) ((files.filter keep).find? fits) := by
  induction files with
  | nil => exact refl none
  | cons f files ih =>
    by_cases hf : fits f
    · refine ⟨fun file h hk => ?_, fun h => ?_⟩
      · rw [List.find?_cons_of_pos hf] at h
        cases h
        rw [List.filter_cons_of_pos hk, List.find?_cons_of_pos hf]
      · rw [List.find?_cons_of_pos hf] at h
        cases h
    · have hrest : ((f :: files).filter keep).find? fits = (files.filter keep).find? fits := by
        by_cases hk : keep f
        · rw [List.filter_cons_of_pos hk, List.find?_cons_of_neg hf]
        · rw [List.filter_cons_of_neg hk]
      rw [List.find?_cons_of_neg hf, hrest]
      exact ih

theorem or {a a' b b' : Option SourceFile} (ha : Survives keep a a') (hb : Survives keep b b') :
    Survives keep (a.or b) (a'.or b') := by
  cases a with
  | none =>
    rw [ha.missed rfl]
    exact hb
  | some f =>
    refine ⟨fun file h hk => ?_, fun h => by cases h⟩
    rw [ha.kept file h hk]
    rfl

theorem findSome? {α : Type} {search search' : α → Option SourceFile}
    (h : ∀ x, Survives keep (search x) (search' x)) (xs : List α) :
    Survives keep (xs.findSome? search) (xs.findSome? search') := by
  induction xs with
  | nil => exact refl none
  | cons x xs ih =>
    rw [List.findSome?_cons, List.findSome?_cons]
    cases hx : search x with
    | none =>
      rw [(h x).missed hx]
      exact ih
    | some f =>
      refine ⟨fun file hf hk => ?_, fun hf => by cases hf⟩
      rw [(h x).kept file (hx.trans hf) hk]

end Survives

namespace Inventory
variable {keep : SourceFile → Bool}

theorem survives_match? :
    Survives keep (inv.match? anywhere probe) ((inv.filter keep).match? anywhere probe) := by
  unfold match?
  refine Survives.or ?_ ?_
  · cases probe.place? with
    | none => exact .refl none
    | some place =>
      rw [Option.bind_some, Option.bind_some, byStem?_eq_find?, byStem?_eq_find?]
      exact .find? _ _
  · split
    · exact .find? _ _
    · exact .refl none

theorem survives_probe? :
    Survives keep (inv.probe? anywhere probe) ((inv.filter keep).probe? anywhere probe) :=
  .findSome? (fun _ => survives_match?) _

/-- **Resolution among fewer files**: what a specifier names stays so if it is kept, and a specifier
that names nothing does not begin to. -/
theorem survives_resolve? (keep : SourceFile → Bool) :
    Survives keep (inv.resolve? aliases spec importer)
      ((inv.filter keep).resolve? aliases spec importer) := by
  unfold resolve?
  split
  · exact survives_probe?
  · split
    · exact survives_probe?
    · exact .findSome? (fun _ => survives_probe?) _

end Inventory

end Unreached

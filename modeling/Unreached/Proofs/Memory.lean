import Unreached.Graph.Engine
import Unreached.Proofs.Resolution

/-!
# The memory of an engine

What an engine answers does not depend on what it remembers, as long as the files stay as they were
read.

* `Project.Imports`, `Engine.Imports` : the edges of the import graph, as the project has them and
  as an engine answers;
* `Engine.Grows sources e e'` : `e'` is `e` with more of the files of `sources` read; both have the
  same edges (`Engine.Grows.imports_eq`), and every operation leads to such an engine
  (`Engine.grows_targets`);
* `Engine.after` : the engine after it has expanded files, with what it has read
  (`Engine.mem_readFiles_after`).
-/

namespace Unreached

set_option autoImplicit false

/-! ## Edges -/

/-- Whether a file imports another: one of its local specifiers that is not skipped names it. -/
def Project.Imports (p : Project) (sources : Sources) (file target : Text) : Prop :=
  ∃ spec ∈ p.imports sources file, p.isSkipped spec = false ∧ p.resolve? file spec = some target

theorem Project.mem_resolveAll {p : Project} {importer target : Text} {specs : List Text} :
    target ∈ p.resolveAll importer specs ↔
      ∃ spec ∈ specs, p.isSkipped spec = false ∧ p.resolve? importer spec = some target := by
  unfold resolveAll
  simp only [List.mem_filterMap, List.mem_filter, Bool.not_eq_true', and_assoc]

theorem Project.mem_targets {p : Project} {sources : Sources} {file target : Text} :
    target ∈ p.targets sources file ↔ p.Imports sources file target := Project.mem_resolveAll

theorem Project.resolveAll_cons_of_skipped {p : Project} {importer spec : Text} {specs : List Text}
    (h : p.isSkipped spec) :
    p.resolveAll importer (spec :: specs) = p.resolveAll importer specs := by
  unfold resolveAll
  rw [List.filter_cons_of_neg (by simp [h])]

theorem Project.resolveAll_cons {p : Project} {importer spec : Text} {specs : List Text}
    (h : ¬p.isSkipped spec) :
    p.resolveAll importer (spec :: specs) =
      (p.resolve? importer spec).toList ++ p.resolveAll importer specs := by
  unfold resolveAll
  rw [List.filter_cons_of_pos (by simp [h])]
  cases hspec : p.resolve? importer spec with
  | none => rw [List.filterMap_cons_none hspec, Option.toList_none, List.nil_append]
  | some target => rw [List.filterMap_cons_some hspec, Option.toList_some, List.singleton_append]

theorem Project.mem_paths_of_resolve? {p : Project} {importer spec target : Text}
    (h : p.resolve? importer spec = some target) : target ∈ p.inventory.paths := by
  unfold resolve? at h
  obtain ⟨file, hfile, rfl⟩ := Option.map_eq_some_iff.1 h
  exact List.mem_map_of_mem (Inventory.mem_of_resolve? hfile)

namespace Engine

/-- Whether a file imports another by the answers of the engine. -/
def Imports (e : Engine) (sources : Sources) (file target : Text) : Prop :=
  ∃ spec ∈ (e.imports sources file).1, e.project.isSkipped spec = false ∧
    (e.resolve? file spec).1 = some target

variable {e e' e'' : Engine} {sources : Sources} {file target importer spec : Text}
  {specs files : List Text}

/-! ## One answer -/

/-- What an engine does when it is asked for the imports of a file: it has them in memory, or it
reads the file. -/
theorem imports_cases (e : Engine) (sources : Sources) (file : Text) :
    (∃ specs, e.importMemory.lookup file = some specs ∧ e.imports sources file = (specs, e)) ∨
      ∃ h : file ∉ e.readFiles, e.imports sources file = (e.project.imports sources file,
        e.read sources file h) := by
  unfold imports
  split
  · next specs h => exact .inl ⟨specs, h, rfl⟩
  · next h => exact .inr ⟨not_mem_readFiles_of_lookup h, rfl⟩

theorem lookup_eq_none_iff : e.importMemory.lookup file = none ↔ file ∉ e.readFiles := by
  refine ⟨not_mem_readFiles_of_lookup, fun h => List.lookup_eq_none_iff.2 fun m hm => ?_⟩
  have hne : file ≠ m.1 := fun heq => h (heq ▸ List.mem_map_of_mem hm)
  simpa using hne

theorem imports_fst (e : Engine) (sources : Sources) (file : Text) :
    (e.imports sources file).1 =
      (e.importMemory.lookup file).getD (e.project.imports sources file) := by
  rcases imports_cases e sources file with ⟨specs, h, heq⟩ | ⟨h, heq⟩
  · rw [heq, h]
    rfl
  · rw [heq, lookup_eq_none_iff.2 h]
    rfl

@[simp]
theorem resolve?_fst (e : Engine) (importer spec : Text) :
    (e.resolve? importer spec).1 = e.project.resolve? importer spec := by
  unfold resolve?
  split
  · next found h =>
    obtain ⟨before, after, hmem, -⟩ := List.lookup_eq_some_iff.1 h
    exact e.faithful ((importer, spec), found) (by simp [hmem])
  · rfl

@[simp]
theorem resolve?_project (e : Engine) (importer spec : Text) :
    (e.resolve? importer spec).2.project = e.project := by
  unfold resolve?
  split <;> rfl

@[simp]
theorem resolve?_importMemory (e : Engine) (importer spec : Text) :
    (e.resolve? importer spec).2.importMemory = e.importMemory := by
  unfold resolve?
  split <;> rfl

theorem resolveAll_eq (e : Engine) (importer : Text) (specs : List Text) :
    (e.resolveAll importer specs).1 = e.project.resolveAll importer specs ∧
      (e.resolveAll importer specs).2.project = e.project ∧
      (e.resolveAll importer specs).2.importMemory = e.importMemory := by
  induction specs generalizing e with
  | nil => exact ⟨rfl, rfl, rfl⟩
  | cons spec specs ih =>
    rw [resolveAll]
    by_cases hskip : e.project.isSkipped spec
    · rw [if_pos hskip, Project.resolveAll_cons_of_skipped hskip]
      exact ih e
    · rw [if_neg hskip, Project.resolveAll_cons hskip]
      obtain ⟨hfst, hproject, hmemory⟩ := ih (e.resolve? importer spec).2
      rw [resolve?_project] at hfst hproject
      rw [resolve?_importMemory] at hmemory
      refine ⟨?_, hproject, hmemory⟩
      rw [← hfst, ← resolve?_fst]

theorem targets_fst (e : Engine) (sources : Sources) (file : Text) :
    (e.targets sources file).1 = e.project.resolveAll file (e.imports sources file).1 := by
  unfold targets
  rcases imports_cases e sources file with ⟨specs, -, heq⟩ | ⟨h, heq⟩
  all_goals
    rw [heq]
    exact (resolveAll_eq _ _ _).1

theorem targets_project (e : Engine) (sources : Sources) (file : Text) :
    (e.targets sources file).2.project = e.project := by
  unfold targets
  rcases imports_cases e sources file with ⟨specs, -, heq⟩ | ⟨h, heq⟩
  all_goals
    rw [heq]
    exact (resolveAll_eq _ _ _).2.1

theorem targets_importMemory (e : Engine) (sources : Sources) (file : Text) :
    (e.targets sources file).2.importMemory = (e.imports sources file).2.importMemory := by
  unfold targets
  exact (resolveAll_eq _ _ _).2.2

theorem mem_targets : target ∈ (e.targets sources file).1 ↔ e.Imports sources file target := by
  rw [targets_fst, Project.mem_resolveAll]
  unfold Imports
  simp only [resolve?_fst]

theorem Imports.mem_paths (h : e.Imports sources file target) :
    target ∈ e.project.inventory.paths := by
  obtain ⟨spec, -, -, hresolve⟩ := h
  rw [resolve?_fst] at hresolve
  exact Project.mem_paths_of_resolve? hresolve

/-- An engine that remembers nothing answers as the project has it. -/
theorem imports_new (p : Project) : (Engine.new p).Imports sources = p.Imports sources := by
  funext file target
  unfold Imports Project.Imports
  simp only [imports_fst, resolve?_fst, new, List.lookup_nil, Option.getD_none]

/-! ## Growth -/

/-- The engine `e'` is `e` with more files read, as `sources` has them. -/
structure Grows (sources : Sources) (e e' : Engine) : Prop where
  project : e'.project = e.project
  kept : ∀ file specs, e.importMemory.lookup file = some specs →
    e'.importMemory.lookup file = some specs
  new : ∀ file, e.importMemory.lookup file = none →
    e'.importMemory.lookup file = none ∨
      e'.importMemory.lookup file = some (e.project.imports sources file)

theorem Grows.of_eq (hproject : e'.project = e.project)
    (hmemory : e'.importMemory = e.importMemory) : Grows sources e e' :=
  ⟨hproject, fun _ _ h => hmemory ▸ h, fun _ h => .inl (hmemory ▸ h)⟩

theorem Grows.refl (sources : Sources) (e : Engine) : Grows sources e e := .of_eq rfl rfl

theorem Grows.trans (h : Grows sources e e') (h' : Grows sources e' e'') : Grows sources e e'' where
  project := h'.project.trans h.project
  kept file specs hfile := h'.kept file specs (h.kept file specs hfile)
  new file hfile := by
    rcases h.new file hfile with hnone | hsome
    · rw [← h.project]
      exact h'.new file hnone
    · exact .inr (h'.kept file _ hsome)

theorem Grows.imports_fst_eq (h : Grows sources e e') (file : Text) :
    (e'.imports sources file).1 = (e.imports sources file).1 := by
  rw [imports_fst, imports_fst, h.project]
  cases hfile : e.importMemory.lookup file with
  | some specs => rw [h.kept file specs hfile]
  | none =>
    rcases h.new file hfile with hnone | hsome
    · rw [hnone]
    · rw [hsome]
      rfl

/-- **More memory, the same graph.** -/
theorem Grows.imports_eq (h : Grows sources e e') : e'.Imports sources = e.Imports sources := by
  funext file target
  unfold Imports
  simp only [h.imports_fst_eq, h.project, resolve?_fst]

theorem Grows.targets_fst_eq (h : Grows sources e e') (file : Text) :
    (e'.targets sources file).1 = (e.targets sources file).1 := by
  rw [targets_fst, targets_fst, h.imports_fst_eq, h.project]

theorem grows_read (h : file ∉ e.readFiles) : Grows sources e (e.read sources file h) where
  project := rfl
  kept other specs hother := by
    have hne : other ≠ file := by
      rintro rfl
      rw [lookup_eq_none_iff.2 h] at hother
      cases hother
    rw [read, List.lookup_cons, beq_false_of_ne hne]
    exact hother
  new other hother := by
    rw [read, List.lookup_cons]
    by_cases heq : other = file
    · exact .inr (by simp [heq])
    · exact .inl (by simpa [beq_false_of_ne heq] using hother)

theorem grows_imports (e : Engine) (sources : Sources) (file : Text) :
    Grows sources e (e.imports sources file).2 := by
  rcases imports_cases e sources file with ⟨specs, -, heq⟩ | ⟨h, heq⟩ <;> rw [heq]
  · exact .refl sources e
  · exact grows_read h

theorem grows_resolve? (e : Engine) (sources : Sources) (importer spec : Text) :
    Grows sources e (e.resolve? importer spec).2 :=
  .of_eq (resolve?_project e importer spec) (resolve?_importMemory e importer spec)

theorem grows_targets (e : Engine) (sources : Sources) (file : Text) :
    Grows sources e (e.targets sources file).2 := by
  have hproject :=
    (e.targets_project sources file).trans (grows_imports e sources file).project.symm
  exact (grows_imports e sources file).trans (.of_eq hproject (e.targets_importMemory sources file))

/-! ## Files read -/

theorem nodup_readFiles (e : Engine) : e.readFiles.Nodup := e.distinct

theorem filesRead_eq (e : Engine) : e.filesRead = e.readFiles.length := by
  rw [filesRead, readFiles, List.length_map]

theorem mem_readFiles_targets :
    file ∈ (e.targets sources importer).2.readFiles ↔ file = importer ∨ file ∈ e.readFiles := by
  rw [readFiles, targets_importMemory]
  rcases imports_cases e sources importer with ⟨specs, h, heq⟩ | ⟨h, heq⟩ <;> rw [heq]
  · have hmem : importer ∈ e.readFiles := Decidable.not_not.1 fun hmem => by
      rw [lookup_eq_none_iff.2 hmem] at h
      cases h
    refine ⟨.inr, ?_⟩
    rintro (rfl | hfile)
    · exact hmem
    · exact hfile
  · exact List.mem_cons

/-- The engine after it has expanded the files of a list. -/
def after (e : Engine) (sources : Sources) (files : List Text) : Engine :=
  files.foldl (fun e file => (e.targets sources file).2) e

theorem after_append (e : Engine) (sources : Sources) (files others : List Text) :
    e.after sources (files ++ others) = (e.after sources files).after sources others :=
  List.foldl_append

theorem grows_after (e : Engine) (sources : Sources) (files : List Text) :
    Grows sources e (e.after sources files) := by
  unfold after
  induction files generalizing e with
  | nil => exact .refl sources e
  | cons file files ih => exact (grows_targets e sources file).trans (ih _)

theorem mem_readFiles_after :
    file ∈ (e.after sources files).readFiles ↔ file ∈ files ∨ file ∈ e.readFiles := by
  unfold after
  induction files generalizing e with
  | nil => simp
  | cons other files ih =>
    rw [List.foldl_cons, ih, mem_readFiles_targets, List.mem_cons, or_assoc, or_left_comm]

end Engine

end Unreached

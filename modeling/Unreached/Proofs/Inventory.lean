import Mathlib.Data.List.Basic
import Mathlib.Data.List.Nodup
import Unreached.Inventory

/-!
# What an inventory holds and finds

* `Inventory.get?_eq_find?`, `Inventory.byStem?_eq_find?` : halving the list and looking into the
  index find what searching from the start finds;
* `Inventory.mem_arrange` : of the files that are given, those stay that come first with their path;
* `Inventory.Holds` : whether an inventory holds the files of a list and finds them;
* `inventory_holds` : the inventory of any list does, so does what is left after filtering, and for
  files that are told by their paths neither order nor repetition of the list matters.
-/

namespace Unreached

set_option autoImplicit false

/-! ## Positions by stems -/

namespace StemIndex

theorem lookup_cons_eq (index : StemIndex) (s stem : Text) (ps : List Nat) :
    List.lookup stem ((s, ps) :: index) = if stem = s then some ps else index.lookup stem := by
  by_cases h : stem = s
  · rw [if_pos h, h, List.lookup_cons_self]
  · rw [if_neg h, List.lookup_cons, beq_false_of_ne h]

theorem lookup_add (index : StemIndex) (stem other : Text) (position : Nat) :
    (index.add stem position).lookup other =
      if other = stem then some (index.positions stem ++ [position]) else index.lookup other := by
  induction index with
  | nil => simp [add, positions, lookup_cons_eq]
  | cons entry index ih =>
    obtain ⟨s, ps⟩ := entry
    rw [add]
    by_cases hs : s = stem
    · subst hs
      by_cases h : other = s <;> simp [positions, lookup_cons_eq, h]
    · rw [if_neg hs, lookup_cons_eq, ih, lookup_cons_eq, positions, positions, lookup_cons_eq,
        if_neg (Ne.symm hs)]
      by_cases h : other = s
      · rw [if_pos h, if_neg (h ▸ hs), if_pos h]
      · rw [if_neg h, if_neg h]

theorem positions_add (index : StemIndex) (stem other : Text) (position : Nat) :
    (index.add stem position).positions other =
      index.positions other ++ if other = stem then [position] else [] := by
  rw [positions, lookup_add]
  split
  · next h => rw [h, Option.getD_some]
  · rw [List.append_nil, positions]

theorem positions_addAll (index : StemIndex) (start : Nat) (files : List SourceFile) (stem : Text) :
    (index.addAll start files).positions stem =
      index.positions stem ++ ((files.zipIdx start).filter (·.1.stem = stem)).map (·.2) := by
  induction files generalizing index start with
  | nil => simp [addAll]
  | cons f files ih =>
    rw [addAll, ih, positions_add, List.zipIdx_cons, List.append_assoc]
    by_cases h : f.stem = stem <;> simp [h, Ne.symm]

/-- **The index tells the positions of the files with a stem**, in their order. -/
theorem positions_ofFiles (files : List SourceFile) (stem : Text) :
    (ofFiles files).positions stem = (files.zipIdx.filter (·.1.stem = stem)).map (·.2) :=
  positions_addAll [] 0 files stem

end StemIndex

/-! ## Searching by halves -/

section
variable {path : Text} {files : List SourceFile}

theorem find?_eq_none_of_lt (h : ∀ f ∈ files, path < f.path) :
    files.find? (·.path = path) = none := by
  rw [List.find?_eq_none]
  intro f hf heq
  have hlt := h f hf
  rw [of_decide_eq_true heq] at hlt
  exact List.lt_irrefl path hlt

theorem find?_eq_none_of_gt {bound : Text} (h : ∀ f ∈ files, f.path < bound)
    (hbound : ¬path < bound) : files.find? (·.path = path) = none := by
  rw [List.find?_eq_none]
  intro f hf heq
  exact hbound (of_decide_eq_true heq ▸ h f hf)

theorem Ascending.lt_of_mem_take {half : Nat} (h : Ascending SourceFile.path files)
    (hhalf : half < files.length) : ∀ f ∈ files.take half, f.path < (files[half]).path := by
  intro f hf
  rw [Ascending, ← List.take_append_drop half files, List.drop_eq_getElem_cons hhalf,
    List.pairwise_append] at h
  exact h.2.2 f hf _ List.mem_cons_self

theorem Ascending.lt_of_mem_drop {half : Nat} (h : Ascending SourceFile.path files)
    (hhalf : half < files.length) (hlt : path < (files[half]).path) :
    ∀ f ∈ files.drop half, path < f.path := by
  intro f hf
  have hdrop := h.sublist (List.drop_sublist half files)
  rw [List.drop_eq_getElem_cons hhalf] at hf hdrop
  rcases List.mem_cons.1 hf with rfl | hf
  · exact hlt
  · exact List.lt_trans hlt ((List.pairwise_cons.1 hdrop).1 f hf)

/-- **Searching by halves finds the file with a path**, as searching from the start does. -/
theorem searchPath_eq_find? (h : Ascending SourceFile.path files) :
    searchPath path files = files.find? (·.path = path) := by
  fun_induction searchPath path files with
  | case1 files hlength half hhalf hlt ih =>
    calc searchPath path (files.take half)
        = (files.take half).find? (·.path = path) := ih (h.sublist (List.take_sublist half files))
      _ = (files.take half ++ files.drop half).find? (·.path = path) := by
        rw [List.find?_append, find?_eq_none_of_lt (h.lt_of_mem_drop hhalf hlt), Option.or_none]
      _ = files.find? (·.path = path) := by rw [List.take_append_drop]
  | case2 files hlength half hhalf hlt ih =>
    calc searchPath path (files.drop half)
        = (files.drop half).find? (·.path = path) := ih (h.sublist (List.drop_sublist half files))
      _ = (files.take half ++ files.drop half).find? (·.path = path) := by
        rw [List.find?_append, find?_eq_none_of_gt (h.lt_of_mem_take hhalf) hlt, Option.none_or]
      _ = files.find? (·.path = path) := by rw [List.take_append_drop]
  | case3 files hlength =>
    match files with
    | [] => rfl
    | [f] => by_cases hf : f.path = path <;> simp [Option.filter, hf]
    | f :: g :: files => simp at hlength

end

namespace Inventory

variable {files : List SourceFile} {file : SourceFile}

theorem exists_find?_path (h : file ∈ files) :
    ∃ found ∈ files, files.find? (·.path = file.path) = some found ∧ found.path = file.path := by
  obtain ⟨found, hfound⟩ : ∃ found, files.find? (·.path = file.path) = some found :=
    Option.isSome_iff_exists.1 (List.find?_isSome.2 ⟨file, h, decide_eq_true rfl⟩)
  exact ⟨found, List.mem_of_find?_eq_some hfound, hfound, by simpa using List.find?_some hfound⟩

theorem get?_eq_find? (inv : Inventory) (path : Text) :
    inv.get? path = inv.files.find? (·.path = path) :=
  searchPath_eq_find? inv.ascending

theorem get?_eq_some_iff {inv : Inventory} {path : Text} :
    inv.get? path = some file ↔ file ∈ inv.files ∧ file.path = path := by
  rw [get?_eq_find?]
  constructor
  · intro h
    exact ⟨List.mem_of_find?_eq_some h, by simpa using List.find?_some h⟩
  · rintro ⟨hfile, rfl⟩
    obtain ⟨found, hmem, hfound, hpath⟩ := exists_find?_path hfile
    rw [hfound, List.inj_on_of_nodup_map inv.nodup_paths hmem hfile hpath]

/-- **The index leads to the first file with a stem**, as searching from the start does. -/
theorem byStem?_eq_find? (inv : Inventory) (stem : Text) :
    inv.byStem? stem = inv.files.find? (·.stem = stem) := by
  have hfind : inv.files.find? (·.stem = stem) =
      (inv.files.zipIdx.find? (·.1.stem = stem)).map Prod.fst := by
    conv_lhs => rw [← List.zipIdx_map_fst 0 inv.files, List.find?_map]
    rfl
  rw [byStem?, inv.indexed, StemIndex.positions_ofFiles, List.head?_map, List.head?_filter, hfind]
  cases hfound : inv.files.zipIdx.find? (·.1.stem = stem) with
  | none => rfl
  | some entry => exact List.mem_zipIdx_iff_getElem?.1 (List.mem_of_find?_eq_some hfound)

theorem find?_of_byStem? {inv : Inventory} {stem : Text} (h : inv.byStem? stem = some file) :
    inv.files.find? (·.stem = stem) = some file :=
  (byStem?_eq_find? inv stem).symm.trans h

/-! ## Arranging files -/

/-- **The files that stay are those that come first with their path.** -/
theorem mem_arrange : file ∈ arrange files ↔ files.find? (·.path = file.path) = some file := by
  induction files with
  | nil => simp [arrange]
  | cons f files ih =>
    rw [arrange, mem_insertBy (ascending_arrange files), ih]
    by_cases h : f.path = file.path
    · have hfirst : (f :: files).find? (·.path = file.path) = some f :=
        List.find?_cons_of_pos (by simpa using h)
      rw [hfirst, Option.some_inj]
      constructor
      · rintro (rfl | ⟨-, hne⟩)
        · rfl
        · exact absurd h.symm hne
      · exact fun heq => .inl heq.symm
    · have hrest : (f :: files).find? (·.path = file.path) = files.find? (·.path = file.path) :=
        List.find?_cons_of_neg (by simpa using h)
      rw [hrest]
      constructor
      · rintro (rfl | ⟨hfound, -⟩)
        · exact absurd rfl h
        · exact hfound
      · exact fun hfound => .inr ⟨hfound, Ne.symm h⟩

theorem mem_paths_ofFiles {path : Text} :
    path ∈ (ofFiles files).paths ↔ path ∈ files.map (·.path) := by
  constructor
  · intro h
    obtain ⟨file, hfile, rfl⟩ := List.mem_map.1 h
    exact List.mem_map_of_mem (List.mem_of_find?_eq_some (mem_arrange.1 hfile))
  · intro h
    obtain ⟨file, hfile, rfl⟩ := List.mem_map.1 h
    obtain ⟨first, -, hfirst, hpath⟩ := exists_find?_path hfile
    rw [← hpath] at hfirst ⊢
    exact List.mem_map_of_mem (mem_arrange.2 hfirst)

/-- Arranging changes nothing in an inventory. -/
theorem ofFiles_files (inv : Inventory) : ofFiles inv.files = inv := by
  refine ext ((ascending_arrange inv.files).ext inv.ascending fun file => ?_)
  rw [mem_arrange, ← get?_eq_find?, get?_eq_some_iff, and_iff_left rfl]

theorem mem_ofPaths {paths : List Text} :
    file ∈ (ofPaths paths).files ↔ file.path ∈ paths ∧ file = .ofPath file.path := by
  constructor
  · intro h
    obtain ⟨path, hpath, rfl⟩ := List.mem_map.1 (List.mem_of_find?_eq_some (mem_arrange.1 h))
    exact ⟨hpath, rfl⟩
  · rintro ⟨hpath, hfile⟩
    obtain ⟨found, hmem, hfound, heq⟩ :=
      exists_find?_path (List.mem_map.2 ⟨file.path, hpath, hfile.symm⟩)
    obtain ⟨path, -, rfl⟩ := List.mem_map.1 hmem
    have hpath : path = file.path := heq
    rw [hpath, ← hfile] at hfound
    exact mem_arrange.2 hfound

/-- Neither the order nor the number of the paths matters. -/
theorem ofPaths_congr {paths paths' : List Text} (h : ∀ path, path ∈ paths ↔ path ∈ paths') :
    ofPaths paths = ofPaths paths' := by
  refine ext ((ofPaths paths).ascending.ext (ofPaths paths').ascending fun file => ?_)
  rw [mem_ofPaths, mem_ofPaths, h]

/-- Whether an inventory holds the files of a list, of several with one path the first, and finds
them. -/
structure Holds (inv : Inventory) (given : List SourceFile) : Prop where
  ascending : inv.paths.Pairwise (· < ·)
  paths : ∀ path, path ∈ inv.paths ↔ path ∈ given.map (·.path)
  first : ∀ file ∈ inv.files, given.find? (·.path = file.path) = some file
  get : ∀ path file, inv.get? path = some file ↔ file ∈ inv.files ∧ file.path = path
  byStem : ∀ stem, inv.byStem? stem = inv.files.find? (·.stem = stem)

theorem holds_ofFiles (files : List SourceFile) : (ofFiles files).Holds files where
  ascending := List.pairwise_map.2 (ofFiles files).ascending
  paths := fun _ => mem_paths_ofFiles
  first := fun _ hfile => mem_arrange.1 hfile
  get := fun _ _ => get?_eq_some_iff
  byStem := byStem?_eq_find? _

end Inventory

/-- **An inventory holds the files that it is made of and finds them.** Its paths ascend and are
those of the files given, and of several files with one path the first stays; by its path it finds
each file and no other, and by a stem the first that has it. What is left after filtering are the
files that satisfy the condition, in their order, which the inventory made of them holds and finds
again. For files told by their paths neither their order nor repetitions matter.
-/
theorem inventory_holds (files : List SourceFile) :
    (Inventory.ofFiles files).Holds files ∧
      (∀ keep, ((Inventory.ofFiles files).filter keep).files =
        (Inventory.ofFiles files).files.filter keep ∧
        (Inventory.ofFiles files).filter keep =
          .ofFiles ((Inventory.ofFiles files).files.filter keep) ∧
        ((Inventory.ofFiles files).filter keep).Holds
          ((Inventory.ofFiles files).files.filter keep)) ∧
      ∀ paths paths' : List Text, (∀ path, path ∈ paths ↔ path ∈ paths') →
        Inventory.ofPaths paths = Inventory.ofPaths paths' := by
  refine ⟨Inventory.holds_ofFiles files, fun keep => ⟨rfl, ?_, ?_⟩,
    fun paths paths' => Inventory.ofPaths_congr⟩
  · exact (Inventory.ofFiles_files ((Inventory.ofFiles files).filter keep)).symm
  · have hholds := Inventory.holds_ofFiles ((Inventory.ofFiles files).filter keep).files
    rwa [Inventory.ofFiles_files] at hholds

end Unreached

import Mathlib
import Unreached.Proofs.Parents
import Unreached.Relocate

/-!
# Moving files aside loses nothing

* `Turn`, `Relocation.turns` : the records of a relocation one after the other, each with the tree
  that it finds;
* `moveFile_cases` : a record's place is taken, or its move is refused, or it is moved;
* `moveFiles_keeps` : what each turn keeps is kept by all of them;
* `relocate_lossless` : no content is lost, files away from the records stay, and each record is
  moved or fails.

The last asks that each `..` on the way to a record's new place leaves a directory that is there on
the record's turn. Otherwise the directories made for the record can uncover a file at a place that
was found free, and the file is replaced (`relocate_replaces_uncovered`).
-/

namespace Unreached

set_option autoImplicit false

open Unreached.Tree

/-- A record of a relocation, with the tree that it finds. -/
structure Turn where
  tree : Tree
  path : Text

/-- The place of a record's file, as it is when the directories for the file are made. -/
def Turn.place? (cwd : Location) (root destination : Text) (turn : Turn) : Option Location :=
  (turn.tree.mkParents cwd (Path.below destination turn.path)).tree.place? cwd
    (Path.below root turn.path)

/-- Whether each `..` on the way to a record's new place leaves a directory that is there. -/
def Turn.Climbs (cwd : Location) (destination : Text) (turn : Turn) : Prop :=
  turn.tree.Climbs (start cwd (Path.below destination turn.path))
    (Path.segments (Path.below destination turn.path))

/-- The turns of records that are moved one after the other. -/
def turns (cwd : Location) (root destination : Text) (tree : Tree) : List Text → List Turn
  | [] => []
  | path :: paths =>
    ⟨tree, path⟩ :: turns cwd root destination (moveFile cwd root destination tree path).1 paths

/-- The turns of a relocation. There are none if the destination cannot be made. -/
def Relocation.turns (tree : Tree) (cwd : Location) (root : Text) (files : List SourceFile)
    (dir : Text) : List Turn :=
  let made := tree.mkdirs cwd (Path.join root dir)
  match made.fault? with
  | some _ => []
  | none => Unreached.turns cwd root (Path.join root dir) made.tree (files.map (·.path))

section
variable {cwd loc : Location} {root destination path : Text} {paths : List Text} {tree : Tree}
  {content : Bytes}

/-! ## One turn -/

theorem moveFile_cases (cwd : Location) (root destination : Text) (tree : Tree) (path : Text) :
    (tree.exists? cwd (Path.below destination path) = true ∧
      moveFile cwd root destination tree path =
        (tree, some (.occupied (Path.below destination path)))) ∨
    (∃ fault, moveFile cwd root destination tree path =
      ((tree.mkParents cwd (Path.below destination path)).tree, some (.refused fault))) ∨
    (tree.exists? cwd (Path.below destination path) = false ∧
      (tree.mkParents cwd (Path.below destination path)).fault? = none ∧
      ∃ tree', (tree.mkParents cwd (Path.below destination path)).tree.rename cwd
        (Path.below root path) (Path.below destination path) = .ok tree' ∧
        moveFile cwd root destination tree path = (tree', none)) := by
  unfold moveFile
  dsimp only
  split
  · next hexists => exact .inl ⟨hexists, rfl⟩
  · next hexists =>
    right
    split
    · next fault hfault => exact .inl ⟨fault, rfl⟩
    · next hfault =>
      split
      · next tree' hrename => exact .inr ⟨Bool.eq_false_iff.2 hexists, hfault, tree', hrename, rfl⟩
      · next fault hrename => exact .inl ⟨fault, rfl⟩

theorem moveFile_of_exists (root : Text)
    (h : tree.exists? cwd (Path.below destination path) = true) :
    moveFile cwd root destination tree path =
      (tree, some (.occupied (Path.below destination path))) := if_pos h

theorem moveFile_wellFormed (hwf : tree.WellFormed) :
    (moveFile cwd root destination tree path).1.WellFormed := by
  have hmade := (makesDirs_mkParents tree cwd (Path.below destination path)).wellFormed hwf
  rcases moveFile_cases cwd root destination tree path with ⟨-, heq⟩ | ⟨fault, heq⟩ |
    ⟨-, -, tree', hrename, heq⟩
  · rw [heq]
    exact hwf
  · rw [heq]
    exact hmade
  · rw [heq]
    obtain ⟨old, new, -, -, hsame | ⟨hmoved, hclears, -⟩⟩ := rename_ok hmade hrename
    · exact hsame ▸ hmade
    · exact hmoved ▸ hclears.wellFormed hmade

theorem moveFile_contents (hwf : tree.WellFormed)
    (hclimbs : tree.Climbs (start cwd (Path.below destination path))
      (Path.segments (Path.below destination path))) :
    (moveFile cwd root destination tree path).1.contents = tree.contents := by
  have hmakes := makesDirs_mkParents tree cwd (Path.below destination path)
  have hmade := hmakes.wellFormed hwf
  rcases moveFile_cases cwd root destination tree path with
    ⟨-, heq⟩ | ⟨fault, heq⟩ | ⟨hexists, hfault, tree', hrename, heq⟩
  · rw [heq]
  · rw [heq]
    exact hmakes.contents_eq
  · rw [heq]
    obtain ⟨old, new, -, hnew, hsame | ⟨hmoved, -, hslash⟩⟩ := rename_ok hmade hrename
    · exact hsame ▸ hmakes.contents_eq
    · rw [hmoved, contents_moveTo hmade, hmakes.contents_eq]
      intro content hfile
      exact mkParents_free hwf hclimbs hexists hfault hnew (hslash content hfile) content hfile

theorem moveFile_stays (hwf : tree.WellFormed) (hclimbs : Turn.Climbs cwd destination ⟨tree, path⟩)
    (hfile : tree.node? loc = some (.file content))
    (hout : ∀ place ∈ Turn.place? cwd root destination ⟨tree, path⟩, loc.within place = false) :
    (moveFile cwd root destination tree path).1.node? loc = some (.file content) := by
  have hmakes := makesDirs_mkParents tree cwd (Path.below destination path)
  have hmade := hmakes.wellFormed hwf
  have hfile' := (hmakes.node?_iff (by simp)).2 hfile
  rcases moveFile_cases cwd root destination tree path with
    ⟨-, heq⟩ | ⟨fault, heq⟩ | ⟨hexists, hfault, tree', hrename, heq⟩
  · rw [heq]
    exact hfile
  · rw [heq]
    exact hfile'
  · rw [heq]
    obtain ⟨old, new, hold, hnew, hsame | ⟨hmoved, hclears, hslash⟩⟩ := rename_ok hmade hrename
    · exact hsame ▸ hfile'
    · rw [hmoved]
      refine hclears.node?_of_outside hmade hfile' (hout old hold) ?_
      rintro rfl
      exact mkParents_free hwf hclimbs hexists hfault hnew (hslash content hfile') content hfile'

/-! ## All turns -/

/-- **What each turn keeps is kept by all of them.** -/
theorem moveFiles_keeps (Kept : Tree → Prop)
    (hstep : ∀ turn ∈ turns cwd root destination tree paths,
      Kept turn.tree → Kept (moveFile cwd root destination turn.tree turn.path).1)
    (h : Kept tree) : Kept (moveFiles cwd root destination tree paths).1 := by
  induction paths generalizing tree with
  | nil => exact h
  | cons path paths ih =>
    obtain ⟨hfirst, hrest⟩ := List.forall_mem_cons.1 hstep
    exact ih hrest (hfirst h)

theorem moveFiles_wellFormed (hwf : tree.WellFormed) :
    (moveFiles cwd root destination tree paths).1.WellFormed :=
  moveFiles_keeps WellFormed (fun _ _ => moveFile_wellFormed) hwf

theorem moveFiles_contents (hwf : tree.WellFormed)
    (hclimbs : ∀ turn ∈ turns cwd root destination tree paths, turn.Climbs cwd destination) :
    (moveFiles cwd root destination tree paths).1.contents = tree.contents := by
  refine (moveFiles_keeps (fun t => t.WellFormed ∧ t.contents = tree.contents) ?_ ⟨hwf, rfl⟩).2
  rintro turn hturn ⟨hwf, hcontents⟩
  exact ⟨moveFile_wellFormed hwf, (moveFile_contents hwf (hclimbs turn hturn)).trans hcontents⟩

theorem moveFiles_stays (hwf : tree.WellFormed)
    (hclimbs : ∀ turn ∈ turns cwd root destination tree paths, turn.Climbs cwd destination)
    (hfile : tree.node? loc = some (.file content))
    (hout : ∀ turn ∈ turns cwd root destination tree paths,
      ∀ place ∈ turn.place? cwd root destination,
      loc.within place = false) :
    (moveFiles cwd root destination tree paths).1.node? loc = some (.file content) := by
  refine (moveFiles_keeps (fun t => t.WellFormed ∧ t.node? loc = some (.file content)) ?_
    ⟨hwf, hfile⟩).2
  rintro turn hturn ⟨hwf, hfile⟩
  exact ⟨moveFile_wellFormed hwf, moveFile_stays hwf (hclimbs turn hturn) hfile (hout turn hturn)⟩

theorem moveFiles_complete :
    ((moveFiles cwd root destination tree paths).2.moved ++
        (moveFiles cwd root destination tree paths).2.failed.map Prod.fst).Perm paths ∧
      (moveFiles cwd root destination tree paths).2.moved.Sublist paths ∧
      ((moveFiles cwd root destination tree paths).2.failed.map Prod.fst).Sublist paths := by
  induction paths generalizing tree with
  | nil => exact ⟨.refl _, .refl _, .refl _⟩
  | cons path paths ih =>
    obtain ⟨hperm, hmoved, hfailed⟩ := @ih (moveFile cwd root destination tree path).1
    unfold moveFiles
    dsimp only
    cases (moveFile cwd root destination tree path).2 with
    | none => exact ⟨hperm.cons path, hmoved.cons_cons path, hfailed.cons path⟩
    | some failure =>
      exact ⟨List.perm_middle.trans (hperm.cons path), hmoved.cons path, hfailed.cons_cons path⟩

theorem destination_moveFiles :
    (moveFiles cwd root destination tree paths).2.destination = destination := by
  induction paths generalizing tree with
  | nil => rfl
  | cons path paths ih =>
    unfold moveFiles
    dsimp only
    cases (moveFile cwd root destination tree path).2 with
    | none => exact ih
    | some failure => exact ih

theorem mem_failed_moveFiles {failure : MoveFailure} {turn : Turn}
    (hturn : turn ∈ turns cwd root destination tree paths)
    (h : (moveFile cwd root destination turn.tree turn.path).2 = some failure) :
    (turn.path, failure) ∈ (moveFiles cwd root destination tree paths).2.failed := by
  induction paths generalizing tree with
  | nil => cases hturn
  | cons path paths ih =>
    unfold moveFiles
    dsimp only
    rcases List.mem_cons.1 hturn with rfl | hturn
    · rw [h]
      exact List.mem_cons_self
    · have hmem := ih hturn
      cases (moveFile cwd root destination tree path).2 with
      | none => exact hmem
      | some other => exact List.mem_cons_of_mem _ hmem

theorem mem_paths_of_mem_turns {turn : Turn} (h : turn ∈ turns cwd root destination tree paths) :
    turn.path ∈ paths := by
  induction paths generalizing tree with
  | nil => cases h
  | cons path paths ih =>
    rcases List.mem_cons.1 h with rfl | h
    · exact List.mem_cons_self
    · exact List.mem_cons_of_mem _ (ih h)

end

/-! ## Relocations -/

section
variable {tree : Tree} {cwd : Location} {root dir : Text} {files : List SourceFile}

theorem relocate_cases (tree : Tree) (cwd : Location) (root : Text) (files : List SourceFile)
    (dir : Text) :
    (∃ fault, relocate tree cwd root files dir = ((tree.mkdirs cwd (Path.join root dir)).tree,
      .error fault) ∧
      Relocation.turns tree cwd root files dir = []) ∨
    (relocate tree cwd root files dir =
        ((moveFiles cwd root (Path.join root dir) (tree.mkdirs cwd (Path.join root dir)).tree
          (files.map (·.path))).1, .ok (moveFiles cwd root (Path.join root dir)
          (tree.mkdirs cwd (Path.join root dir)).tree (files.map (·.path))).2) ∧
      Relocation.turns tree cwd root files dir =
        turns cwd root (Path.join root dir) (tree.mkdirs cwd (Path.join root dir)).tree
          (files.map (·.path))) := by
  unfold relocate Relocation.turns
  dsimp only
  cases (tree.mkdirs cwd (Path.join root dir)).fault? with
  | some fault => exact .inl ⟨fault, rfl, rfl⟩
  | none => exact .inr ⟨rfl, rfl⟩

/-- Each record is told once, in the order given. -/
theorem relocate_complete {r : Relocation} (h : (relocate tree cwd root files dir).2 = .ok r) :
    (r.moved ++ r.failed.map Prod.fst).Perm (files.map (·.path)) ∧
      r.moved.Sublist (files.map (·.path)) ∧
        (r.failed.map Prod.fst).Sublist (files.map (·.path)) := by
  rcases relocate_cases tree cwd root files dir with ⟨fault, heq, -⟩ | ⟨heq, -⟩
  · rw [heq] at h
    cases h
  · rw [heq] at h
    cases h
    exact moveFiles_complete

theorem relocate_wellFormed (hwf : tree.WellFormed) :
    (relocate tree cwd root files dir).1.WellFormed := by
  have hmade := (makesDirs_mkdirs tree cwd (Path.join root dir)).wellFormed hwf
  rcases relocate_cases tree cwd root files dir with ⟨fault, heq, -⟩ | ⟨heq, -⟩
  · rw [heq]
    exact hmade
  · rw [heq]
    exact moveFiles_wellFormed hmade

/-- Records whose new places are told without `..` climb nowhere. -/
theorem climbs_of_plain
    (h : ∀ file ∈ files, Path.up ∉ Path.segments (Path.below (Path.join root dir) file.path)) :
    ∀ turn ∈ Relocation.turns tree cwd root files dir, turn.Climbs cwd (Path.join root dir) := by
  intro turn hturn
  rcases relocate_cases tree cwd root files dir with ⟨fault, -, heq⟩ | ⟨-, heq⟩
  · rw [heq] at hturn
    cases hturn
  · rw [heq] at hturn
    obtain ⟨file, hfile, hpath⟩ := List.mem_map.1 (mem_paths_of_mem_turns hturn)
    apply climbs_of_not_mem
    rw [← hpath]
    exact h file hfile

/-- What a relocation keeps. -/
structure Relocation.Lossless (tree : Tree) (cwd : Location) (root : Text) (files : List SourceFile)
    (dir : Text) : Prop where
  /-- No content gets lost or doubled. -/
  contents : (relocate tree cwd root files dir).1.contents = tree.contents
  /-- A file stays if it is neither at the place of a record on its turn nor beneath it. -/
  stays : ∀ loc content, tree.node? loc = some (.file content) →
    (∀ turn ∈ Relocation.turns tree cwd root files dir,
      ∀ place ∈ turn.place? cwd root (Path.join root dir), loc.within place = false) →
    (relocate tree cwd root files dir).1.node? loc = some (.file content)
  /-- Each record is told once, in the order given. -/
  complete : ∀ r, (relocate tree cwd root files dir).2 = .ok r →
    (r.moved ++ r.failed.map Prod.fst).Perm (files.map (·.path)) ∧
      r.moved.Sublist (files.map (·.path)) ∧ (r.failed.map Prod.fst).Sublist (files.map (·.path))
  /-- A record whose new place is taken fails, and nothing changes on its turn. -/
  occupied : ∀ r, (relocate tree cwd root files dir).2 = .ok r →
    ∀ turn ∈ Relocation.turns tree cwd root files dir,
      turn.tree.exists? cwd (Path.below (Path.join root dir) turn.path) = true →
    (turn.path, .occupied (Path.below (Path.join root dir) turn.path)) ∈ r.failed ∧
      (moveFile cwd root (Path.join root dir) turn.tree turn.path).1 = turn.tree
  /-- Without a destination no file and no link is moved or changed. -/
  unmade : ∀ fault, (relocate tree cwd root files dir).2 = .error fault → ∀ loc node, node ≠ .dir →
    ((relocate tree cwd root files dir).1.node? loc = some node ↔ tree.node? loc = some node)

/-- **Moving files aside loses nothing** in a well-formed tree, if each `..` on the way to a
record's new place leaves a directory that is there on the record's turn. -/
theorem relocate_lossless (tree : Tree) (cwd : Location) (root : Text) (files : List SourceFile)
    (dir : Text) (hwf : tree.WellFormed)
    (hclimbs : ∀ turn ∈ Relocation.turns tree cwd root files dir,
      turn.Climbs cwd (Path.join root dir)) :
    Relocation.Lossless tree cwd root files dir := by
  have hmakes := makesDirs_mkdirs tree cwd (Path.join root dir)
  have hmade := hmakes.wellFormed hwf
  rcases relocate_cases tree cwd root files dir with ⟨fault, heq, hturns⟩ | ⟨heq, hturns⟩
  · constructor
    · rw [heq]
      exact hmakes.contents_eq
    · intro loc content hfile _
      rw [heq]
      exact (hmakes.node?_iff (by simp)).2 hfile
    · intro r hr
      rw [heq] at hr
      cases hr
    · intro r hr
      rw [heq] at hr
      cases hr
    · intro fault _ loc node hnode
      rw [heq]
      exact hmakes.node?_iff hnode
  · constructor
    · rw [heq, moveFiles_contents hmade (hturns ▸ hclimbs), hmakes.contents_eq]
    · intro loc content hfile hout
      rw [hturns] at hout hclimbs
      rw [heq]
      exact moveFiles_stays hmade hclimbs ((hmakes.node?_iff (by simp)).2 hfile) hout
    · intro r hr
      rw [heq] at hr
      cases hr
      exact moveFiles_complete
    · intro r hr turn hturn hexists
      rw [heq] at hr
      cases hr
      rw [hturns] at hturn
      have hmove := moveFile_of_exists root hexists
      exact ⟨mem_failed_moveFiles hturn (congrArg Prod.snd hmove), congrArg Prod.fst hmove⟩
    · intro fault hfault
      rw [heq] at hfault
      cases hfault

end

/-! ### Files that are moved, and files that are not -/

/-- A project at the root of a tree, with a file that was moved aside earlier. -/
def asideTree : Tree where
  entries := [
    (["src".toList], .dir),
    (["a.ts".toList, "src".toList], .file (Text.bytes ['a'])),
    (["b.ts".toList, "src".toList], .file (Text.bytes ['b'])),
    (["aside".toList], .dir),
    (["src".toList, "aside".toList], .dir),
    (["b.ts".toList, "src".toList, "aside".toList], .file (Text.bytes ['c']))]

def asideFiles : List SourceFile :=
  ["/src/a.ts", "/src/b.ts", "/src/a.ts", "/none.ts"].map fun path => .ofPath path.toList

theorem relocate_lossless_asideTree :
    asideTree.WellFormed ∧
      (∀ turn ∈ Relocation.turns asideTree [] ['/'] asideFiles "aside".toList,
        turn.Climbs [] "/aside".toList) ∧
      (relocate asideTree [] ['/'] asideFiles "aside".toList).2 = .ok {
        destination := "/aside".toList
        moved := ["/src/a.ts".toList]
        failed := [
          ("/src/b.ts".toList, .occupied "/aside/src/b.ts".toList),
          ("/src/a.ts".toList, .occupied "/aside/src/a.ts".toList),
          ("/none.ts".toList, .refused .notFound)] } ∧
      Relocation.Lossless asideTree [] ['/'] asideFiles "aside".toList := by
  have hwf : asideTree.WellFormed := by decide
  have hclimbs : ∀ turn ∈ Relocation.turns asideTree [] ['/'] asideFiles "aside".toList,
      turn.Climbs [] "/aside".toList :=
    climbs_of_plain (by decide)
  exact ⟨hwf, hclimbs, by cbv,
    relocate_lossless asideTree [] ['/'] asideFiles "aside".toList hwf hclimbs⟩

/-- The new place of `b.ts` is told through a directory that is missing, beside a file with that
name. -/
def uncoveredTree : Tree where
  entries := [
    (["a".toList], .dir),
    (["b.ts".toList], .file (Text.bytes ['b'])),
    (["aside".toList], .dir),
    (["b.ts".toList, "aside".toList], .file (Text.bytes ['c']))]

/-- The same tree after `b.ts` has been moved aside. -/
def replacedTree : Tree where
  entries := [
    (["a".toList, "aside".toList], .dir),
    (["a".toList], .dir),
    (["b.ts".toList, "aside".toList], .file (Text.bytes ['b'])),
    (["aside".toList], .dir)]

/-- A file can be lost where a record climbs out of a directory that is made only for the record:
its new place leads to nothing when it is looked at, and to another file when the record is
moved. -/
theorem relocate_replaces_uncovered :
    uncoveredTree.WellFormed ∧
      relocate uncoveredTree [] ['/'] [.ofPath "/a/../b.ts".toList] "aside".toList =
        (replacedTree, .ok { destination := "/aside".toList, moved := ["/a/../b.ts".toList] }) ∧
      ¬Relocation.Lossless uncoveredTree [] ['/'] [.ofPath "/a/../b.ts".toList] "aside".toList := by
  have hrelocate : relocate uncoveredTree [] ['/'] [.ofPath "/a/../b.ts".toList] "aside".toList =
      (replacedTree, .ok { destination := "/aside".toList, moved := ["/a/../b.ts".toList] }) := by
    cbv
  refine ⟨by decide, hrelocate, ?_⟩
  intro h
  have hcontents := h.contents
  rw [hrelocate] at hcontents
  revert hcontents
  decide

end Unreached

import Unreached.Proofs.Check
import Unreached.Proofs.Relocation

/-!
# Files that were moved aside

* `LiesBelow` : the paths below a place of the project;
* `Shut` : the directories for unused files that the collector does not enter;
* `collect_outside` : no file is collected below a directory that is not entered;
* `moved_stay_out` : after files have been moved into such a directory, a check with the same
  settings collects, reports and moves none of those below it.

Every single name makes such a directory (`shut_of_isName`). A path of several names or with a slash
at its end need not, since the collector compares the whole path with the name of each directory
(`moved_collected_again`).
-/

namespace Unreached

set_option autoImplicit false

/-- Whether a path from the root lies below the place `place`. -/
def LiesBelow (place : Location) (path : Text) : Prop :=
  ∃ rest, rest ≠ [] ∧ Path.segments path = place.reverse ++ rest

/-- The place below the root that a directory for unused files has, unless it is outside. -/
def moveDirPlace? (dir : Text) : Option Location :=
  if Path.isAbsolute dir then none else Path.walk? [] (Path.segments dir)

/-- Whether the directory `dir` for unused files has the place `place`, and one of the names on the
way is not entered. -/
structure Shut (dir : Text) (place : Location) : Prop where
  leads : moveDirPlace? dir = some place
  skipped : ∃ name ∈ place, isSkippedDir [dir] name = true

theorem shut_of_isName {dir : Text} (h : Path.IsName dir) : Shut dir [dir] := by
  have habsolute : Path.isAbsolute dir = false :=
    Path.isAbsolute_joined (List.forall_mem_singleton.2 h.1)
  constructor
  · rw [moveDirPlace?, habsolute, Path.segments_of_isSegment h.1]
    simp [Path.walk?, h.2.1, h.2.2]
  · refine ⟨dir, List.mem_singleton_self dir, ?_⟩
    simp [isSkippedDir]

/-! ## Locations -/

section
variable {loc top : Location}

theorem Location.mem_upward : top ∈ loc.upward ↔ top <:+ loc := by
  induction loc with
  | nil => simp [Location.upward]
  | cons name dir ih => rw [Location.upward, List.mem_cons, ih, List.suffix_cons_iff]

theorem Location.namesBelow_append (front top : Location) :
    Location.namesBelow (front ++ top) top = front.reverse := by
  simp [Location.namesBelow]

end

/-! ## Collecting -/

section
variable {c : Collection} {tree : Tree} {cwd root loc : Location} {table : List Ignore.Scope}
  {file : SourceFile} {inventory : Inventory}

theorem mem_ofFiles {files : List SourceFile} (h : file ∈ (Inventory.ofFiles files).files) :
    file ∈ files := by
  induction files with
  | nil => cases h
  | cons f files ih =>
    rcases of_mem_insertBy h with rfl | h
    · exact List.mem_cons_self
    · exact List.mem_cons_of_mem _ (ih h)

theorem of_file? {entry : Location × Node} (h : c.file? root table entry = some file) :
    ∃ front content, entry = (front ++ root, .file content) ∧
      c.takes root table (front ++ root) = true ∧
      file.path = Path.ofSegments front.reverse := by
  obtain ⟨loc, node⟩ := entry
  cases node with
  | dir => cases h
  | link target => cases h
  | file content =>
    rw [Collection.file?] at h
    split at h
    · next htakes =>
      obtain ⟨hwithin, htakes⟩ := Bool.and_eq_true_iff.1 htakes
      obtain ⟨front, rfl⟩ := Location.within_iff.1 hwithin
      cases h
      refine ⟨front, content, rfl, htakes, ?_⟩
      rw [Location.namesBelow_append]
      rfl
    · cases h

/-- What a collected file is from: an entry of the tree below the root, where every directory on the
way is entered. -/
theorem collect_ok {rootPath : Text} (h : collect c tree cwd rootPath = .ok inventory)
    (hfile : file ∈ inventory.files) :
    ∃ root table front content, (front ++ root, .file content) ∈ tree.entries ∧
      c.takes root table (front ++ root) = true ∧ file.path = Path.ofSegments front.reverse := by
  unfold collect at h
  obtain ⟨root, -, h⟩ := Except.bind_ok h
  split at h
  · cases h
  · split at h
    · cases h
      cases hfile
    · cases h
      obtain ⟨entry, hentry, hfound⟩ := List.mem_filterMap.1 (mem_ofFiles hfile)
      obtain ⟨front, content, rfl, htakes, hpath⟩ := of_file? hfound
      exact ⟨root, _, front, content, hentry, htakes, hpath⟩

theorem not_skipped_of_takes {after before : List Text} {name : Text} (hafter : after ≠ [])
    (h : c.takes root table (after ++ name :: (before ++ root)) = true) :
    isSkippedDir c.excludedDirs name = false := by
  obtain ⟨⟨-, hall⟩, -⟩ := Bool.and_eq_true_iff.1 h |>.imp_left Bool.and_eq_true_iff.1
  have hsuffix : name :: (before ++ root) <:+ (after ++ name :: (before ++ root)).tail := by
    rw [List.tail_append_of_ne_nil hafter]
    exact List.suffix_append _ _
  have hwithin : Location.within (name :: (before ++ root)) root = true :=
    Location.within_cons name (Location.within_append before root)
  have hne : name :: (before ++ root) ≠ root := by
    intro heq
    have hlength := congrArg List.length heq
    simp only [List.length_cons, List.length_append] at hlength
    omega
  have henters := List.all_eq_true.1 hall (name :: (before ++ root))
    (List.mem_filter.2 ⟨Location.mem_upward.2 hsuffix, by simp [hwithin, hne]⟩)
  simpa using (Bool.and_eq_true_iff.1 henters).1

/-- **No file is collected below a directory that is not entered.** -/
theorem collect_outside {rootPath name : Text} {place : Location} (hwf : tree.WellFormed)
    (h : collect c tree cwd rootPath = .ok inventory) (hfile : file ∈ inventory.files)
    (hname : name ∈ place) (hskipped : isSkippedDir c.excludedDirs name = true) :
    ¬LiesBelow place file.path := by
  obtain ⟨root, table, front, content, hentry, htakes, hpath⟩ := collect_ok h hfile
  have hnames : ∀ s ∈ front.reverse, Path.IsSegment s := by
    intro s hs
    have hmem : s ∈ front ++ root := List.mem_append_left _ (List.mem_reverse.1 hs)
    exact (hwf.isName_of_mem (hwf.node?_of_mem hentry) s hmem).1
  rintro ⟨rest, hrest, hsegments⟩
  rw [hpath, Path.segments_ofSegments hnames] at hsegments
  obtain ⟨after, before, rfl⟩ := List.append_of_mem hname
  have hfront : front = (rest.reverse ++ after) ++ name :: before := by
    rw [← List.reverse_reverse front, hsegments]
    simp
  rw [hfront, List.append_assoc, List.cons_append] at htakes
  have hentered := not_skipped_of_takes (by simp [hrest]) htakes
  rw [hskipped] at hentered
  cases hentered

end

/-! ## Checks after files have been moved -/

section
variable {host : Host} {tree tree' : Tree} {settings s : Settings} {inventory : Inventory}
  {place : Location} {r : CheckResult} {relocation : Relocation}

theorem Surveyed.moveDir_eq (h : Surveyed host tree settings s inventory) :
    s.moveDir = settings.moveDir := by
  have hs := h.initialized
  unfold Settings.initialize? at hs
  obtain ⟨root, -, rfl⟩ := Option.map_eq_some_iff.1 hs
  rfl

theorem Surveyed.outside (h : Surveyed host tree settings s inventory) (hwf : tree.WellFormed)
    (hshut : Shut settings.moveDir place) : ∀ f ∈ inventory.files, ¬LiesBelow place f.path := by
  intro f hf
  obtain ⟨name, hname, hskipped⟩ := hshut.skipped
  rw [← h.moveDir_eq] at hskipped
  exact collect_outside hwf h.collected hf hname hskipped

theorem check_outside (hwf : tree.WellFormed) (hshut : Shut settings.moveDir place)
    (h : check host tree settings = .ok r) : ∀ f ∈ r.unused, ¬LiesBelow place f.path := by
  obtain ⟨s, inventory, deadline, hs, -, hcheck⟩ := check_ok h
  intro f hf
  have hcandidate := ((Settings.exact_of_checkInventory hcheck).mem_unused f).1 hf
  exact hs.outside hwf hshut f (List.mem_of_mem_filter hcandidate.1)

theorem mem_of_mem_moved {cwd : Location} {root dir path : Text} {files : List SourceFile}
    (h : (relocate tree cwd root files dir).2 = .ok relocation) (hpath : path ∈ relocation.moved) :
    ∃ f ∈ files, f.path = path :=
  List.mem_map.1 ((relocate_complete h).2.1.subset hpath)

/-- What checks of a tree leave alone below a place: they neither collect nor report a file there,
and a relocation of what they report moves none. -/
structure LeavesAlone (host : Host) (tree : Tree) (settings : Settings) (place : Location) :
    Prop where
  collected : ∀ s inventory, Surveyed host tree settings s inventory →
    ∀ f ∈ inventory.files, ¬LiesBelow place f.path
  reported : ∀ r, check host tree settings = .ok r → ∀ f ∈ r.unused, ¬LiesBelow place f.path
  moved : ∀ r, check host tree settings = .ok r → ∀ relocation,
    (relocate tree host.cwd r.root r.unused settings.moveDir).2 = .ok relocation →
    ∀ path ∈ relocation.moved, ¬LiesBelow place path

/-- **Files that were moved aside stay out of later checks** if the collector does not enter the
directory they were moved to. -/
theorem moved_stay_out {root : Text} {files : List SourceFile} (hwf : tree.WellFormed)
    (hshut : Shut settings.moveDir place)
    (h : relocate tree host.cwd root files settings.moveDir = (tree', .ok relocation)) :
    LeavesAlone host tree' settings place := by
  have hwf' : tree'.WellFormed := by
    have hwellFormed : (relocate tree host.cwd root files settings.moveDir).1.WellFormed :=
      relocate_wellFormed hwf
    rwa [h] at hwellFormed
  constructor
  · intro s inventory hs
    exact hs.outside hwf' hshut
  · intro r hr
    exact check_outside hwf' hshut hr
  · intro r hr relocation hrelocation path hpath
    obtain ⟨f, hf, rfl⟩ := mem_of_mem_moved hrelocation hpath
    exact check_outside hwf' hshut hr f hf

end

/-! ### A file that nothing imports -/

/-- A project at the root of a tree, with an entry point and a file that nothing imports. -/
def orphanTree : Tree where
  entries := [(["index.ts".toList], .file []), (["orphan.ts".toList], .file [])]

/-- The same project after the file has been moved to the first of the directories `dirs`. -/
def orphanTreeIn (dirs : List Location) : Tree where
  entries := dirs.map (·, .dir) ++ [(["index.ts".toList], .file []),
    ("orphan.ts".toList :: dirs.headD [], .file [])]

def orphanSettings (dir : Text) : Settings := { root := some ['/'], moveDir := dir }

theorem moved_stay_out_orphanTree :
    orphanTree.WellFormed ∧ Shut "aside".toList ["aside".toList] ∧
      relocate orphanTree [] ['/'] [.ofPath "/orphan.ts".toList] "aside".toList =
        (orphanTreeIn [["aside".toList]],
          .ok { destination := "/aside".toList, moved := ["/orphan.ts".toList] }) ∧
      LeavesAlone { cwd := [] } (orphanTreeIn [["aside".toList]]) (orphanSettings "aside".toList)
        ["aside".toList] := by
  have hwf : orphanTree.WellFormed := by decide
  have hshut : Shut "aside".toList ["aside".toList] := shut_of_isName (by decide)
  have hrelocate : relocate orphanTree [] ['/'] [.ofPath "/orphan.ts".toList] "aside".toList =
      (orphanTreeIn [["aside".toList]],
        .ok { destination := "/aside".toList, moved := ["/orphan.ts".toList] }) := by
    cbv
  have hleaves : LeavesAlone { cwd := [] } (orphanTreeIn [["aside".toList]])
      (orphanSettings "aside".toList) ["aside".toList] :=
    moved_stay_out hwf hshut hrelocate
  exact ⟨hwf, hshut, hrelocate, hleaves⟩

theorem surveyed_nested :
    Surveyed { cwd := [] } (orphanTreeIn [["unused".toList, "old".toList], ["old".toList]])
      (orphanSettings "old/unused".toList) (orphanSettings "old/unused".toList)
      (.ofPaths ["/index.ts".toList, "/old/unused/orphan.ts".toList]) := by
  constructor
  · cbv
  · cbv

theorem surveyed_slash :
    Surveyed { cwd := [] } (orphanTreeIn [["old".toList]]) (orphanSettings "old/".toList)
      (orphanSettings "old/".toList) (.ofPaths ["/index.ts".toList, "/old/orphan.ts".toList]) := by
  constructor
  · cbv
  · cbv

/-- A file that was moved aside is collected again where the directory for unused files is a path of
two names, or a name with a slash at its end: the collector compares the whole text with the name of
a directory. -/
theorem moved_collected_again :
    (relocate orphanTree [] ['/'] [.ofPath "/orphan.ts".toList] "old/unused".toList =
        (orphanTreeIn [["unused".toList, "old".toList], ["old".toList]],
          .ok { destination := "/old/unused".toList, moved := ["/orphan.ts".toList] }) ∧
      ¬LeavesAlone { cwd := [] } (orphanTreeIn [["unused".toList, "old".toList], ["old".toList]])
        (orphanSettings "old/unused".toList) ["unused".toList, "old".toList]) ∧
    (relocate orphanTree [] ['/'] [.ofPath "/orphan.ts".toList] "old/".toList =
        (orphanTreeIn [["old".toList]],
          .ok { destination := "/old/".toList, moved := ["/orphan.ts".toList] }) ∧
      ¬LeavesAlone { cwd := [] } (orphanTreeIn [["old".toList]]) (orphanSettings "old/".toList)
        ["old".toList]) := by
  refine ⟨⟨by cbv, ?_⟩, ⟨by cbv, ?_⟩⟩
  · intro h
    refine h.collected _ _ surveyed_nested (.ofPath "/old/unused/orphan.ts".toList) (by decide) ?_
    exact ⟨["orphan.ts".toList], List.cons_ne_nil _ _, by decide⟩
  · intro h
    refine h.collected _ _ surveyed_slash (.ofPath "/old/orphan.ts".toList) (by decide) ?_
    exact ⟨["orphan.ts".toList], List.cons_ne_nil _ _, by decide⟩

end Unreached

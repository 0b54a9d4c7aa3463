import Unreached.Proofs.OpenPlaces

/-!
# Files are moved aside independently of each other

In a tree without links what happens to a record depends on the tree before the relocation alone,
and not on the other records.

* `Plan` : the records of a relocation, in the tree where the destination has been made. The places
  of two records do not meet (`Plan.eq_of_target_suffix`, `Plan.source_not_on_way`);
* `Along` : a tree that the relocation goes through, described by the records that had their turn.
  Each turn leads to the next one (`Along.step`), and so all of them do (`Along.run`);
* `relocate_independent` : which records are moved, where their files are afterwards, and that the
  order of the records does not matter.
-/

namespace Unreached

set_option autoImplicit false

open Unreached.Tree

/-- Whether a record is moved: its new place is open and has a path that is short enough. -/
def Moves (tree : Tree) (destination : Text) (top : Location) (path : Text) : Prop :=
  checkPath (Path.below destination path) = .ok () ∧ tree.IsOpen (top.below path)

/-- The records of a relocation: files below the root at `base` and not below the destination at
`top`. -/
structure Plan (cwd : Location) (root destination : Text) (base top : Location) (tree : Tree)
    (paths : List Text) : Prop where
  wellFormed : tree.WellFormed
  linkFree : tree.LinkFree
  rootWalk : tree.walk true maxLinks (start cwd root) (Path.segments root ++ [Path.here]) = .ok base
  destinationWalk : tree.walk true maxLinks (start cwd destination)
    (Path.segments destination ++ [Path.here]) = .ok top
  entries : ∀ path ∈ paths, ∀ s ∈ Path.segments path, IsEntry s
  files : ∀ path ∈ paths, ∃ content, tree.node? (base.below path) = some (.file content)
  shorter : ∀ path ∈ paths, checkPath (Path.below destination path) = .ok () →
    checkPath (Path.below root path) = .ok ()
  outside : ∀ path ∈ paths, ¬top <:+ base.below path
  distinct : (paths.map Path.segments).Nodup

section
variable {cwd base top : Location} {root destination : Text} {tree : Tree} {paths : List Text}
  {p q : Text}

/-! ## Places that do not meet -/

namespace Plan

theorem eq_of_source_suffix (h : Plan cwd root destination base top tree paths) (hp : p ∈ paths)
    (hq : q ∈ paths) (hsuffix : base.below p <:+ base.below q) : p = q := by
  obtain ⟨content, hfile⟩ := h.files p hp
  obtain ⟨other, hother⟩ := h.files q hq
  have heq : base.below q = base.below p :=
    h.wellFormed.bare (by simp [hfile]) _ _ hother (Location.within_iff.2 hsuffix)
  have hsegments : Path.segments p = Path.segments q :=
    List.reverse_inj.1 (List.append_cancel_right heq).symm
  exact List.inj_on_of_nodup_map h.distinct hp hq hsegments

/-- The new place of a record is not on the way to that of another. -/
theorem eq_of_target_suffix (h : Plan cwd root destination base top tree paths) (hp : p ∈ paths)
    (hq : q ∈ paths) (hsuffix : top.below p <:+ top.below q) : p = q :=
  h.eq_of_source_suffix hp hq
    (List.suffix_append_self_iff.2 (List.suffix_append_self_iff.1 hsuffix))

/-- The old place of a record is not on the way to a new place. -/
theorem source_not_on_way (h : Plan cwd root destination base top tree paths) (hp : p ∈ paths)
    (q : Text) : ¬base.below p <:+ top.below q := by
  intro hsuffix
  rcases List.suffix_or_suffix_of_suffix hsuffix (List.suffix_append _ top) with habove | hbelow
  · obtain ⟨content, hfile⟩ := h.files p hp
    rw [h.wellFormed.isDir_of_suffix (walk_here_ok h.destinationWalk).2 habove] at hfile
    cases hfile
  · exact h.outside p hp hbelow

theorem target_ne_source (h : Plan cwd root destination base top tree paths) (hp : p ∈ paths)
    (q : Text) : top.below q ≠ base.below p :=
  fun heq => h.source_not_on_way hp q (heq ▸ List.suffix_refl _)

end Plan

/-! ## The trees on the way -/

/-- What a tree on the way of a relocation is like after the records `done` have had their turns. -/
structure Along (destination : Text) (base top : Location) (tree t : Tree) (done : List Text) :
    Prop where
  wellFormed : t.WellFormed
  linkFree : t.LinkFree
  files : ∀ loc content, t.node? loc = some (.file content) ↔
    (∃ q ∈ done, Moves tree destination top q ∧ loc = top.below q ∧
      tree.node? (base.below q) = some (.file content)) ∨
      (∀ q ∈ done, Moves tree destination top q → loc ≠ base.below q) ∧
        tree.node? loc = some (.file content)
  dirs : ∀ loc, tree.node? loc = some .dir → t.node? loc = some .dir
  onWay : ∀ loc, t.node? loc = some .dir →
    tree.node? loc = some .dir ∨ ∃ q ∈ done, loc <:+ (top.below q).tail

namespace Along

variable {t : Tree} {done rest : List Text}

theorem refl (hwf : tree.WellFormed) (hfree : tree.LinkFree) :
    Along destination base top tree tree [] where
  wellFormed := hwf
  linkFree := hfree
  files loc content := by simp
  dirs _ := id
  onWay _ := .inl

theorem congr {others : List Text} (h : Along destination base top tree t done)
    (hmem : ∀ q, q ∈ done ↔ q ∈ others) : Along destination base top tree t others where
  wellFormed := h.wellFormed
  linkFree := h.linkFree
  files loc content := by
    rw [h.files]
    simp only [hmem]
  dirs := h.dirs
  onWay loc hdir := by
    simpa only [hmem] using h.onWay loc hdir

section
variable (hplan : Plan cwd root destination base top tree paths)
  (h : Along destination base top tree t done) (hdone : done ⊆ paths) (hp : p ∈ paths)
  (hnew : p ∉ done)
include hplan h hdone hp hnew

theorem source_iff (content : Bytes) :
    t.node? (base.below p) = some (.file content) ↔
      tree.node? (base.below p) = some (.file content) := by
  rw [h.files]
  constructor
  · rintro (⟨q, -, -, heq, -⟩ | ⟨-, hfile⟩)
    · exact absurd heq.symm (hplan.target_ne_source hp q)
    · exact hfile
  · intro hfile
    refine .inr ⟨fun q hq _ heq => hnew ?_, hfile⟩
    rwa [hplan.eq_of_source_suffix hp (hdone hq) (heq ▸ List.suffix_refl _)]

theorem way_iff {loc : Location} (hloc : loc <:+ top.below p) (content : Bytes) :
    t.node? loc = some (.file content) ↔ tree.node? loc = some (.file content) := by
  rw [h.files]
  constructor
  · rintro (⟨q, hq, -, rfl, -⟩ | ⟨-, hfile⟩)
    · rw [hplan.eq_of_target_suffix (hdone hq) hp hloc] at hq
      exact absurd hq hnew
    · exact hfile
  · intro hfile
    refine .inr ⟨fun q hq _ heq => ?_, hfile⟩
    exact hplan.source_not_on_way (hdone hq) p (heq ▸ hloc)

theorem isOpen_iff : t.IsOpen (top.below p) ↔ tree.IsOpen (top.below p) := by
  refine isOpen_congr h.linkFree hplan.linkFree ⟨fun hdir => ?_, h.dirs _⟩ fun _ content hsuffix =>
    h.way_iff hplan hdone hp hnew hsuffix content
  rcases h.onWay _ hdir with hdir | ⟨q, hq, hsuffix⟩
  · exact hdir
  · rw [← hplan.eq_of_target_suffix hp (hdone hq) (hsuffix.trans (List.tail_suffix _))] at hq
    exact absurd hq hnew

theorem ready : Ready cwd root destination base top t p where
  wellFormed := h.wellFormed
  linkFree := h.linkFree
  rootWalk := walk_of_keeps hplan.linkFree h.dirs hplan.rootWalk (walk_here_ok hplan.rootWalk).2
  destinationWalk :=
    walk_of_keeps hplan.linkFree h.dirs hplan.destinationWalk (walk_here_ok hplan.destinationWalk).2
  entries := hplan.entries p hp
  file := by
    obtain ⟨content, hfile⟩ := hplan.files p hp
    exact ⟨content, (h.source_iff hplan hdone hp hnew content).2 hfile⟩
  shorter := hplan.shorter p hp

/-- **What one turn preserves**, and that the record is moved as the tree before the relocation
tells. -/
theorem step :
    ((moveFile cwd root destination t p).2 = none ↔ Moves tree destination top p) ∧
      Along destination base top tree (moveFile cwd root destination t p).1 (p :: done) := by
  obtain ⟨hmoved, hturned⟩ := (h.ready hplan hdone hp hnew).turned
  rw [h.isOpen_iff hplan hdone hp hnew] at hmoved hturned
  change Turned _ _ _ _ (Moves tree destination top p) at hturned
  refine ⟨hmoved, hturned.wellFormed, hturned.linkFree, fun loc content => ?_,
    fun loc hdir => hturned.dirs loc (h.dirs loc hdir), fun loc hdir => ?_⟩
  · -- a file at a new place is not at the old place of this record
    have hother : (∃ q ∈ done, Moves tree destination top q ∧ loc = top.below q ∧
        tree.node? (base.below q) = some (.file content)) → loc ≠ base.below p := by
      rintro ⟨q, -, -, rfl, -⟩
      exact hplan.target_ne_source hp q
    rw [hturned.files, h.source_iff hplan hdone hp hnew, h.files, List.exists_mem_cons_iff,
      List.forall_mem_cons]
    constructor
    · rintro (hmoved | ⟨hnot, hthere | ⟨hstays, hfile⟩⟩)
      · exact .inl (.inl hmoved)
      · exact .inl (.inr hthere)
      · exact .inr ⟨⟨fun hmoves heq => hnot ⟨hmoves, heq⟩, hstays⟩, hfile⟩
    · rintro ((hmoved | hthere) | ⟨⟨hnot, hstays⟩, hfile⟩)
      · exact .inl hmoved
      · exact .inr ⟨fun hmoves => hother hthere hmoves.2, .inl hthere⟩
      · exact .inr ⟨fun hmoves => hnot hmoves.1 hmoves.2, .inr ⟨hstays, hfile⟩⟩
  · rcases hturned.onWay loc hdir with hdir | hsuffix
    · exact (h.onWay loc hdir).imp_right fun ⟨q, hq, hsuffix⟩ =>
        ⟨q, List.mem_cons_of_mem _ hq, hsuffix⟩
    · exact .inr ⟨p, List.mem_cons_self, hsuffix⟩

end

/-- **What all turns preserve**, and which records are moved. -/
theorem run (hplan : Plan cwd root destination base top tree paths)
    (h : Along destination base top tree t done) (hdone : done ⊆ paths) (hrest : rest ⊆ paths)
    (hnew : ∀ q ∈ rest, q ∉ done) (hnodup : rest.Nodup) :
    (∀ q ∈ rest, q ∈ (moveFiles cwd root destination t rest).2.moved ↔
      Moves tree destination top q) ∧
      Along destination base top tree (moveFiles cwd root destination t rest).1 (rest ++ done) := by
  induction rest generalizing t done with
  | nil => exact ⟨by simp, h⟩
  | cons p rest ih =>
    obtain ⟨hp, hrest⟩ := List.cons_subset.1 hrest
    obtain ⟨hpnew, hnew⟩ := List.forall_mem_cons.1 hnew
    obtain ⟨hpnot, hnodup⟩ := List.nodup_cons.1 hnodup
    obtain ⟨hmoved, hstep⟩ := h.step hplan hdone hp hpnew
    have hnew' : ∀ q ∈ rest, q ∉ p :: done := by
      intro q hq hmem
      rcases List.mem_cons.1 hmem with rfl | hmem
      · exact hpnot hq
      · exact hnew q hq hmem
    obtain ⟨hmovedRest, halong⟩ := ih hstep (List.cons_subset.2 ⟨hp, hdone⟩) hrest hnew' hnodup
    refine ⟨?_, halong.congr fun q => by simp [or_left_comm]⟩
    have hsublist :=
      (@moveFiles_complete cwd root destination rest (moveFile cwd root destination t p).1).2.1
    have hlater :
        p ∉ (moveFiles cwd root destination (moveFile cwd root destination t p).1 rest).2.moved :=
      fun hmem => hpnot (hsublist.subset hmem)
    unfold moveFiles
    dsimp only
    intro q hq
    rcases List.mem_cons.1 hq with rfl | hq
    · cases hfailure : (moveFile cwd root destination t q).2 with
      | none => exact iff_of_true List.mem_cons_self (hmoved.1 hfailure)
      | some failure => exact iff_of_false hlater (mt hmoved.2 (by simp [hfailure]))
    · have hne : q ≠ p := fun heq => hpnot (heq ▸ hq)
      cases (moveFile cwd root destination t p).2 with
      | none => rw [List.mem_cons, or_iff_right hne, hmovedRest q hq]
      | some failure => exact hmovedRest q hq

section
variable (hplan : Plan cwd root destination base top tree paths)
  (h : Along destination base top tree t paths) (hp : p ∈ paths)
include hplan h hp

theorem of_moves (hmoves : Moves tree destination top p) :
    t.node? (base.below p) = none ∧ t.node? (top.below p) = tree.node? (base.below p) := by
  obtain ⟨content, hfile⟩ := hplan.files p hp
  constructor
  · rw [h.linkFree.node?_eq_none_iff]
    constructor
    · intro hdir
      rcases h.onWay _ hdir with hdir | ⟨q, -, hsuffix⟩
      · rw [hdir] at hfile
        cases hfile
      · exact hplan.source_not_on_way hp q (hsuffix.trans (List.tail_suffix _))
    · intro other hother
      rcases (h.files _ _).1 hother with ⟨q, -, -, heq, -⟩ | ⟨hstays, -⟩
      · exact hplan.target_ne_source hp q heq.symm
      · exact hstays p hp hmoves rfl
  · rw [hfile, h.files]
    exact .inl ⟨p, hp, hmoves, rfl, hfile⟩

theorem of_not_moves (hnot : ¬Moves tree destination top p) :
    t.node? (base.below p) = tree.node? (base.below p) := by
  obtain ⟨content, hfile⟩ := hplan.files p hp
  rw [hfile, h.files]
  refine .inr ⟨fun q hq hmoves heq => hnot ?_, hfile⟩
  rwa [hplan.eq_of_source_suffix hp hq (heq ▸ List.suffix_refl _)]

end

end Along

end

/-! ## Relocations -/

/-- What is asked of a relocation: a tree without links, a destination that can be made and is told
from the root by names, and records of different files that lie below the root and not below the
destination. -/
structure Relocatable (tree : Tree) (cwd : Location) (root : Text) (base : Location)
    (files : List SourceFile) (dir : Text) : Prop where
  storable : tree.Storable
  linkFree : tree.LinkFree
  leads : tree.LeadsTo cwd root base
  isDir : tree.node? base = some .dir
  relative : Path.isAbsolute dir = false
  normal : ∀ s ∈ Path.segments dir, s ≠ Path.here ∧ s ≠ Path.up
  made : (tree.mkdirs cwd (Path.join root dir)).fault? = none
  present : ∀ f ∈ files, ∃ content, tree.node? (base.below f.path) = some (.file content)
  outside : ∀ f ∈ files, ¬base.below dir <:+ base.below f.path
  distinct : (files.map fun f => Path.segments f.path).Nodup

/-- What becomes of a record with its file at `source` and the new place `target`. It is moved if
the new place is open and has a path that is short enough, and otherwise it fails and its file
stays. -/
structure Relocation.Settles (r : Relocation) (tree after : Tree) (source target : Location)
    (path : Text) : Prop where
  moved_iff : path ∈ r.moved ↔ (Path.below r.destination path).byteWidth < maxPath ∧
    tree.IsOpen target
  moved : path ∈ r.moved → after.node? source = none ∧ after.node? target = tree.node? source
  failed : path ∉ r.moved → path ∈ r.failed.map Prod.fst ∧ after.node? source = tree.node? source

namespace Relocatable

variable {tree : Tree} {cwd base : Location} {root dir : Text} {files : List SourceFile}
  {f : SourceFile}

theorem perm {others : List SourceFile} (h : Relocatable tree cwd root base files dir)
    (hperm : others.Perm files) : Relocatable tree cwd root base others dir :=
  { h with
    present := fun f hf => h.present f (hperm.subset hf)
    outside := fun f hf => h.outside f (hperm.subset hf)
    distinct := (hperm.map _).nodup_iff.2 h.distinct }

section
variable (h : Relocatable tree cwd root base files dir)
include h

theorem start_join : start cwd (Path.join root dir) = start cwd root := by
  rw [start, start, Path.isAbsolute_join root h.relative]

theorem rootWalk :
    tree.walk true maxLinks (start cwd root) (Path.segments root ++ [Path.here]) = .ok base :=
  h.leads.walk_dir h.isDir

theorem destinationWalk :
    (tree.mkdirs cwd (Path.join root dir)).tree.walk true maxLinks (start cwd (Path.join root dir))
      (Path.segments (Path.join root dir) ++ [Path.here]) = .ok (base.below dir) := by
  have hroot := h.rootWalk
  by_cases hne : Path.join root dir = []
  · obtain ⟨rfl, rfl⟩ : root = [] ∧ dir = [] := by
      rcases Path.join_cases root h.relative with ⟨hroot, heq⟩ | ⟨hroot, -, heq⟩ | ⟨-, -, heq⟩
      · exact ⟨hroot, heq.symm.trans hne⟩
      · exact absurd (List.append_eq_nil_iff.1 (heq.symm.trans hne)).1 hroot
      · simp [hne] at heq
    exact hroot
  · obtain ⟨top, htop⟩ := mkdirsFrom_leads h.storable.toWellFormed hne h.made
    have hfree := (makesDirs_mkdirs tree cwd (Path.join root dir)).linkFree h.linkFree
    have heq : top = base.below dir := by
      rw [hfree.eq_of_walk (walk_here_ok htop).1, Path.segments_join root h.relative,
        Path.clampedWalk_append, h.start_join, ← h.linkFree.eq_of_walk (walk_here_ok hroot).1,
        Path.clampedWalk_of_names h.normal]
      rfl
    rw [← heq]
    exact htop

theorem segments_ne_nil (hf : f ∈ files) : Path.segments f.path ≠ [] := by
  intro hnil
  obtain ⟨content, hfile⟩ := h.present f hf
  rw [Location.below, hnil, List.reverse_nil, List.nil_append, h.isDir] at hfile
  cases hfile

theorem dir_ne_nil (hf : f ∈ files) : dir ≠ [] := by
  rintro rfl
  exact h.outside f hf (List.suffix_append _ base)

theorem name (hf : f ∈ files) {s : Text} (hs : s ∈ Path.segments f.path) :
    IsEntry s ∧ '\x00' ∉ s := by
  obtain ⟨content, hfile⟩ := h.present f hf
  exact h.storable.name hfile (List.mem_append_left _ (List.mem_reverse.2 hs))

theorem nul_not_mem : '\x00' ∉ Path.join root dir := by
  by_cases hne : Path.join root dir = []
  · rw [hne]
    exact List.not_mem_nil
  · exact (checkPath_eq_ok_iff.1 (checkPath_of_mkdirs hne h.made)).1

theorem nul_not_mem_below (hf : f ∈ files) {above : Text} (habove : '\x00' ∉ above) :
    '\x00' ∉ Path.below above f.path := by
  intro hmem
  rcases Path.mem_below hmem with hmem | heq | ⟨s, hs, hmem⟩
  · exact habove hmem
  · revert heq
    decide
  · exact (h.name hf hs).2 hmem

/-- The path of a new place can be followed if it is short enough. -/
theorem checkPath_iff (hf : f ∈ files) :
    checkPath (Path.below (Path.join root dir) f.path) = .ok () ↔
      (Path.below (Path.join root dir) f.path).byteWidth < maxPath := by
  rw [checkPath_eq_ok_iff]
  exact ⟨fun hcheck => hcheck.2.2, fun hshort =>
    ⟨h.nul_not_mem_below hf h.nul_not_mem, Path.below_ne_nil (h.segments_ne_nil hf) _, hshort⟩⟩

/-- The path of the old place is no longer than that of the new one. -/
theorem shorter (hf : f ∈ files)
    (hcheck : checkPath (Path.below (Path.join root dir) f.path) = .ok ()) :
    checkPath (Path.below root f.path) = .ok () := by
  have hnul : '\x00' ∉ root := fun hmem => h.nul_not_mem (Path.mem_join_left h.relative hmem)
  have hle := Path.byteWidth_below_le (h.segments_ne_nil hf) h.relative (h.dir_ne_nil hf) root
  exact checkPath_eq_ok_iff.2 ⟨h.nul_not_mem_below hf hnul,
    Path.below_ne_nil (h.segments_ne_nil hf) _, hle.trans_lt ((h.checkPath_iff hf).1 hcheck)⟩

theorem plan :
    Plan cwd root (Path.join root dir) base (base.below dir)
      (tree.mkdirs cwd (Path.join root dir)).tree (files.map (·.path)) := by
  have hmakes := makesDirs_mkdirs tree cwd (Path.join root dir)
  refine ⟨hmakes.wellFormed h.storable.toWellFormed, hmakes.linkFree h.linkFree, ?_,
    h.destinationWalk, ?_, ?_, ?_, ?_, ?_⟩
  · exact walk_of_keeps h.linkFree (fun loc => hmakes.keeps loc .dir) h.rootWalk h.isDir
  · exact List.forall_mem_map.2 fun f hf s hs => (h.name hf hs).1
  · refine List.forall_mem_map.2 fun f hf => ?_
    obtain ⟨content, hfile⟩ := h.present f hf
    exact ⟨content, hmakes.keeps _ _ hfile⟩
  · exact List.forall_mem_map.2 fun f hf => h.shorter hf
  · exact List.forall_mem_map.2 h.outside
  · rw [List.map_map]
    exact h.distinct

/-- Making the destination opens and closes no new place. -/
theorem isOpen_iff (hf : f ∈ files) :
    (tree.mkdirs cwd (Path.join root dir)).tree.IsOpen ((base.below dir).below f.path) ↔
      tree.IsOpen ((base.below dir).below f.path) := by
  have hmakes := makesDirs_mkdirs tree cwd (Path.join root dir)
  have hnames : (Path.segments dir).filter (· ≠ Path.here) = Path.segments dir :=
    List.filter_eq_self.2 fun s hs => decide_eq_true (h.normal s hs).1
  refine isOpen_congr (hmakes.linkFree h.linkFree) h.linkFree ⟨fun hdir => ?_, hmakes.keeps _ _⟩
    fun _ content _ => hmakes.node?_iff (by simp)
  have hwalk := h.rootWalk
  rw [← h.start_join] at hwalk
  have hsegs : (Path.segments (Path.join root dir)).filter (· ≠ Path.here) =
      (Path.segments root).filter (· ≠ Path.here) ++ Path.segments dir := by
    rw [Path.segments_join root h.relative, List.filter_append, hnames]
  rcases mkdirs_dirs h.linkFree hwalk hsegs h.normal hdir with hdir | hsuffix
  · exact hdir
  -- a new place is deeper than the destination
  · have hlength := hsuffix.length_le
    have hpos := List.length_pos_iff.2 (h.segments_ne_nil hf)
    simp only [Location.below, List.length_append, List.length_reverse] at hlength
    omega

theorem moves_iff (hf : f ∈ files) :
    Moves (tree.mkdirs cwd (Path.join root dir)).tree (Path.join root dir) (base.below dir) f.path ↔
      (Path.below (Path.join root dir) f.path).byteWidth < maxPath ∧
        tree.IsOpen ((base.below dir).below f.path) :=
  and_congr (h.checkPath_iff hf) (h.isOpen_iff hf)

theorem relocate_eq :
    relocate tree cwd root files dir =
      ((moveFiles cwd root (Path.join root dir) (tree.mkdirs cwd (Path.join root dir)).tree
          (files.map (·.path))).1,
        .ok (moveFiles cwd root (Path.join root dir) (tree.mkdirs cwd (Path.join root dir)).tree
          (files.map (·.path))).2) := by
  unfold relocate
  dsimp only
  rw [h.made]

theorem nodup_paths : (files.map (·.path)).Nodup := by
  have hdistinct := h.plan.distinct
  exact hdistinct.of_map

variable {after : Tree} {r : Relocation}
  (hrelocate : relocate tree cwd root files dir = (after, .ok r))
include hrelocate

/-- Which records are moved, and the tree after the relocation. -/
theorem outcome :
    (∀ path, path ∈ r.moved ↔ path ∈ files.map (·.path) ∧
      Moves (tree.mkdirs cwd (Path.join root dir)).tree (Path.join root dir)
        (base.below dir) path) ∧
      Along (Path.join root dir) base (base.below dir)
        (tree.mkdirs cwd (Path.join root dir)).tree after (files.map (·.path)) := by
  have hplan := h.plan
  have hstart : Along (Path.join root dir) base (base.below dir)
      (tree.mkdirs cwd (Path.join root dir)).tree (tree.mkdirs cwd (Path.join root dir)).tree [] :=
    .refl hplan.wellFormed hplan.linkFree
  obtain ⟨hmoved, halong⟩ :=
    hstart.run hplan (List.nil_subset _) (List.Subset.refl _) (by simp) h.nodup_paths
  rw [h.relocate_eq] at hrelocate
  cases hrelocate
  rw [List.append_nil] at halong
  refine ⟨fun path => ⟨fun hmem => ?_, fun hmem => (hmoved path hmem.1).2 hmem.2⟩, halong⟩
  have hpath := moveFiles_complete.2.1.subset hmem
  exact ⟨hpath, (hmoved path hpath).1 hmem⟩

theorem settles (hf : f ∈ files) :
    r.Settles tree after (base.below f.path) ((base.below dir).below f.path) f.path := by
  obtain ⟨hmoved, halong⟩ := h.outcome hrelocate
  obtain ⟨content, hfile⟩ := h.present f hf
  have hpath : f.path ∈ files.map (·.path) := List.mem_map_of_mem hf
  have hmade : (tree.mkdirs cwd (Path.join root dir)).tree.node? (base.below f.path) =
      tree.node? (base.below f.path) :=
    ((makesDirs_mkdirs tree cwd _).keeps _ _ hfile).trans hfile.symm
  have hiff := (hmoved f.path).trans (and_iff_right hpath)
  have hdestination : r.destination = Path.join root dir := by
    rw [h.relocate_eq] at hrelocate
    cases hrelocate
    exact destination_moveFiles
  refine ⟨?_, fun hmem => ?_, fun hmem => ?_⟩
  · rw [hiff, hdestination, h.moves_iff hf]
  · rw [← hmade]
    exact halong.of_moves h.plan hpath (hiff.1 hmem)
  · have hcomplete := (relocate_complete (congrArg Prod.snd hrelocate)).1
    refine ⟨(List.mem_append.1 (hcomplete.mem_iff.2 hpath)).resolve_left hmem, ?_⟩
    rw [← hmade]
    exact halong.of_not_moves h.plan hpath (mt hiff.2 hmem)

theorem order_free {others : List SourceFile} (hperm : others.Perm files) :
    ∃ after' r', relocate tree cwd root others dir = (after', .ok r') ∧ r'.moved.Perm r.moved ∧
      ∀ loc content, after'.node? loc = some (.file content) ↔
        after.node? loc = some (.file content) := by
  have hothers := h.perm hperm
  have hmem : ∀ path, path ∈ others.map (·.path) ↔ path ∈ files.map (·.path) :=
    fun path => (hperm.map _).mem_iff
  obtain ⟨hmoved, halong⟩ := h.outcome hrelocate
  obtain ⟨hmoved', halong'⟩ := hothers.outcome hothers.relocate_eq
  refine ⟨_, _, hothers.relocate_eq, ?_, fun loc content => ?_⟩
  · refine (List.perm_ext_iff_of_nodup ?_ ?_).2 fun path => ?_
    · exact hothers.nodup_paths.sublist moveFiles_complete.2.1
    · exact h.nodup_paths.sublist (relocate_complete (congrArg Prod.snd hrelocate)).2.1
    · rw [hmoved', hmoved, hmem]
  · rw [(halong'.congr hmem).files, halong.files]

end

end Relocatable

/-- **Files are moved aside independently of each other** in a tree without links. A record is moved
if and only if, before the relocation, there is nothing at its new place and no file on the way
there, and the path of the new place is short enough. Then its file is at the new place and no
longer at the old one; otherwise the file stays. In every order the same records are moved, and the
same files are at the same places afterwards. -/
theorem relocate_independent (tree : Tree) (cwd : Location) (root : Text) (base : Location)
    (files : List SourceFile) (dir : Text) (h : Relocatable tree cwd root base files dir) :
    ∃ after r, relocate tree cwd root files dir = (after, .ok r) ∧
      (∀ f ∈ files,
        r.Settles tree after (base.below f.path) ((base.below dir).below f.path) f.path) ∧
      ∀ others : List SourceFile, others.Perm files →
        ∃ after' r', relocate tree cwd root others dir = (after', .ok r') ∧ r'.moved.Perm r.moved ∧
          ∀ loc content, after'.node? loc = some (.file content) ↔
            after.node? loc = some (.file content) :=
  ⟨_, _, h.relocate_eq, fun _ hf => h.settles h.relocate_eq hf,
    fun _ hperm => h.order_free h.relocate_eq hperm⟩

/-! ### Places that are taken, blocked and open -/

/-- A project at the root of a tree with a directory for unused files, where one new place is taken
and another has a file on the way. -/
def crowdedTree : Tree where
  entries := [
    (["src".toList], .dir),
    (["a.ts".toList, "src".toList], .file (Text.bytes ['a'])),
    (["b.ts".toList, "src".toList], .file (Text.bytes ['b'])),
    (["lib".toList], .dir),
    (["c.ts".toList, "lib".toList], .file (Text.bytes ['c'])),
    (["aside".toList], .dir),
    (["lib".toList, "aside".toList], .file []),
    (["src".toList, "aside".toList], .dir),
    (["b.ts".toList, "src".toList, "aside".toList], .file [])]

def crowdedFiles : List SourceFile :=
  ["/lib/c.ts", "/src/b.ts", "/src/a.ts"].map fun path => .ofPath path.toList

theorem relocatable_crowdedTree :
    Relocatable crowdedTree [] ['/'] [] crowdedFiles "aside".toList where
  storable := by decide
  linkFree := linkFree_of_entries (by simp [crowdedTree])
  leads := by
    unfold LeadsTo
    cbv
  isDir := rfl
  relative := by decide
  normal := by decide
  made := by cbv
  present := by
    intro f hf
    simp only [crowdedFiles, List.map_cons, List.map_nil, List.mem_cons, List.not_mem_nil,
      or_false] at hf
    rcases hf with rfl | rfl | rfl <;> exact ⟨_, rfl⟩
  outside := by decide
  distinct := by decide

theorem relocate_independent_crowdedTree :
    Relocatable crowdedTree [] ['/'] [] crowdedFiles "aside".toList ∧
      (relocate crowdedTree [] ['/'] crowdedFiles "aside".toList).2 = .ok {
        destination := "/aside".toList
        moved := ["/src/a.ts".toList]
        failed := [
          ("/lib/c.ts".toList, .refused .alreadyExists),
          ("/src/b.ts".toList, .occupied "/aside/src/b.ts".toList)] } ∧
      ∃ after r, relocate crowdedTree [] ['/'] crowdedFiles "aside".toList = (after, .ok r) ∧
        (∀ f ∈ crowdedFiles, r.Settles crowdedTree after (Location.below [] f.path)
          ((Location.below [] "aside".toList).below f.path) f.path) ∧
        ∀ others : List SourceFile, others.Perm crowdedFiles →
          ∃ after' r', relocate crowdedTree [] ['/'] others "aside".toList = (after', .ok r') ∧
            r'.moved.Perm r.moved ∧
            ∀ loc content, after'.node? loc = some (.file content) ↔
              after.node? loc = some (.file content) :=
  ⟨relocatable_crowdedTree, by cbv,
    relocate_independent crowdedTree [] ['/'] [] crowdedFiles "aside".toList
      relocatable_crowdedTree⟩

/-! ### Open places that are refused -/

/-- The root of a tree, told by many slashes. -/
def longRoot : Text := List.replicate 4089 '/'

/-- A project at the root of a tree with a directory for unused files. -/
def bareTree : Tree where
  entries := [(["a.ts".toList], .file []), (["aside".toList], .dir)]

theorem segments_replicate_slash (n : Nat) : Path.segments (List.replicate n '/') = [] := by
  induction n with
  | zero => rfl
  | succ n ih => rw [List.replicate_succ, Path.segments_cons, ih]

theorem byteWidth_replicate_slash (n : Nat) : Text.byteWidth (List.replicate n '/') = n := by
  induction n with
  | zero => rfl
  | succ n ih =>
    have hslash : '/'.utf8Size = 1 := rfl
    rw [List.replicate_succ, Text.byteWidth, ih, hslash, Nat.add_comm]

theorem checkPath_longRoot : checkPath (Path.join longRoot "aside".toList) = .ok () := by
  have hrelative : Path.isAbsolute "aside".toList = false := by decide
  have hwidth := Path.byteWidth_join_le longRoot hrelative
  have haside : Text.byteWidth "aside".toList = 5 := by decide
  have hmax : maxPath = 4096 := rfl
  rw [longRoot, byteWidth_replicate_slash, haside, ← longRoot] at hwidth
  refine checkPath_eq_ok_iff.2 ⟨fun hmem => ?_, fun hnil => ?_, by omega⟩
  · rcases Path.mem_join hrelative hmem with hmem | heq | hmem
    · exact absurd (List.eq_of_mem_replicate hmem) (by decide)
    · exact absurd heq (by decide)
    · exact absurd hmem (by decide)
  · have hsegments := Path.segments_join longRoot hrelative
    rw [hnil, longRoot, segments_replicate_slash] at hsegments
    revert hsegments
    decide

theorem relocatable_longRoot :
    Relocatable bareTree [] longRoot [] [.ofPath "/a.ts".toList] "aside".toList where
  storable := by decide
  linkFree := linkFree_of_entries (by simp [bareTree])
  leads := by
    unfold LeadsTo start steps
    rw [ite_self, longRoot, segments_replicate_slash]
    split <;> cbv
  isDir := rfl
  relative := by decide
  normal := by decide
  made := by
    have hleads : bareTree.walk true maxLinks (start [] (Path.join longRoot "aside".toList))
        (Path.segments (Path.join longRoot "aside".toList) ++ [Path.here]) =
          .ok ["aside".toList] := by
      rw [start, ite_self, Path.segments_join longRoot (by decide), longRoot,
        segments_replicate_slash]
      cbv
    exact mkdirs_ok_of_leads (fun _ => checkPath_longRoot) hleads
  present := by
    intro f hf
    rw [List.mem_singleton.1 hf]
    exact ⟨_, rfl⟩
  outside := by decide
  distinct := by decide

theorem isOpen_bareTree :
    bareTree.IsOpen ((Location.below [] "aside".toList).below "/a.ts".toList) := by
  refine ⟨rfl, fun dir content hsuffix hfile => ?_⟩
  have hdir : bareTree.node? ["aside".toList] = some .dir := rfl
  rw [relocatable_longRoot.storable.isDir_of_suffix hdir hsuffix] at hfile
  cases hfile

theorem width_longRoot :
    maxPath ≤ (Path.below (Path.join longRoot "aside".toList) "/a.ts".toList).byteWidth := by
  have hdestination := Path.le_byteWidth_join longRoot relocatable_longRoot.relative
  have hplace := Path.le_byteWidth_join (Path.join longRoot "aside".toList)
    (Path.isAbsolute_joined_segments "/a.ts".toList)
  rw [← Path.below_eq_join (by decide)] at hplace
  rw [longRoot, byteWidth_replicate_slash, ← longRoot] at hdestination
  have haside : Text.byteWidth "aside".toList = 5 := by decide
  have hname : (Path.joined (Path.segments "/a.ts".toList)).byteWidth = 4 := by decide
  have hmax : maxPath = 4096 := rfl
  omega

/-- A record can fail although its new place is open before: the path of the place is too long to be
followed, or another record of the same file comes first, and then the order of the records
matters. -/
theorem relocate_refuses_open :
    bareTree.IsOpen ((Location.below [] "aside".toList).below "/a.ts".toList) ∧
      (Relocatable bareTree [] longRoot [] [.ofPath "/a.ts".toList] "aside".toList ∧
        ∃ after r, relocate bareTree [] longRoot [.ofPath "/a.ts".toList] "aside".toList =
            (after, .ok r) ∧
          "/a.ts".toList ∉ r.moved) ∧
      (relocate bareTree [] ['/'] [.ofPath "/a.ts".toList, .ofPath "a.ts".toList]
          "aside".toList).2 = .ok {
        destination := "/aside".toList
        moved := ["/a.ts".toList]
        failed := [("a.ts".toList, .occupied "/aside/a.ts".toList)] } ∧
      (relocate bareTree [] ['/'] [.ofPath "a.ts".toList, .ofPath "/a.ts".toList]
          "aside".toList).2 = .ok {
        destination := "/aside".toList
        moved := ["a.ts".toList]
        failed := [("/a.ts".toList, .occupied "/aside/a.ts".toList)] } := by
  have h := relocatable_longRoot
  refine ⟨isOpen_bareTree, ⟨h, _, _, h.relocate_eq, fun hmem => ?_⟩, by cbv, by cbv⟩
  have hmoves := (((h.outcome h.relocate_eq).1 _).1 hmem).2
  exact Nat.not_lt.2 width_longRoot ((h.moves_iff (List.mem_singleton_self _)).1 hmoves).1

end Unreached

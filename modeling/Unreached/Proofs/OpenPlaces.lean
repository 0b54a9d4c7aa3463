import Unreached.Proofs.LinkFree
import Unreached.Proofs.Relocation

/-!
# Open places

In a tree without links a file is moved aside if and only if its new place is open.

* `Tree.IsOpen` : the places where there is nothing, and no file on the way;
* `Ready` : what a record finds on its turn;
* `Ready.moveFile_of_open`, `Ready.moveFile_of_not_open` : the record is moved if its new place is
  open and has a path that is short enough, and otherwise it fails;
* `Turned`, `Ready.turned` : what the turn does to the files and directories of the tree.
-/

namespace Unreached

set_option autoImplicit false

open Unreached.Tree

/-- The place of a path below the place of a directory. -/
def Location.below (top : Location) (path : Text) : Location := (Path.segments path).reverse ++ top

namespace Tree

variable {tree : Tree} {loc source target : Location} {content : Bytes}

/-- Whether there is nothing at a place, and no file on the way to it. -/
structure IsOpen (tree : Tree) (loc : Location) : Prop where
  free : tree.node? loc = none
  way : ∀ dir content, dir <:+ loc.tail → tree.node? dir ≠ some (.file content)

theorem IsOpen.ne_nil (h : tree.IsOpen loc) : loc ≠ [] := by
  rintro rfl
  cases h.free

theorem isOpen_congr {tree' : Tree} (hfree : tree.LinkFree) (hfree' : tree'.LinkFree)
    (hdir : tree.node? loc = some .dir ↔ tree'.node? loc = some .dir)
    (hfiles : ∀ dir content, dir <:+ loc →
      (tree.node? dir = some (.file content) ↔ tree'.node? dir = some (.file content))) :
    tree.IsOpen loc ↔ tree'.IsOpen loc := by
  have hnone : tree.node? loc = none ↔ tree'.node? loc = none := by
    rw [hfree.node?_eq_none_iff, hfree'.node?_eq_none_iff]
    simp only [ne_eq, hdir, hfiles loc _ (List.suffix_refl _)]
  constructor
  · intro hopen
    exact ⟨hnone.1 hopen.free, fun dir content hsuffix hfile =>
      hopen.way dir content hsuffix
        ((hfiles dir content (hsuffix.trans (List.tail_suffix _))).2 hfile)⟩
  · intro hopen
    exact ⟨hnone.2 hopen.free, fun dir content hsuffix hfile =>
      hopen.way dir content hsuffix
        ((hfiles dir content (hsuffix.trans (List.tail_suffix _))).1 hfile)⟩

theorem moved_self (source target : Location) : moved source target source = target := by
  simpa using @moved_append source target []

namespace Clears

variable {node : Node} (h : tree.Clears source target) (hwf : tree.WellFormed)
  (hsource : tree.node? source = some (.file content))
include h hwf hsource

theorem of_mem_moveTo_file (hmem : (loc, node) ∈ (tree.moveTo source target).entries) :
    loc = target ∧ node = .file content ∨ loc ≠ source ∧ tree.node? loc = some node := by
  obtain ⟨old, hold, -, hmoved⟩ := of_mem_moveTo hmem
  dsimp only at hold hmoved
  have hnode := hwf.node?_of_mem hold
  by_cases hwithin : old.within source = true
  -- beneath a file there is nothing
  · have heq : old = source := hwf.bare (by simp [hsource]) old node hnode hwithin
    rw [heq, moved_self] at hmoved
    rw [heq, hsource] at hnode
    cases hnode
    exact .inl ⟨hmoved.symm, rfl⟩
  · rw [moved_of_outside (Bool.eq_false_iff.2 hwithin)] at hmoved
    rw [← hmoved]
    refine .inr ⟨?_, hnode⟩
    rintro rfl
    exact hwithin (Location.within_self _)

/-- What is where after a file has been moved to a free place. -/
theorem node?_moveTo_iff (hfree : tree.node? target = none) :
    (tree.moveTo source target).node? loc = some node ↔
      loc = target ∧ node = .file content ∨ loc ≠ source ∧ tree.node? loc = some node := by
  constructor
  · intro hnode
    by_cases hloc : loc = []
    · rw [hloc] at hnode ⊢
      exact .inr ⟨h.source_ne.symm, hnode⟩
    · exact h.of_mem_moveTo_file hwf hsource (mem_of_node? hloc hnode)
  · rintro (⟨rfl, rfl⟩ | ⟨hne, hnode⟩)
    · have hsourceNe : source ≠ loc := by
        rintro rfl
        rw [hsource] at hfree
        cases hfree
      have hmoved := h.node?_moved hwf hsource h.source_ne hsourceNe
      rw [moved_self] at hmoved
      exact hmoved h.target_ne
    · refine h.node?_of_outside hwf hnode (Bool.eq_false_iff.2 fun hwithin => ?_) ?_
      · exact hne (hwf.bare (by simp [hsource]) loc node hnode hwithin)
      · rintro rfl
        rw [hnode] at hfree
        cases hfree

end Clears

theorem renameAt_file (hsource : tree.node? source = some (.file content))
    (hfree : tree.node? target = none) :
    tree.renameAt false source target = .ok (tree.moveTo source target) := by
  have hne : source ≠ target := by
    rintro rfl
    rw [hsource] at hfree
    cases hfree
  rw [renameAt, hsource, hfree]
  simp [hne]

end Tree

/-! ## One turn -/

/-- What a record finds on its turn: the root at `base` with its file, the destination at `top`, and
no links. -/
structure Ready (cwd : Location) (root destination : Text) (base top : Location) (tree : Tree)
    (path : Text) : Prop where
  wellFormed : tree.WellFormed
  linkFree : tree.LinkFree
  rootWalk : tree.walk true maxLinks (start cwd root) (Path.segments root ++ [Path.here]) = .ok base
  destinationWalk : tree.walk true maxLinks (start cwd destination)
    (Path.segments destination ++ [Path.here]) = .ok top
  entries : ∀ s ∈ Path.segments path, IsEntry s
  file : ∃ content, tree.node? (base.below path) = some (.file content)
  shorter : checkPath (Path.below destination path) = .ok () →
    checkPath (Path.below root path) = .ok ()

section
variable {cwd base top : Location} {root destination path : Text} {tree : Tree}

theorem Location.below_concat {names : List Text} {name : Text}
    (hsegs : Path.segments path = names ++ [name]) (top : Location) :
    top.below path = name :: (names.reverse ++ top) := by
  rw [Location.below, hsegs, List.reverse_concat, List.cons_append]

namespace Ready

theorem exists_concat (h : Ready cwd root destination base top tree path) :
    ∃ names name, Path.segments path = names ++ [name] := by
  refine (List.eq_nil_or_concat' (Path.segments path)).resolve_left fun hnil => ?_
  obtain ⟨content, hfile⟩ := h.file
  rw [Location.below, hnil, List.reverse_nil, List.nil_append, (walk_here_ok h.rootWalk).2] at hfile
  cases hfile

theorem exists?_eq_false (h : Ready cwd root destination base top tree path)
    (hnone : tree.node? (top.below path) = none) :
    tree.exists? cwd (Path.below destination path) = false := by
  obtain ⟨names, name, hsegs⟩ := h.exists_concat
  have hne : Path.segments path ≠ [] := by simp [hsegs]
  have hentries : ∀ s ∈ Path.segments path, s ≠ Path.here ∧ s ≠ Path.up :=
    fun s hs => ⟨(h.entries s hs).ne_here, (h.entries s hs).ne_up⟩
  unfold exists?
  cases hlocate : tree.locate cwd (Path.below destination path) with
  | error fault =>
    unfold stat
    rw [hlocate]
    rfl
  | ok loc =>
    have hloc : loc = top.below path := by
      have hwalk : tree.walk true maxLinks _ _ = _ := leadsTo_of_locate hlocate
      rw [h.linkFree.eq_of_walk hwalk, steps, Path.not_endsWith_slash_below hne, start_below,
        Path.segments_below, if_neg Bool.false_ne_true, List.append_nil, Path.clampedWalk_append,
        ← h.linkFree.eq_of_walk (walk_here_ok h.destinationWalk).1,
        Path.clampedWalk_of_names hentries]
      rfl
    rw [stat_eq hlocate, hloc, hnone]
    rfl

theorem exists?_eq_true (h : Ready cwd root destination base top tree path)
    (hcheck : checkPath (Path.below destination path) = .ok ()) {node : Node}
    (hnode : tree.node? (top.below path) = some node) :
    tree.exists? cwd (Path.below destination path) = true := by
  obtain ⟨names, name, hsegs⟩ := h.exists_concat
  have hne : Path.segments path ≠ [] := by simp [hsegs]
  rw [Location.below_concat hsegs] at hnode
  have hdir := (h.wellFormed.parent_isDir hnode).2
  refine exists?_of_node hcheck (segments_below_concat hsegs) (isEntry_of_concat hsegs h.entries).2
    (walk_below hsegs h.entries h.wellFormed h.destinationWalk hdir) hnode ?_ ?_
  · rintro target rfl
    exact h.linkFree _ target hnode
  · simp [Path.not_endsWith_slash_below hne]

section
variable {made : Outcome} (h : Ready cwd root destination base top tree path)
  (hmade : tree.mkParents cwd (Path.below destination path) = made)
include h hmade

/-- The directories made for a record are on the way to its new place. -/
theorem onWay {loc : Location} (hdir : made.tree.node? loc = some .dir) :
    tree.node? loc = some .dir ∨ loc <:+ (top.below path).tail := by
  obtain ⟨names, name, hsegs⟩ := h.exists_concat
  rw [Location.below_concat hsegs, List.tail_cons]
  exact mkParents_dirs hsegs h.entries h.linkFree h.destinationWalk (hmade ▸ hdir)

omit h in
theorem makesDirs : MakesDirs tree made.tree := hmade ▸ makesDirs_mkParents tree cwd _

theorem free_of_open (hopen : tree.IsOpen (top.below path)) :
    made.tree.node? (top.below path) = none := by
  have hnone := hopen.free
  cases hnode : made.tree.node? (top.below path) with
  | none => rfl
  | some node =>
    by_cases hdir : node = .dir
    · rw [hdir] at hnode
      rcases h.onWay hmade hnode with hdir | hsuffix
      · rw [hdir] at hnone
        cases hnone
      · have hlength := hsuffix.length_le
        have hpos := List.length_pos_iff.2 hopen.ne_nil
        rw [List.length_tail] at hlength
        omega
    · rw [((makesDirs hmade).node?_iff hdir).1 hnode] at hnone
      cases hnone

/-- The directory that a record's new place is in. -/
theorem parent_made (hfault : made.fault? = none) :
    made.tree.node? (top.below path).tail = some .dir := by
  obtain ⟨names, name, hsegs⟩ := h.exists_concat
  subst hmade
  rw [Location.below_concat hsegs, List.tail_cons]
  exact mkParents_leads hsegs h.entries h.linkFree h.destinationWalk h.wellFormed hfault

theorem clears (hopen : tree.IsOpen (top.below path)) (hfault : made.fault? = none) :
    made.tree.Clears (base.below path) (top.below path) := by
  obtain ⟨names, name, hsegs⟩ := h.exists_concat
  obtain ⟨content, hfile⟩ := h.file
  have hmakes := makesDirs hmade
  have hwf := hmakes.wellFormed h.wellFormed
  have hfile := hmakes.keeps _ _ hfile
  have hnone := h.free_of_open hmade hopen
  have hplaced : made.tree.Placed (top.below path) := by
    have hmem : name ∈ Path.segments path :=
      hsegs ▸ List.mem_append_right _ (List.mem_singleton_self name)
    have hname := (isEntry_of_concat hsegs h.entries).2
    have hparent := h.parent_made hmade hfault
    rw [Location.below_concat hsegs] at hparent ⊢
    exact ⟨⟨Path.isSegment_of_mem_segments hmem, hname.ne_here, hname.ne_up⟩, hparent⟩
  refine ⟨?_, hplaced, ?_, hwf.bare (by simp [hnone])⟩
  · rw [Location.below_concat hsegs]
    exact List.cons_ne_nil _ _
  · refine outside_of_not_dir hwf hplaced (fun heq => ?_) (by simp [hfile])
    rw [heq, hnone] at hfile
    cases hfile

theorem rename_eq (hcheck : checkPath (Path.below destination path) = .ok ())
    (hopen : tree.IsOpen (top.below path)) (hfault : made.fault? = none) :
    made.tree.rename cwd (Path.below root path) (Path.below destination path) =
      .ok (made.tree.moveTo (base.below path) (top.below path)) := by
  obtain ⟨names, name, hsegs⟩ := h.exists_concat
  obtain ⟨content, hfile⟩ := h.file
  have hne : Path.segments path ≠ [] := by simp [hsegs]
  have hmakes := makesDirs hmade
  have hwf := hmakes.wellFormed h.wellFormed
  have hkeeps : ∀ loc, tree.node? loc = some .dir → made.tree.node? loc = some .dir :=
    fun loc => hmakes.keeps loc .dir
  have hroot := walk_of_keeps h.linkFree hkeeps h.rootWalk (walk_here_ok h.rootWalk).2
  have hdestination :=
    walk_of_keeps h.linkFree hkeeps h.destinationWalk (walk_here_ok h.destinationWalk).2
  have hfile := hmakes.keeps _ _ hfile
  have hnone := h.free_of_open hmade hopen
  have hparent := h.parent_made hmade hfault
  rw [Location.below_concat hsegs] at hfile hnone hparent ⊢
  rw [Location.below_concat hsegs]
  unfold rename
  rw [h.shorter hcheck, hcheck,
    locateParent_below hsegs h.entries hwf hroot (h.shorter hcheck) (hwf.parent_isDir hfile).2,
    locateParent_below hsegs h.entries hwf hdestination hcheck hparent]
  change made.tree.renameAt (_ || _) _ _ = _
  rw [Path.not_endsWith_slash_below hne, Path.not_endsWith_slash_below hne]
  exact renameAt_file hfile hnone

/-- **A record is moved if its new place is open** and has a path that is short enough. -/
theorem moveFile_of_open (hcheck : checkPath (Path.below destination path) = .ok ())
    (hopen : tree.IsOpen (top.below path)) :
    made.fault? = none ∧ moveFile cwd root destination tree path =
      (made.tree.moveTo (base.below path) (top.below path), none) := by
  obtain ⟨names, name, hsegs⟩ := h.exists_concat
  have hway := hopen.way
  rw [Location.below_concat hsegs, List.tail_cons] at hway
  have hfault : made.fault? = none := by
    subst hmade
    exact mkParents_ok hsegs h.entries h.linkFree h.destinationWalk h.wellFormed hcheck hway
  refine ⟨hfault, ?_⟩
  unfold moveFile
  dsimp only
  rw [h.exists?_eq_false hopen.free, if_neg Bool.false_ne_true, hmade, hfault]
  dsimp only
  rw [h.rename_eq hmade hcheck hopen hfault]

/-- **A record is not moved otherwise**, and at most directories are made. -/
theorem moveFile_of_not_open
    (hnot : ¬(checkPath (Path.below destination path) = .ok () ∧ tree.IsOpen (top.below path))) :
    ∃ failure, moveFile cwd root destination tree path = (tree, some failure) ∨
      moveFile cwd root destination tree path = (made.tree, some failure) := by
  subst hmade
  rcases moveFile_cases cwd root destination tree path with
    ⟨-, heq⟩ | ⟨fault, heq⟩ | ⟨hexists, hfault, tree', hrename, -⟩
  · exact ⟨_, .inl heq⟩
  · exact ⟨_, .inr heq⟩
  · have hmakes := makesDirs_mkParents tree cwd (Path.below destination path)
    have hwf := hmakes.wellFormed h.wellFormed
    have hcheck : checkPath (Path.below destination path) = .ok () := by
      unfold rename at hrename
      obtain ⟨-, -, hrename⟩ := Except.bind_ok hrename
      obtain ⟨⟨⟩, hcheck, -⟩ := Except.bind_ok hrename
      exact hcheck
    refine absurd ⟨hcheck, ?_, ?_⟩ hnot
    · by_contra hsome
      obtain ⟨node, hnode⟩ := Option.ne_none_iff_exists'.1 hsome
      rw [h.exists?_eq_true hcheck hnode] at hexists
      cases hexists
    · intro dir content hsuffix hfile
      have hdir := hwf.isDir_of_suffix (h.parent_made rfl hfault) hsuffix
      rw [hmakes.keeps _ _ hfile] at hdir
      cases hdir

end

end Ready

/-- What a turn does to a tree. A file that is moved goes from `source` to `target`, all other files
stay, and directories are made only on the way to `target`. -/
structure Turned (tree after : Tree) (source target : Location) (Moved : Prop) : Prop where
  wellFormed : after.WellFormed
  linkFree : after.LinkFree
  files : ∀ loc content, after.node? loc = some (.file content) ↔
    Moved ∧ loc = target ∧ tree.node? source = some (.file content) ∨
      ¬(Moved ∧ loc = source) ∧ tree.node? loc = some (.file content)
  dirs : ∀ loc, tree.node? loc = some .dir → after.node? loc = some .dir
  onWay : ∀ loc, after.node? loc = some .dir → tree.node? loc = some .dir ∨ loc <:+ target.tail

theorem Turned.of_makesDirs {after : Tree} {source target : Location} {Moved : Prop}
    (hwf : tree.WellFormed) (hfree : tree.LinkFree) (hmakes : MakesDirs tree after) (hnot : ¬Moved)
    (honWay : ∀ loc, after.node? loc = some .dir →
      tree.node? loc = some .dir ∨ loc <:+ target.tail) :
    Turned tree after source target Moved where
  wellFormed := hmakes.wellFormed hwf
  linkFree := hmakes.linkFree hfree
  files loc content := by
    have hfile : Node.file content ≠ .dir := by simp
    simp [hnot, hmakes.node?_iff hfile]
  dirs loc := hmakes.keeps loc .dir
  onWay := honWay

theorem Turned.of_moveTo {made : Tree} {source target : Location} {Moved : Prop} {content : Bytes}
    (hwf : tree.WellFormed) (hfree : tree.LinkFree) (hmakes : MakesDirs tree made) (hmoved : Moved)
    (hclears : made.Clears source target) (hsource : tree.node? source = some (.file content))
    (htarget : made.node? target = none)
    (honWay : ∀ loc, made.node? loc = some .dir →
      tree.node? loc = some .dir ∨ loc <:+ target.tail) :
    Turned tree (made.moveTo source target) source target Moved := by
  have hmade := hmakes.wellFormed hwf
  have hiff : ∀ {loc node}, (made.moveTo source target).node? loc = some node ↔
      loc = target ∧ node = .file content ∨ loc ≠ source ∧ made.node? loc = some node :=
    hclears.node?_moveTo_iff hmade (hmakes.keeps _ _ hsource) htarget
  refine ⟨hclears.wellFormed hmade, fun loc text hnode => ?_, fun loc other => ?_,
    fun loc hdir => ?_, fun loc hdir => ?_⟩
  · rcases hiff.1 hnode with ⟨-, heq⟩ | ⟨-, hnode⟩
    · cases heq
    · exact hmakes.linkFree hfree loc text hnode
  · rw [hiff, hmakes.node?_iff (by simp), hsource]
    simp [hmoved, eq_comm]
  · refine hiff.2 (.inr ⟨?_, hmakes.keeps _ _ hdir⟩)
    rintro rfl
    rw [hsource] at hdir
    cases hdir
  · rcases hiff.1 hdir with ⟨-, heq⟩ | ⟨-, hdir⟩
    · cases heq
    · exact honWay loc hdir

/-- **What the turn of a record does.** -/
theorem Ready.turned (h : Ready cwd root destination base top tree path) :
    ((moveFile cwd root destination tree path).2 = none ↔
      checkPath (Path.below destination path) = .ok () ∧ tree.IsOpen (top.below path)) ∧
    Turned tree (moveFile cwd root destination tree path).1 (base.below path) (top.below path)
      (checkPath (Path.below destination path) = .ok () ∧ tree.IsOpen (top.below path)) := by
  by_cases hmoves : checkPath (Path.below destination path) = .ok () ∧ tree.IsOpen (top.below path)
  · obtain ⟨hcheck, hopen⟩ := hmoves
    obtain ⟨content, hfile⟩ := h.file
    obtain ⟨hfault, heq⟩ := h.moveFile_of_open rfl hcheck hopen
    rw [heq]
    exact ⟨iff_of_true rfl ⟨hcheck, hopen⟩,
      .of_moveTo h.wellFormed h.linkFree (makesDirs rfl) ⟨hcheck, hopen⟩ (h.clears rfl hopen hfault)
      hfile (h.free_of_open rfl hopen) fun _ => h.onWay rfl⟩
  · obtain ⟨failure, heq | heq⟩ := h.moveFile_of_not_open rfl hmoves
    · rw [heq]
      exact ⟨iff_of_false (by simp) hmoves,
        .of_makesDirs h.wellFormed h.linkFree .refl hmoves fun _ => .inl⟩
    · rw [heq]
      exact ⟨iff_of_false (by simp) hmoves,
        .of_makesDirs h.wellFormed h.linkFree (makesDirs rfl) hmoves fun _ => h.onWay rfl⟩

end

end Unreached

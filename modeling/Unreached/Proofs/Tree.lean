import Mathlib.Data.List.Infix
import Mathlib.Data.List.Nodup
import Mathlib.Data.Multiset.Defs
import Mathlib.Logic.Relation
import Unreached.Proofs.Walk

/-!
# Trees and their changes

* `Tree.WellFormed` : each location is listed once and is in a directory;
* `Tree.contents` : the contents of all files;
* `Tree.MakesDirs` : what `Tree.mkdirs` does, which is to make directories in places that were free;
* `Tree.Clears`, `Tree.rename_ok` : what `Tree.rename` does, which is to move what is at one place
  to another that nothing lies beneath.

Directories made and things moved leave a tree well-formed. Directories made leave the contents as
they are, and so does what is moved unless there is a file at the new place.
-/

namespace Unreached

set_option autoImplicit false

namespace Location

variable {loc top : Location}

theorem within_iff : loc.within top = true ↔ top <:+ loc := List.isSuffixOf_iff_suffix

theorem within_self (loc : Location) : loc.within loc = true := within_iff.2 (List.suffix_refl loc)

theorem within_append (front top : Location) : (front ++ top).within top = true :=
  within_iff.2 (List.suffix_append front top)

theorem within_cons (name : Text) (h : loc.within top = true) : within (name :: loc) top = true :=
  within_iff.2 ((within_iff.1 h).trans (List.suffix_cons name loc))

theorem tail_suffix_tail (h : loc <:+ top) : loc.tail <:+ top.tail := by
  cases top with
  | nil => rw [List.suffix_nil.1 h]
  | cons name top =>
    rcases List.suffix_cons_iff.1 h with rfl | h
    · exact List.suffix_refl _
    · exact (List.tail_suffix loc).trans h

theorem outside_of_cons {name : Text} (h : within (name :: loc) top = false) :
    loc.within top = false := by
  rw [← Bool.not_eq_true]
  intro hwithin
  rw [within_cons name hwithin] at h
  cases h

end Location

/-- The content of a file. -/
def Node.content? : Node → Option Bytes
  | .file content => some content
  | _ => none

namespace Tree

open Location

variable {tree tree' : Tree} {loc dir source target : Location} {name : Text} {node : Node}
  {cwd : Location}

/-! ## Well-formed trees -/

/-- Whether a location has a name and is in a directory. -/
def Placed (tree : Tree) : Location → Prop
  | [] => False
  | name :: dir => Path.IsName name ∧ tree.node? dir = some .dir

instance (tree : Tree) : DecidablePred tree.Placed
  | [] => isFalse id
  | name :: dir => inferInstanceAs (Decidable (Path.IsName name ∧ tree.node? dir = some .dir))

/-- Whether a tree lists each location once and each one in a directory. -/
structure WellFormed (tree : Tree) : Prop where
  distinct : (tree.entries.map Prod.fst).Nodup
  placed : ∀ entry ∈ tree.entries, tree.Placed entry.1

instance : DecidablePred WellFormed := fun tree =>
  decidable_of_iff ((tree.entries.map Prod.fst).Nodup ∧ ∀ entry ∈ tree.entries, tree.Placed entry.1)
    ⟨fun h => ⟨h.1, h.2⟩, fun h => ⟨h.distinct, h.placed⟩⟩

theorem mem_of_node? (hne : loc ≠ []) (h : tree.node? loc = some node) :
    (loc, node) ∈ tree.entries := by
  rw [node?, if_neg hne] at h
  obtain ⟨before, after, heq, -⟩ := List.lookup_eq_some_iff.1 h
  rw [heq]
  exact List.mem_append_right _ List.mem_cons_self

theorem not_mem_of_node? (hne : loc ≠ []) (h : tree.node? loc = none) :
    ∀ entry ∈ tree.entries, entry.1 ≠ loc := by
  rw [node?, if_neg hne] at h
  intro entry hentry heq
  have hlookup := List.lookup_eq_none_iff.1 h entry hentry
  simp [heq] at hlookup

theorem node?_of_distinct (hdistinct : (tree.entries.map Prod.fst).Nodup) (hne : loc ≠ [])
    (hmem : (loc, node) ∈ tree.entries) : tree.node? loc = some node := by
  cases hnode : tree.node? loc with
  | none => exact absurd rfl (not_mem_of_node? hne hnode _ hmem)
  | some other =>
    have hother := mem_of_node? hne hnode
    have heq : (loc, node) = (loc, other) := List.inj_on_of_nodup_map hdistinct hmem hother rfl
    cases heq
    rfl

namespace WellFormed

theorem ne_nil (h : tree.WellFormed) {entry : Location × Node} (hentry : entry ∈ tree.entries) :
    entry.1 ≠ [] := by
  intro hnil
  have hplaced := h.placed entry hentry
  rw [hnil] at hplaced
  exact hplaced

theorem node?_of_mem (h : tree.WellFormed) (hmem : (loc, node) ∈ tree.entries) :
    tree.node? loc = some node :=
  node?_of_distinct h.distinct (h.ne_nil hmem) hmem

theorem parent_isDir (h : tree.WellFormed) (hnode : tree.node? (name :: dir) = some node) :
    Path.IsName name ∧ tree.node? dir = some .dir :=
  h.placed _ (mem_of_node? (List.cons_ne_nil _ _) hnode)

theorem isName_of_mem (h : tree.WellFormed) (hnode : tree.node? loc = some node) :
    ∀ name ∈ loc, Path.IsName name := by
  induction loc generalizing node with
  | nil => simp
  | cons name dir ih =>
    obtain ⟨hname, hdir⟩ := h.parent_isDir hnode
    exact List.forall_mem_cons.2 ⟨hname, ih hdir⟩

/-- What something lies beneath is a directory. -/
theorem isDir_of_within (h : tree.WellFormed) (hnode : tree.node? loc = some node)
    (hwithin : loc.within target = true) (hne : loc ≠ target) : tree.node? target = some .dir := by
  induction loc generalizing node with
  | nil => exact absurd (List.suffix_nil.1 (within_iff.1 hwithin)).symm hne
  | cons name dir ih =>
    have hdir := (h.parent_isDir hnode).2
    rcases List.suffix_cons_iff.1 (within_iff.1 hwithin) with heq | hsuffix
    · exact absurd heq.symm hne
    · by_cases heq : dir = target
      · exact heq ▸ hdir
      · exact ih hdir (within_iff.2 hsuffix) heq

theorem isDir_of_suffix (h : tree.WellFormed) (hnode : tree.node? loc = some .dir)
    (hdir : dir <:+ loc) : tree.node? dir = some .dir := by
  by_cases heq : loc = dir
  · exact heq ▸ hnode
  · exact h.isDir_of_within hnode (within_iff.2 hdir) heq

theorem isDir_of_suffix_tail (h : tree.WellFormed) (hnode : tree.node? loc = some node)
    (hdir : dir <:+ loc.tail) : tree.node? dir = some .dir := by
  cases loc with
  | nil =>
    rw [List.suffix_nil.1 hdir]
    rfl
  | cons name parent => exact h.isDir_of_suffix (h.parent_isDir hnode).2 hdir

theorem bare (h : tree.WellFormed) (htarget : tree.node? target ≠ some .dir) :
    ∀ loc node, tree.node? loc = some node → loc.within target = true → loc = target := by
  intro loc node hnode hwithin
  by_contra hne
  exact htarget (h.isDir_of_within hnode hwithin hne)

end WellFormed

/-- The contents of all files, each as often as there are files with it. -/
def contents (tree : Tree) : Multiset Bytes :=
  ↑(tree.entries.filterMap fun entry => entry.2.content?)

/-! ## Making directories -/

/-- Whether a tree comes from another by making a directory in a free place. -/
inductive MakesDir (tree : Tree) : Tree → Prop
  | make {name : Text} {dir : Location} (hname : Path.IsName name)
      (hdir : tree.node? dir = some .dir) (hfree : tree.node? (name :: dir) = none) :
      MakesDir tree (tree.put (name :: dir) .dir)

/-- Whether a tree comes from another by making directories in free places, one after the other. -/
abbrev MakesDirs : Tree → Tree → Prop := Relation.ReflTransGen MakesDir

theorem entries_put (hne : loc ≠ []) (hfree : tree.node? loc = none) :
    (tree.put loc node).entries = (loc, node) :: tree.entries := by
  have hfilter : tree.entries.filter (·.1 ≠ loc) = tree.entries := by
    rw [List.filter_eq_self]
    intro entry hentry
    simpa using not_mem_of_node? hne hfree entry hentry
  rw [put, hfilter]

theorem node?_put (hne : loc ≠ []) (hfree : tree.node? loc = none) {other : Location} :
    (tree.put loc node).node? other = if other = loc then some node else tree.node? other := by
  rw [node?, entries_put hne hfree, node?]
  by_cases hother : other = loc
  · rw [if_pos hother, hother, if_neg hne, List.lookup_cons_self]
  · have hbeq : (other == loc) = false := beq_false_of_ne hother
    rw [if_neg hother, List.lookup_cons, hbeq]

namespace MakesDir

theorem node?_iff (h : MakesDir tree tree') (hnode : node ≠ .dir) :
    tree'.node? loc = some node ↔ tree.node? loc = some node := by
  obtain ⟨hname, hdir, hfree⟩ := h
  rw [node?_put (List.cons_ne_nil _ _) hfree]
  split
  · next heq =>
    rw [heq, hfree]
    constructor
    · intro h
      cases h
      exact absurd rfl hnode
    · intro h
      cases h
  · exact Iff.rfl

theorem keeps (h : MakesDir tree tree') : tree.Extends tree' := by
  obtain ⟨hname, hdir, hfree⟩ := h
  intro loc node hnode
  rw [node?_put (List.cons_ne_nil _ _) hfree, if_neg]
  · exact hnode
  · intro heq
    rw [heq, hfree] at hnode
    cases hnode

theorem contents_eq (h : MakesDir tree tree') : tree'.contents = tree.contents := by
  obtain ⟨hname, hdir, hfree⟩ := h
  rw [contents, entries_put (List.cons_ne_nil _ _) hfree]
  rfl

theorem wellFormed (h : MakesDir tree tree') (hwf : tree.WellFormed) : tree'.WellFormed := by
  have hplaced : ∀ loc, tree.Placed loc → tree'.Placed loc := by
    intro loc hloc
    cases loc with
    | nil => exact hloc
    | cons name dir => exact ⟨hloc.1, h.keeps _ _ hloc.2⟩
  obtain @⟨name, dir, hname, hdir, hfree⟩ := h
  have hentries : (tree.put (name :: dir) .dir).entries = (name :: dir, .dir) :: tree.entries :=
    entries_put (List.cons_ne_nil _ _) hfree
  constructor
  · rw [hentries, List.map_cons, List.nodup_cons]
    refine ⟨?_, hwf.distinct⟩
    intro hmem
    obtain ⟨entry, hentry, heq⟩ := List.mem_map.1 hmem
    exact not_mem_of_node? (List.cons_ne_nil _ _) hfree entry hentry heq
  · rw [hentries, List.forall_mem_cons]
    exact ⟨hplaced _ ⟨hname, hdir⟩, fun entry hentry => hplaced _ (hwf.placed entry hentry)⟩

end MakesDir

namespace MakesDirs

theorem node?_iff (h : MakesDirs tree tree') (hnode : node ≠ .dir) :
    tree'.node? loc = some node ↔ tree.node? loc = some node := by
  induction h with
  | refl => exact Iff.rfl
  | tail _ hstep ih => exact (hstep.node?_iff hnode).trans ih

theorem keeps (h : MakesDirs tree tree') : tree.Extends tree' := by
  induction h with
  | refl => exact .refl _
  | tail _ hstep ih => exact fun loc node hnode => hstep.keeps loc node (ih loc node hnode)

theorem contents_eq (h : MakesDirs tree tree') : tree'.contents = tree.contents := by
  induction h with
  | refl => rfl
  | tail _ hstep ih => exact hstep.contents_eq.trans ih

theorem wellFormed (h : MakesDirs tree tree') (hwf : tree.WellFormed) : tree'.WellFormed := by
  induction h with
  | refl => exact hwf
  | tail _ hstep ih => exact hstep.wellFormed ih

end MakesDirs

theorem isName_of_locateParent {path : Text}
    (h : tree.locateParent cwd path = .ok (dir, some name)) :
    Path.IsName name ∧ tree.node? dir = some .dir := by
  obtain ⟨segs, -, hsegs, hentry, hwalk⟩ := locateParent_ok h
  have hmem : name ∈ Path.segments path :=
    hsegs ▸ List.mem_append_right _ (List.mem_singleton_self name)
  exact ⟨⟨Path.isSegment_of_mem_segments hmem, hentry.ne_here, hentry.ne_up⟩,
    (walk_here_ok hwalk).2⟩

theorem mkdir_ok {path : Text} (h : tree.mkdir cwd path = .ok tree') :
    ∃ dir name, tree.locateParent cwd path = .ok (dir, some name) ∧
      tree.node? (name :: dir) = none ∧
      tree' = tree.put (name :: dir) .dir := by
  unfold mkdir at h
  obtain ⟨⟨dir, name?⟩, hparent, h⟩ := Except.bind_ok h
  cases name? with
  | none => cases h
  | some name =>
    dsimp only at h
    split at h
    · cases h
    · next hfree =>
      cases h
      exact ⟨dir, name, hparent, by simpa using hfree, rfl⟩

theorem makesDir_mkdir {path : Text} (h : tree.mkdir cwd path = .ok tree') :
    MakesDir tree tree' := by
  obtain ⟨dir, name, hparent, hfree, rfl⟩ := mkdir_ok h
  obtain ⟨hname, hdir⟩ := isName_of_locateParent hparent
  exact .make hname hdir hfree

theorem makesDirs_mkdirOrFind (tree : Tree) (cwd : Location) (path : Text) :
    MakesDirs tree (tree.mkdirOrFind cwd path).tree := by
  unfold mkdirOrFind
  split
  · next hmkdir => exact .single (makesDir_mkdir hmkdir)
  · exact .refl

theorem makesDirs_mkdirsFrom (tree : Tree) (cwd : Location) (path : Text) (ancestors : List Text) :
    MakesDirs tree (mkdirsFrom cwd tree path ancestors).tree := by
  fun_induction mkdirsFrom cwd tree path ancestors with
  | case1 => exact .refl
  | case2 _ _ _ hmkdir => exact .single (makesDir_mkdir hmkdir)
  | case3 => exact .refl
  | case4 => exact .refl
  | case5 _ _ _ _ hmkdir => exact .single (makesDir_mkdir hmkdir)
  | case6 _ _ _ _ made _ ih => exact ih
  | case7 _ _ _ _ made _ ih => exact ih.trans (makesDirs_mkdirOrFind _ _ _)
  | case8 => exact .refl

theorem makesDirs_mkdirs (tree : Tree) (cwd : Location) (path : Text) :
    MakesDirs tree (tree.mkdirs cwd path).tree :=
  makesDirs_mkdirsFrom tree cwd path _

theorem makesDirs_mkParents (tree : Tree) (cwd : Location) (path : Text) :
    MakesDirs tree (tree.mkParents cwd path).tree := by
  unfold mkParents
  split
  · exact makesDirs_mkdirs tree cwd _
  · exact .refl

/-! ## Moving -/

/-- Whether what is at `source` can go to `target` without anything in its way, other than what is
at `target` itself. -/
structure Clears (tree : Tree) (source target : Location) : Prop where
  source_ne : source ≠ []
  placed : tree.Placed target
  outside : target.within source = false
  bare : ∀ loc node, tree.node? loc = some node → loc.within target = true → loc = target

theorem moved_append (front : Location) :
    moved source target (front ++ source) = front ++ target := by
  rw [moved, if_pos (within_append front source)]
  simp

theorem moved_of_outside (h : loc.within source = false) : moved source target loc = loc := by
  rw [moved, h]
  rfl

theorem mem_moveTo (hmem : (loc, node) ∈ tree.entries) (hne : loc ≠ target) :
    (moved source target loc, node) ∈ (tree.moveTo source target).entries :=
  List.mem_map.2 ⟨(loc, node), List.mem_filter.2 ⟨hmem, by simpa using hne⟩, rfl⟩

theorem of_mem_moveTo {entry : Location × Node} (h : entry ∈ (tree.moveTo source target).entries) :
    ∃ loc, (loc, entry.2) ∈ tree.entries ∧ loc ≠ target ∧ moved source target loc = entry.1 := by
  obtain ⟨⟨loc, node⟩, hmem, rfl⟩ := List.mem_map.1 h
  obtain ⟨hmem, hne⟩ := List.mem_filter.1 hmem
  exact ⟨loc, hmem, by simpa using hne, rfl⟩

namespace Clears

theorem within_moved_iff (h : tree.Clears source target) (hnode : tree.node? loc = some node)
    (hne : loc ≠ target) :
    (moved source target loc).within target = true ↔ loc.within source = true := by
  constructor
  · intro hwithin
    by_contra hout
    rw [moved_of_outside (Bool.not_eq_true _ ▸ hout)] at hwithin
    exact hne (h.bare loc node hnode hwithin)
  · intro hwithin
    obtain ⟨front, rfl⟩ := within_iff.1 hwithin
    rw [moved_append]
    exact within_append front target

theorem moved_injective (h : tree.Clears source target) {other : Location} {node' : Node}
    (hnode : tree.node? loc = some node) (hne : loc ≠ target)
    (hnode' : tree.node? other = some node') (hne' : other ≠ target)
    (heq : moved source target loc = moved source target other) : loc = other := by
  have hiff : loc.within source = true ↔ other.within source = true := by
    rw [← h.within_moved_iff hnode hne, ← h.within_moved_iff hnode' hne', heq]
  by_cases hwithin : loc.within source = true
  · obtain ⟨front, rfl⟩ := within_iff.1 hwithin
    obtain ⟨front', rfl⟩ := within_iff.1 (hiff.1 hwithin)
    rw [moved_append, moved_append] at heq
    rw [List.append_cancel_right heq]
  · have hout := Bool.eq_false_iff.2 hwithin
    have hout' := Bool.eq_false_iff.2 (mt hiff.2 hwithin)
    rwa [moved_of_outside hout, moved_of_outside hout'] at heq

theorem distinct (h : tree.Clears source target) (hwf : tree.WellFormed) :
    ((tree.moveTo source target).entries.map Prod.fst).Nodup := by
  have hkeys : (tree.moveTo source target).entries.map Prod.fst =
      ((tree.erase target).entries.map Prod.fst).map (moved source target) := by
    simp [moveTo, Function.comp_def]
  have hmem : ∀ loc ∈ (tree.erase target).entries.map Prod.fst, loc ≠ target ∧
      ∃ node, tree.node? loc = some node := by
    intro loc hloc
    obtain ⟨⟨loc, node⟩, hentry, rfl⟩ := List.mem_map.1 hloc
    obtain ⟨hentry, hne⟩ := List.mem_filter.1 hentry
    exact ⟨by simpa using hne, node, hwf.node?_of_mem hentry⟩
  rw [hkeys]
  apply List.Nodup.map_on
  · intro loc hloc other hother heq
    obtain ⟨hne, node, hnode⟩ := hmem loc hloc
    obtain ⟨hne', node', hnode'⟩ := hmem other hother
    exact h.moved_injective hnode hne hnode' hne' heq
  · exact hwf.distinct.sublist (List.filter_sublist.map Prod.fst)

theorem node?_moved (h : tree.Clears source target) (hwf : tree.WellFormed)
    (hnode : tree.node? loc = some node) (hloc : loc ≠ []) (hne : loc ≠ target)
    (hmoved : moved source target loc ≠ []) :
    (tree.moveTo source target).node? (moved source target loc) = some node :=
  node?_of_distinct (h.distinct hwf) hmoved (mem_moveTo (mem_of_node? hloc hnode) hne)

/-- What is neither beneath the old place nor at the new one stays. -/
theorem node?_of_outside (h : tree.Clears source target) (hwf : tree.WellFormed)
    (hnode : tree.node? loc = some node) (hout : loc.within source = false) (hne : loc ≠ target) :
    (tree.moveTo source target).node? loc = some node := by
  by_cases hloc : loc = []
  · subst hloc
    exact hnode
  · have hmoved : moved source target loc = loc := moved_of_outside hout
    have hresult := h.node?_moved hwf hnode hloc hne (hmoved.symm ▸ hloc)
    rwa [hmoved] at hresult

theorem target_ne (h : tree.Clears source target) : target ≠ [] := by
  intro hnil
  have hplaced := h.placed
  rw [hnil] at hplaced
  exact hplaced

theorem placed_target (h : tree.Clears source target) (hwf : tree.WellFormed) :
    (tree.moveTo source target).Placed target := by
  have hplaced := h.placed
  cases target with
  | nil => exact hplaced
  | cons name dir =>
    exact ⟨hplaced.1, h.node?_of_outside hwf hplaced.2 (outside_of_cons h.outside)
      (List.cons_ne_self _ _).symm⟩

theorem placed_of_outside (h : tree.Clears source target) (hwf : tree.WellFormed)
    (hnode : tree.node? loc = some node) (hloc : tree.Placed loc) (hout : loc.within source = false)
    (hne : loc ≠ target) : (tree.moveTo source target).Placed loc := by
  cases loc with
  | nil => exact hloc
  | cons name dir =>
    refine ⟨hloc.1, h.node?_of_outside hwf hloc.2 (outside_of_cons hout) ?_⟩
    -- a directory at the target would hold this, and nothing lies beneath the target
    rintro rfl
    exact hne (h.bare _ _ hnode (within_cons name (within_self dir)))

theorem placed_moved (h : tree.Clears source target) (hwf : tree.WellFormed)
    (hloc : tree.Placed loc) (hwithin : loc.within source = true) :
    (tree.moveTo source target).Placed (moved source target loc) := by
  obtain ⟨front, rfl⟩ := within_iff.1 hwithin
  rw [moved_append]
  cases front with
  | nil => exact h.placed_target hwf
  | cons name front =>
    have hdir : tree.node? (front ++ source) = some .dir := hloc.2
    have hne : front ++ source ≠ target := by
      intro heq
      have houtside := h.outside
      rw [← heq, within_append] at houtside
      cases houtside
    have hnode := h.node?_moved hwf hdir (List.append_ne_nil_of_right_ne_nil _ h.source_ne) hne
    rw [moved_append] at hnode
    exact ⟨hloc.1, hnode (List.append_ne_nil_of_right_ne_nil _ h.target_ne)⟩

theorem wellFormed (h : tree.Clears source target) (hwf : tree.WellFormed) :
    (tree.moveTo source target).WellFormed := by
  refine ⟨h.distinct hwf, ?_⟩
  intro entry hentry
  obtain ⟨loc, hmem, hne, hmoved⟩ := of_mem_moveTo hentry
  have hloc : tree.Placed loc := hwf.placed _ hmem
  have hnode := hwf.node?_of_mem hmem
  rw [← hmoved]
  by_cases hwithin : loc.within source = true
  · exact h.placed_moved hwf hloc hwithin
  · have hout := Bool.eq_false_iff.2 hwithin
    rw [moved_of_outside hout]
    exact h.placed_of_outside hwf hnode hloc hout hne

end Clears

theorem contents_moveTo (hwf : tree.WellFormed)
    (hfile : ∀ content, tree.node? target ≠ some (.file content)) :
    (tree.moveTo source target).contents = tree.contents := by
  have hmap : (tree.moveTo source target).contents =
      ↑((tree.erase target).entries.filterMap fun entry => entry.2.content?) := by
    rw [contents, moveTo, List.filterMap_map]
    rfl
  rw [hmap, erase, List.filterMap_filter, contents]
  refine congrArg _ (List.filterMap_congr ?_)
  intro entry hentry
  split
  · rfl
  · next hne =>
    have htarget : entry.1 = target := by simpa using hne
    have hnode : tree.node? target = some entry.2 := htarget ▸ hwf.node?_of_mem hentry
    cases hcontent : entry.2 with
    | dir => rfl
    | link text => rfl
    | file content =>
      rw [hcontent] at hnode
      exact absurd hnode (hfile content)

/-- The place of a path, through the links on the way but not through one at its end. -/
def place? (tree : Tree) (cwd : Location) (path : Text) : Option Location :=
  match tree.locateParent cwd path with
  | .ok (dir, some name) => some (name :: dir)
  | _ => none

theorem place?_eq {path : Text} (h : tree.locateParent cwd path = .ok (dir, some name)) :
    tree.place? cwd path = some (name :: dir) := by
  rw [place?, h]

theorem of_place? {path : Text} (h : tree.place? cwd path = some loc) :
    ∃ dir name, loc = name :: dir ∧ tree.locateParent cwd path = .ok (dir, some name) := by
  unfold place? at h
  split at h
  · next dir name hparent =>
    cases h
    exact ⟨dir, name, rfl, hparent⟩
  · cases h

/-! ## Renaming -/

theorem bare_of_not_any (htarget : target ≠ [])
    (h : ¬(tree.entries.any fun (loc, _) => loc.within target && loc ≠ target) = true) :
    ∀ loc node, tree.node? loc = some node → loc.within target = true → loc = target := by
  intro loc node hnode hwithin
  have hloc : loc ≠ [] := by
    rintro rfl
    exact htarget (List.suffix_nil.1 (within_iff.1 hwithin))
  by_contra hne
  refine h (List.any_eq_true.2 ⟨(loc, node), mem_of_node? hloc hnode, ?_⟩)
  simp [hwithin, hne]

theorem outside_of_not_dir (hwf : tree.WellFormed) (hplaced : tree.Placed target)
    (hne : source ≠ target) (hsource : tree.node? source ≠ some .dir) :
    target.within source = false := by
  cases target with
  | nil => exact absurd hplaced id
  | cons name dir =>
    rw [← Bool.not_eq_true]
    intro hwithin
    rcases List.suffix_cons_iff.1 (within_iff.1 hwithin) with heq | hsuffix
    · exact hne heq
    · by_cases hdir : dir = source
      · exact hsource (hdir ▸ hplaced.2)
      · exact hsource (hwf.isDir_of_within hplaced.2 (within_iff.2 hsuffix) hdir)

section
variable {slash : Bool} (hwf : tree.WellFormed) (hsource : source ≠ [])
  (hplaced : tree.Placed target)
include hwf hsource hplaced

theorem renameAt_dir (hdir : tree.node? source = some .dir)
    (h : tree.renameAt slash source target = .ok tree') :
    tree' = tree ∨ tree' = tree.moveTo source target ∧ tree.Clears source target ∧
      ∀ content, tree.node? target ≠ some (.file content) := by
  have htarget : target ≠ [] := by
    rintro rfl
    exact hplaced
  rw [renameAt, hdir] at h
  dsimp only at h
  split at h
  · cases h
    exact .inl rfl
  · split at h
    · cases h
    · next hout =>
      have houtside := Bool.eq_false_iff.2 hout
      cases hreplaced : tree.node? target with
      | none =>
        rw [hreplaced] at h
        cases h
        refine .inr ⟨rfl, ⟨hsource, hplaced, houtside, hwf.bare ?_⟩, ?_⟩
        · simp [hreplaced]
        · simp
      | some node =>
        rw [hreplaced] at h
        cases node with
        | file content => cases h
        | link text => cases h
        | dir =>
          dsimp only at h
          split at h
          · cases h
          · next hempty =>
            cases h
            refine .inr ⟨rfl, ⟨hsource, hplaced, houtside, bare_of_not_any htarget hempty⟩, ?_⟩
            simp

theorem renameAt_of_not_dir (hnode : tree.node? source = some node) (hdir : node ≠ .dir)
    (h : tree.renameAt slash source target = .ok tree') :
    tree' = tree ∨ tree' = tree.moveTo source target ∧ tree.Clears source target ∧
      slash = false := by
  have hsourceDir : tree.node? source ≠ some .dir := by simp [hnode, hdir]
  unfold renameAt at h
  split at h
  · cases h
  · next hisDir => exact absurd hisDir hsourceDir
  · split at h
    · cases h
    · next hslash =>
      split at h
      · cases h
      · next hreplaced =>
        cases h
        split
        · exact .inl rfl
        · next hne =>
          have houtside := outside_of_not_dir hwf hplaced hne hsourceDir
          exact .inr ⟨rfl, ⟨hsource, hplaced, houtside, hwf.bare hreplaced⟩,
            Bool.eq_false_iff.2 hslash⟩

theorem renameAt_ok (h : tree.renameAt slash source target = .ok tree') :
    tree' = tree ∨ tree' = tree.moveTo source target ∧ tree.Clears source target ∧
      ∀ content, tree.node? target = some (.file content) → slash = false := by
  cases hnode : tree.node? source with
  | none =>
    rw [renameAt, hnode] at h
    cases h
  | some node =>
    by_cases hdir : node = .dir
    · rw [hdir] at hnode
      rcases renameAt_dir hwf hsource hplaced hnode h with hsame | ⟨hmoved, hclears, hfree⟩
      · exact .inl hsame
      · exact .inr ⟨hmoved, hclears, fun content hfile => absurd hfile (hfree content)⟩
    · rcases renameAt_of_not_dir hwf hsource hplaced hnode hdir h with hsame |
        ⟨hmoved, hclears, hslash⟩
      · exact .inl hsame
      · exact .inr ⟨hmoved, hclears, fun _ _ => hslash⟩

end

/-- A rename that succeeds moves what is at the one place to the other, unless they are the same. -/
theorem rename_ok {source target : Text} (hwf : tree.WellFormed)
    (h : tree.rename cwd source target = .ok tree') :
    ∃ old new, tree.place? cwd source = some old ∧ tree.place? cwd target = some new ∧
      (tree' = tree ∨ tree' = tree.moveTo old new ∧ tree.Clears old new ∧
        ∀ content, tree.node? new = some (.file content) → target.endsWith ['/'] = false) := by
  unfold rename at h
  obtain ⟨-, -, h⟩ := Except.bind_ok h
  obtain ⟨-, -, h⟩ := Except.bind_ok h
  obtain ⟨⟨oldDir, oldName?⟩, hold, h⟩ := Except.bind_ok h
  obtain ⟨⟨newDir, newName?⟩, hnew, h⟩ := Except.bind_ok h
  cases oldName? with
  | none => cases h
  | some oldName =>
    cases newName? with
    | none => cases h
    | some newName =>
      have hplaced : tree.Placed (newName :: newDir) := isName_of_locateParent hnew
      refine ⟨oldName :: oldDir, newName :: newDir, place?_eq hold, place?_eq hnew, ?_⟩
      rcases renameAt_ok hwf (List.cons_ne_nil _ _) hplaced h with heq | ⟨heq, hclears, hslash⟩
      · exact .inl heq
      · exact .inr
          ⟨heq, hclears, fun content hfile => (Bool.or_eq_false_iff.1 (hslash content hfile)).2⟩

end Tree

end Unreached

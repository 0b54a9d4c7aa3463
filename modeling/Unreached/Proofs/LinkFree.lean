import Unreached.Proofs.Parents
import Unreached.Proofs.PathsBelow
import Unreached.Proofs.Specifiers

/-!
# Trees without links

In a tree without links a path leads to the place that its text tells.

* `Tree.LinkFree.eq_of_walk` : a walk that succeeds ends at its lexical end;
* `Tree.walk_of_keeps` : a directory is reached as long as no directory goes away;
* `Tree.mkdirs_dirs` : making the directories of a path makes none but on the way to it;
* `Tree.mkdirs_ok`, `Tree.mkdirs_leads` : where there is no file on the way the directories are
  made, and afterwards the path leads to a directory.
-/

namespace Unreached

set_option autoImplicit false

open Unreached.Path

theorem Path.clampedWalk_filter (stack segs : List Text) :
    clampedWalk stack (segs.filter (· ≠ here)) = clampedWalk stack segs := by
  fun_induction clampedWalk stack segs with
  | case1 => rfl
  | case2 stack segs ih => simpa using ih
  | case3 stack segs _ ih =>
    have hfilter : (up :: segs).filter (· ≠ here) = up :: segs.filter (· ≠ here) := rfl
    rw [hfilter, clampedWalk, if_neg (by decide), if_pos rfl, ih]
  | case4 stack s segs hhere hup ih =>
    have hfilter : (s :: segs).filter (· ≠ here) = s :: segs.filter (· ≠ here) := by simp [hhere]
    rw [hfilter, clampedWalk, if_neg hhere, if_neg hup, ih]

namespace Tree

variable {tree tree' : Tree} {cwd loc top dir : Location} {links : Nat} {segs pre names : List Text}
  {path name : Text} {fault : Fault}

/-- Whether a tree has no links. -/
def LinkFree (tree : Tree) : Prop := ∀ loc target, tree.node? loc ≠ some (.link target)

theorem linkFree_of_entries (h : ∀ entry ∈ tree.entries, ∀ target, entry.2 ≠ .link target) :
    tree.LinkFree := by
  intro loc target hnode
  by_cases hne : loc = []
  · rw [hne] at hnode
    cases hnode
  · exact h _ (mem_of_node? hne hnode) target rfl

theorem MakesDirs.linkFree (h : MakesDirs tree tree') (hfree : tree.LinkFree) : tree'.LinkFree :=
  fun loc target hnode => hfree loc target ((h.node?_iff (by simp)).1 hnode)

theorem LinkFree.node?_eq_none_iff (hfree : tree.LinkFree) :
    tree.node? loc = none ↔
      tree.node? loc ≠ some .dir ∧ ∀ content, tree.node? loc ≠ some (.file content) := by
  cases hnode : tree.node? loc with
  | none => simp
  | some node =>
    cases node with
    | dir => simp
    | file content => simp
    | link target => exact absurd hnode (hfree loc target)

/-! ## Walks -/

/-- A walk that succeeds ends at its lexical end. -/
theorem LinkFree.eq_of_walk (hfree : tree.LinkFree) (h : tree.walk true links loc segs = .ok top) :
    top = clampedWalk loc segs := by
  fun_induction Tree.walk tree true links loc segs with
  | case1 =>
    cases h
    rfl
  | case2 => cases h
  | case3 links loc segs _ ih => rw [ih h, clampedWalk, if_pos rfl]
  | case4 links loc segs _ _ ih => rw [ih h, clampedWalk, if_neg (by decide), if_pos rfl]
  | case5 => cases h
  | case6 => cases h
  | case7 _ _ _ _ _ _ _ _ target hnode _ => exact absurd hnode (hfree _ target)
  | case8 => cases h
  | case9 _ _ _ _ _ _ _ target hnode => exact absurd hnode (hfree _ target)
  | case10 links loc s segs _ hhere hup _ _ _ _ ih =>
    rw [ih h, clampedWalk, if_neg hhere, if_neg hup]

/-- A directory is reached as long as no directory goes away. -/
theorem walk_of_keeps (hfree : tree.LinkFree)
    (hkeeps : ∀ loc, tree.node? loc = some .dir → tree'.node? loc = some .dir)
    (h : tree.walk true links loc segs = .ok top) (hdir : tree.node? top = some .dir) :
    tree'.walk true links loc segs = .ok top := by
  fun_induction Tree.walk tree true links loc segs with
  | case1 =>
    cases h
    exact walk_nil
  | case2 => cases h
  | case3 links loc segs hloc ih => rw [walk_here (hkeeps _ (not_not.1 hloc)), ih h]
  | case4 links loc segs hloc _ ih => rw [walk_up (hkeeps _ (not_not.1 hloc)), ih h]
  | case5 => cases h
  | case6 => cases h
  | case7 _ _ _ _ _ _ _ _ target hnode _ => exact absurd hnode (hfree _ target)
  | case8 => cases h
  | case9 _ _ _ _ _ _ _ target hnode => exact absurd hnode (hfree _ target)
  | case10 links loc s segs hloc hhere hup hs node hlink hnode ih =>
    -- what is walked through, and the end, are directories
    have hnext : tree.node? (s :: loc) = some .dir := by
      by_contra hnot
      cases segs with
      | nil =>
        rw [walk_nil] at h
        cases h
        exact hnot hdir
      | cons t segs =>
        rw [walk_not_dir hnot (List.cons_ne_nil _ _)] at h
        cases h
    rw [walk_enter (hkeeps _ (not_not.1 hloc)) ⟨hhere, hup, Nat.not_lt.1 hs⟩ (hkeeps _ hnext)
      (by simp), ih h]

/-- Where there is no file on the way, names lead to a directory or to nothing. -/
theorem walk_names_cases (hfree : tree.LinkFree) (hdir : tree.node? top = some .dir)
    (hnames : ∀ name ∈ names, IsEntry name)
    (hopen : ∀ loc content, loc <:+ names.reverse ++ top → tree.node? loc ≠ some (.file content)) :
    tree.walk true links top (names ++ [here]) = .ok (names.reverse ++ top) ∨
      tree.walk true links top (names ++ [here]) = .error .notFound := by
  induction names generalizing top with
  | nil =>
    left
    rw [List.nil_append, walk_here hdir, walk_nil]
    rfl
  | cons name names ih =>
    obtain ⟨hname, hnames⟩ := List.forall_mem_cons.1 hnames
    rw [List.reverse_cons, List.append_assoc, List.singleton_append] at hopen ⊢
    cases hnode : tree.node? (name :: top) with
    | none => exact .inr (walk_missing hdir hname hnode)
    | some node =>
      cases node with
      | dir =>
        rw [List.cons_append, walk_enter hdir hname hnode (by simp)]
        exact ih hnode hnames hopen
      | file content => exact absurd hnode (hopen _ content (List.suffix_append _ _))
      | link target => exact absurd hnode (hfree _ target)

/-! ## Questions about one path -/

theorem locateParent_eq (hcheck : checkPath path = .ok ()) (hsegs : segments path = segs ++ [name])
    (hname : IsEntry name) :
    tree.locateParent cwd path =
      (tree.walk true maxLinks (start cwd path) (segs ++ [here])).map fun dir =>
        (dir, some name) := by
  unfold locateParent
  rw [hcheck, hsegs]
  change (tree.walk true maxLinks (start cwd path) ((segs ++ [name]).dropLast ++ [here]) >>= _) = _
  rw [List.dropLast_concat, List.getLast?_concat]
  cases tree.walk true maxLinks (start cwd path) (segs ++ [here]) with
  | error fault => rfl
  | ok dir =>
    change (if _ then _ else _) = _
    have hspecial : (decide (name = here) || decide (name = up)) = false := by
      simp [hname.ne_here, hname.ne_up]
    rw [hspecial, if_neg Bool.false_ne_true, if_neg (Nat.not_lt.2 hname.short)]
    rfl

theorem isDir_of_walk (hcheck : checkPath path = .ok ())
    (hwalk : tree.walk true maxLinks (start cwd path) (segments path ++ [here]) = .ok dir) :
    tree.isDir cwd path = true := by
  obtain ⟨hsegs, hdir⟩ := walk_here_ok hwalk
  have hlocate : tree.locate cwd path = .ok dir := by
    unfold locate steps
    rw [hcheck]
    change tree.walk true maxLinks (start cwd path) _ = _
    split
    · exact hwalk
    · rw [List.append_nil, hsegs]
  unfold isDir
  rw [stat_eq hlocate, hdir]
  rfl

theorem mkdir_eq (hcheck : checkPath path = .ok ()) (hsegs : segments path = segs ++ [name])
    (hname : IsEntry name)
    (hwalk : tree.walk true maxLinks (start cwd path) (segs ++ [here]) = .ok dir) :
    tree.mkdir cwd path =
      if (tree.node? (name :: dir)).isSome then .error .alreadyExists
      else .ok (tree.put (name :: dir) .dir) := by
  unfold mkdir
  rw [locateParent_eq hcheck hsegs hname, hwalk]
  rfl

theorem mkdir_error (hcheck : checkPath path = .ok ()) (hsegs : segments path = segs ++ [name])
    (hname : IsEntry name)
    (hwalk : tree.walk true maxLinks (start cwd path) (segs ++ [here]) = .error fault) :
    tree.mkdir cwd path = .error fault := by
  unfold mkdir
  rw [locateParent_eq hcheck hsegs hname, hwalk]
  rfl

/-- In a directory that is there, a directory can be made or is found, if its place is free of
files. -/
theorem mkdir_or_isDir (hfree : tree.LinkFree) (hcheck : checkPath path = .ok ())
    (hsegs : segments path = segs ++ [name]) (hname : IsEntry name)
    (hwalk : tree.walk true maxLinks (start cwd path) (segs ++ [here]) = .ok dir)
    (hopen : ∀ content, tree.node? (name :: dir) ≠ some (.file content)) :
    (∃ made, tree.mkdir cwd path = .ok made) ∨
      tree.mkdir cwd path = .error .alreadyExists ∧ tree.isDir cwd path = true := by
  obtain ⟨hsegsWalk, hdir⟩ := walk_here_ok hwalk
  rw [mkdir_eq hcheck hsegs hname hwalk]
  cases hnode : tree.node? (name :: dir) with
  | none => exact .inl ⟨_, rfl⟩
  | some node =>
    cases node with
    | file content => exact absurd hnode (hopen content)
    | link target => exact absurd hnode (hfree _ target)
    | dir =>
      obtain ⟨left, hleft⟩ := walk_append hsegsWalk
      have hfound : tree.walk true maxLinks (start cwd path) (segments path ++ [here]) =
          .ok (name :: dir) := by
        rw [hsegs, List.append_assoc, hleft tree (.refl tree), List.singleton_append,
          walk_enter hdir hname hnode (by simp), walk_here hnode, walk_nil]
      exact .inr ⟨rfl, isDir_of_walk hcheck hfound⟩

theorem mkdir_of_leads (hcheck : checkPath path = .ok ())
    (hwalk : tree.walk true maxLinks (start cwd path) (segments path ++ [here]) = .ok dir) :
    tree.mkdir cwd path = .error .alreadyExists := by
  obtain ⟨hsegsWalk, -⟩ := walk_here_ok hwalk
  rcases List.eq_nil_or_concat' (segments path) with hnil | ⟨segs, name, hsegs⟩
  · rw [hnil, List.nil_append] at hwalk
    unfold mkdir locateParent
    rw [hcheck, hnil]
    change (tree.walk true maxLinks (start cwd path) [here] >>= _) >>= _ = _
    rw [hwalk]
    rfl
  · rw [hsegs] at hsegsWalk
    obtain ⟨before, left, hbefore, hdir, hlast⟩ := walk_concat_ok hsegsWalk
    have hbefore := walk_here_of_dir hbefore hdir
    by_cases hspecial : name = here ∨ name = up
    · unfold mkdir locateParent
      rw [hcheck, hsegs]
      change (tree.walk true maxLinks (start cwd path)
        ((segs ++ [name]).dropLast ++ [here]) >>= _) >>= _ = _
      rw [List.dropLast_concat, List.getLast?_concat, hbefore]
      rcases hspecial with rfl | rfl <;> rfl
    · obtain ⟨hhere, hup⟩ := not_or.1 hspecial
      have hname : IsEntry name := by
        refine ⟨hhere, hup, Nat.not_lt.1 fun hlong => ?_⟩
        rw [walk_too_long hdir hhere hup hlong] at hlast
        cases hlast
      rw [mkdir_eq hcheck hsegs hname hbefore, if_pos]
      rw [Option.isSome_iff_ne_none]
      intro hnone
      rw [walk_missing hdir hname hnone] at hlast
      cases hlast

/-! ## The ways in which directories are made -/

section
variable {ancestors : List Text} (hne : path ≠ [])
include hne

theorem mkdirsFrom_made (hmkdir : tree.mkdir cwd path = .ok tree') :
    mkdirsFrom cwd tree path ancestors = ⟨tree', none⟩ := by
  cases ancestors with
  | nil => rw [mkdirsFrom, if_neg (by simpa using hne), hmkdir]
  | cons parent ancestors => rw [mkdirsFrom, hmkdir]

theorem mkdirsFrom_refused (hmkdir : tree.mkdir cwd path = .error fault)
    (hfault : fault ≠ .notFound) :
    mkdirsFrom cwd tree path ancestors =
      ⟨tree, if tree.isDir cwd path then none else some fault⟩ := by
  cases ancestors with
  | nil =>
    rw [mkdirsFrom, if_neg (by simpa using hne), hmkdir]
    cases fault <;> first | rfl | exact absurd rfl hfault
  | cons parent ancestors =>
    rw [mkdirsFrom, hmkdir]
    cases fault <;> first | rfl | exact absurd rfl hfault

end

/-! ## The directories that are made -/

theorem mkdir_dirs (hfree : tree.LinkFree) (hmkdir : tree.mkdir cwd path = .ok tree')
    (h : tree'.node? loc = some .dir) :
    tree.node? loc = some .dir ∨ loc = clampedWalk (start cwd path) (segments path) := by
  obtain ⟨dir, name, hparent, hnone, rfl⟩ := mkdir_ok hmkdir
  obtain ⟨segs, -, hsegs, hname, hwalk⟩ := locateParent_ok hparent
  rw [node?_put (List.cons_ne_nil _ _) hnone] at h
  split at h
  · next heq =>
    right
    rw [heq, hsegs, clampedWalk_append, ← hfree.eq_of_walk (walk_here_ok hwalk).1, clampedWalk,
      if_neg hname.ne_here, if_neg hname.ne_up, clampedWalk]
  · exact .inl h

theorem mkdirOrFind_dirs (hfree : tree.LinkFree)
    (h : (tree.mkdirOrFind cwd path).tree.node? loc = some .dir) :
    tree.node? loc = some .dir ∨ loc = clampedWalk (start cwd path) (segments path) := by
  rcases mkdirOrFind_cases tree cwd path with ⟨made, hmkdir, heq⟩ | ⟨heq, -⟩
  · rw [heq] at h
    exact mkdir_dirs hfree hmkdir h
  · rw [heq] at h
    exact .inl h

theorem mkdirsFrom_dirs {ancestors : List Text} (hfree : tree.LinkFree)
    (h : (mkdirsFrom cwd tree path ancestors).tree.node? loc = some .dir) :
    tree.node? loc = some .dir ∨
      ∃ p ∈ path :: ancestors, loc = clampedWalk (start cwd p) (segments p) := by
  fun_induction mkdirsFrom cwd tree path ancestors with
  | case1 => exact .inl h
  | case2 path _ made hmkdir =>
    exact (mkdir_dirs hfree hmkdir h).imp_right fun heq => ⟨path, List.mem_cons_self, heq⟩
  | case3 => exact .inl h
  | case4 => exact .inl h
  | case5 path _ _ made hmkdir =>
    exact (mkdir_dirs hfree hmkdir h).imp_right fun heq => ⟨path, List.mem_cons_self, heq⟩
  | case6 path parent ancestors _ made _ ih =>
    rcases ih h with h | ⟨p, hp, heq⟩
    · exact .inl h
    · exact .inr ⟨p, List.mem_cons_of_mem _ hp, heq⟩
  | case7 path parent ancestors _ made _ ih =>
    have hmade : made.tree.LinkFree :=
      (makesDirs_mkdirsFrom tree cwd parent ancestors).linkFree hfree
    rcases mkdirOrFind_dirs hmade h with h | heq
    · rcases ih h with h | ⟨p, hp, heq⟩
      · exact .inl h
      · exact .inr ⟨p, List.mem_cons_of_mem _ hp, heq⟩
    · exact .inr ⟨path, List.mem_cons_self, heq⟩
  | case8 => exact .inl h

/-- The ancestors of a path start as it does and have the first of its segments. -/
theorem of_mem_properAncestors {front body : List Component} (hfront : front ∈ leads)
    (hbody : ∀ c ∈ body, c.Plain) (h : path ∈ properAncestors (front ++ body).reverse) :
    isAbsolute path = decide (front = [.root]) ∧
      (segments path).filter (· ≠ here) <+: body.map Component.segment := by
  induction body using List.reverseRecOn with
  | nil =>
    simp only [leads, List.mem_cons, List.not_mem_nil, or_false] at hfront
    rcases hfront with rfl | rfl | rfl
    · cases h
    · cases h
    · rw [List.mem_singleton.1 h]
      exact ⟨rfl, List.nil_prefix⟩
  | append_singleton body c ih =>
    have hbody' : ∀ d ∈ body, d.Plain := fun d hd => hbody d (List.mem_append_left _ hd)
    have hc : c.Plain := hbody c (List.mem_append_right _ (List.mem_singleton_self c))
    rw [← List.append_assoc, List.reverse_concat, properAncestors_cons hc,
      List.reverse_reverse] at h
    have hinit : body.map Component.segment <+: (body ++ [c]).map Component.segment := by
      rw [List.map_append]
      exact List.prefix_append _ _
    rcases List.mem_cons.1 h with rfl | h
    · rw [isAbsolute_ofComponents hfront hbody', filter_segments_ofComponents hfront hbody']
      exact ⟨rfl, hinit⟩
    · exact ⟨(ih hbody' h).1, (ih hbody' h).2.trans hinit⟩

theorem of_mem_ancestors {p : Text} (cwd : Location) (h : p ∈ path :: ancestors path) :
    start cwd p = start cwd path ∧
      (segments p).filter (· ≠ here) <+: (segments path).filter (· ≠ here) := by
  rcases List.mem_cons.1 h with rfl | h
  · exact ⟨rfl, List.prefix_refl _⟩
  · unfold ancestors at h
    rw [components_eq] at h
    obtain ⟨habsolute, hinit⟩ :=
      of_mem_properAncestors (lead_mem_leads path) (fun _ => plain_of_mem_map_ofSegment) h
    rw [map_segment_ofSegment] at hinit
    refine ⟨?_, hinit⟩
    rw [start, start, habsolute]
    simp [lead_eq_root_iff]

theorem node?_of_init (hfree : tree.LinkFree)
    (hwalk : tree.walk true links loc (pre ++ [here]) = .ok top) (h : segs <+: pre) :
    tree.node? (clampedWalk loc segs) = some .dir := by
  obtain ⟨rest, rfl⟩ := h
  cases hsegs : tree.walk true links loc segs with
  | error fault =>
    rw [List.append_assoc, walk_append_error hsegs] at hwalk
    cases hwalk
  | ok dir =>
    obtain ⟨left, hleft⟩ := walk_append hsegs
    rw [← hfree.eq_of_walk hsegs]
    by_contra hnot
    rw [List.append_assoc, hleft tree (.refl tree), walk_not_dir hnot (by simp)] at hwalk
    cases hwalk

/-- **Making the directories of a path makes none but on the way to it** from a directory that is
there. -/
theorem mkdirs_dirs (hfree : tree.LinkFree)
    (hwalk : tree.walk true maxLinks (start cwd path) (pre ++ [here]) = .ok top)
    (hsegs : (segments path).filter (· ≠ here) = pre.filter (· ≠ here) ++ names)
    (hnames : ∀ name ∈ names, name ≠ here ∧ name ≠ up)
    (h : (tree.mkdirs cwd path).tree.node? loc = some .dir) :
    tree.node? loc = some .dir ∨ loc <:+ names.reverse ++ top := by
  rcases mkdirsFrom_dirs hfree h with h | ⟨p, hp, rfl⟩
  · exact .inl h
  · obtain ⟨hstart, hinit⟩ := of_mem_ancestors cwd hp
    rw [hsegs] at hinit
    rw [hstart, ← clampedWalk_filter]
    have hwalk' : tree.walk true maxLinks (start cwd path) (pre.filter (· ≠ here) ++ [here]) =
        .ok top := by
      rw [← walk_filter]
      exact hwalk
    rcases List.prefix_or_prefix_of_prefix hinit (List.prefix_append _ _) with hshort |
      ⟨down, hdown⟩
    · exact .inl (node?_of_init hfree hwalk' hshort)
    · right
      rw [← hdown] at hinit ⊢
      have hinit : down <+: names := (List.prefix_append_right_inj _).1 hinit
      rw [clampedWalk_append, ← hfree.eq_of_walk (walk_here_ok hwalk').1,
        clampedWalk_of_names fun s hs => hnames s (hinit.subset hs)]
      exact List.suffix_append_self_iff.2 (List.reverse_suffix.2 hinit)

theorem checkPath_of_mkdirs (hne : path ≠ []) (hfault : (tree.mkdirs cwd path).fault? = none) :
    checkPath path = .ok () := by
  cases hcheck : checkPath path with
  | ok => rfl
  | error fault =>
    have hmkdir : tree.mkdir cwd path = .error fault := by
      unfold mkdir locateParent
      rw [hcheck]
      rfl
    have hisDir : tree.isDir cwd path = false := by
      unfold isDir stat locate
      rw [hcheck]
      rfl
    have hmissing : fault ≠ .notFound := fun heq => checkPath_ne_notFound hne (heq ▸ hcheck)
    rw [mkdirs, mkdirsFrom_refused hne hmkdir hmissing, hisDir] at hfault
    cases hfault

theorem mkdirOrFind_leads (hwf : tree.WellFormed)
    (hfault : (tree.mkdirOrFind cwd path).fault? = none) :
    ∃ dir, (tree.mkdirOrFind cwd path).tree.walk true maxLinks (start cwd path)
      (segments path ++ [here]) =
      .ok dir := by
  rcases mkdirOrFind_cases tree cwd path with ⟨made, hmkdir, heq⟩ | ⟨heq, hisDir⟩
  · obtain ⟨dir, hwalk, -⟩ := leadsToEmpty_of_mkdir hwf hmkdir
    exact ⟨dir, heq ▸ hwalk⟩
  · rw [heq]
    exact walk_of_isDir (hisDir hfault)

/-- **After the directories of a path have been made it leads to a directory.** -/
theorem mkdirsFrom_leads {ancestors : List Text} (hwf : tree.WellFormed) (hne : path ≠ [])
    (hfault : (mkdirsFrom cwd tree path ancestors).fault? = none) :
    ∃ dir, (mkdirsFrom cwd tree path ancestors).tree.walk true maxLinks (start cwd path)
      (segments path ++ [here]) =
      .ok dir := by
  cases hmkdir : tree.mkdir cwd path with
  | ok made =>
    obtain ⟨dir, hwalk, -⟩ := leadsToEmpty_of_mkdir hwf hmkdir
    rw [mkdirsFrom_made hne hmkdir]
    exact ⟨dir, hwalk⟩
  | error fault =>
    by_cases hmissing : fault = .notFound
    · subst hmissing
      cases ancestors with
      | nil =>
        rw [mkdirsFrom, if_neg (by simpa using hne), hmkdir] at hfault
        cases hfault
      | cons parent ancestors =>
        rw [mkdirsFrom, hmkdir] at hfault ⊢
        dsimp only at hfault ⊢
        split at hfault
        · next hsome =>
          rw [hfault] at hsome
          cases hsome
        · next hnone =>
          rw [if_neg hnone]
          exact mkdirOrFind_leads ((makesDirs_mkdirsFrom tree cwd parent ancestors).wellFormed hwf)
            hfault
    · rw [mkdirsFrom_refused hne hmkdir hmissing] at hfault ⊢
      refine walk_of_isDir ?_
      by_contra hnot
      simp [hnot] at hfault

section
variable {front body : List Component}

theorem mkdirs_ok_of_leads (hcheck : path ≠ [] → checkPath path = .ok ())
    (hwalk : tree.walk true maxLinks (start cwd path) (segments path ++ [here]) = .ok dir) :
    (tree.mkdirs cwd path).fault? = none := by
  by_cases hne : path = []
  · rw [hne]
    rfl
  · rw [mkdirs, mkdirsFrom_refused hne (mkdir_of_leads (hcheck hne) hwalk) (by simp),
      isDir_of_walk (hcheck hne) hwalk]
    rfl

theorem mkdirs_ok_step {parent : Text} (hwf : tree.WellFormed) (hfree : tree.LinkFree)
    (hcheck : checkPath path = .ok ()) (hname : IsEntry name)
    (hancestors : ancestors path = parent :: ancestors parent)
    (hsegs : segments path = segments parent ++ [name]) (hstart : start cwd path = start cwd parent)
    (hfault : (tree.mkdirs cwd parent).fault? = none)
    (hparent : tree.walk true maxLinks (start cwd path) (segments parent ++ [here]) = .ok dir ∨
      tree.walk true maxLinks (start cwd path) (segments parent ++ [here]) = .error .notFound ∧
        parent ≠ [] ∧
        clampedWalk (start cwd path) (segments parent) = dir)
    (hopen : ∀ content, tree.node? (name :: dir) ≠ some (.file content)) :
    (tree.mkdirs cwd path).fault? = none := by
  have hne : path ≠ [] := (checkPath_eq_ok_iff.1 hcheck).2.1
  rcases hparent with hwalk | ⟨hwalk, hparentNe, hdir⟩
  · rcases mkdir_or_isDir hfree hcheck hsegs hname hwalk hopen with ⟨made, hmkdir⟩ |
      ⟨hmkdir, hisDir⟩
    · rw [mkdirs, mkdirsFrom_made hne hmkdir]
    · rw [mkdirs, mkdirsFrom_refused hne hmkdir (by simp), hisDir]
      rfl
  -- the parent is made first, and what is missing below it then is made or found there
  · have hmakes := makesDirs_mkdirs tree cwd parent
    obtain ⟨found, hfound⟩ := mkdirsFrom_leads hwf hparentNe hfault
    change (tree.mkdirs cwd parent).tree.walk _ _ _ _ = _ at hfound
    rw [← hstart] at hfound
    have heq : found = dir :=
      ((hmakes.linkFree hfree).eq_of_walk (walk_here_ok hfound).1).trans hdir
    rw [heq] at hfound
    have hopen' : ∀ content, (tree.mkdirs cwd parent).tree.node? (name :: dir) ≠
        some (.file content) :=
      fun content hnode => hopen content ((hmakes.node?_iff (by simp)).1 hnode)
    have hmkdirs : tree.mkdirs cwd path = (tree.mkdirs cwd parent).tree.mkdirOrFind cwd path := by
      rw [mkdirs, hancestors, mkdirsFrom, mkdir_error hcheck hsegs hname hwalk]
      change (if (tree.mkdirs cwd parent).fault?.isSome then _ else _) = _
      rw [hfault]
      rfl
    rw [hmkdirs, mkdirOrFind]
    rcases mkdir_or_isDir (hmakes.linkFree hfree) hcheck hsegs hname hfound hopen' with
      ⟨made, hmkdir⟩ | ⟨hmkdir, hisDir⟩
    · rw [hmkdir]
    · rw [hmkdir, hisDir]
      rfl

/-- **The directories of a path are made where there is no file on the way** from a directory that
is there. -/
theorem mkdirs_ok (hwf : tree.WellFormed) (hfree : tree.LinkFree) (hfront : front ∈ leads)
    (hbody : ∀ c ∈ body, c.Plain) (hnames : ∀ name ∈ names, IsName name ∧ IsEntry name)
    (hpath : path = ofComponents (front ++ (body ++ names.map .name)))
    (hcheck : path ≠ [] → checkPath path = .ok ())
    (hwalk : tree.walk true maxLinks (start cwd path) (body.map Component.segment ++ [here]) =
      .ok top)
    (hopen : ∀ loc content, loc <:+ names.reverse ++ top → tree.node? loc ≠ some (.file content)) :
    (tree.mkdirs cwd path).fault? = none := by
  induction names using List.reverseRecOn generalizing path with
  | nil =>
    rw [List.map_nil, List.append_nil] at hpath
    have hleads : tree.walk true maxLinks (start cwd path) (segments path ++ [here]) = .ok top := by
      rw [walk_filter, hpath, filter_segments_ofComponents hfront hbody, ← hpath]
      exact hwalk
    exact mkdirs_ok_of_leads hcheck hleads
  | append_singleton names name ih =>
    obtain ⟨hbefore, hname⟩ := List.forall_mem_append.1 hnames
    obtain ⟨hname, hentry⟩ := hname name (List.mem_singleton_self name)
    have hplain : ∀ c ∈ body ++ names.map .name, c.Plain := by
      intro c hc
      rcases List.mem_append.1 hc with hc | hc
      · exact hbody c hc
      · obtain ⟨other, hother, rfl⟩ := List.mem_map.1 hc
        exact (hbefore other hother).1
    have hsegment : (body ++ names.map Component.name).map Component.segment =
        body.map Component.segment ++ names := by
      simp [Function.comp_def, Component.segment]
    rw [List.map_append, List.map_singleton, ← List.append_assoc body] at hpath
    have hall : ∀ c ∈ (body ++ names.map .name) ++ [Component.name name], c.Plain :=
      List.forall_mem_append.2 ⟨hplain, List.forall_mem_singleton.2 hname⟩
    obtain ⟨hsegs, hstart⟩ := ofComponents_concat cwd hfront hall
    have hancestors := ancestors_ofComponents hfront hplain (c := .name name) hname
    have hsublist := ofComponents_sublist hfront hall
    have hfilter := filter_segments_ofComponents hfront hplain
    rw [← hpath] at hsegs hstart hancestors hsublist
    rw [hsegment] at hfilter
    have hcheck : checkPath path = .ok () := by
      refine hcheck ?_
      rintro rfl
      simp [segments] at hsegs
    have hopen' : ∀ loc content, loc <:+ names.reverse ++ top →
        tree.node? loc ≠ some (.file content) := by
      intro loc content hloc
      refine hopen loc content (hloc.trans ?_)
      rw [List.reverse_concat]
      exact List.suffix_cons _ _
    have hfault := ih hbefore rfl (checkPath_of_sublist hcheck hsublist) (hstart ▸ hwalk) hopen'
    refine @mkdirs_ok_step tree cwd (names.reverse ++ top) path name _ hwf hfree hcheck hentry
      hancestors hsegs hstart hfault ?_ ?_
    · obtain ⟨hbodyWalk, htop⟩ := walk_here_ok hwalk
      obtain ⟨left, hleft⟩ := walk_append hbodyWalk
      rw [walk_filter, ← clampedWalk_filter, hfilter, List.append_assoc, hleft tree (.refl tree),
        clampedWalk_append, ← hfree.eq_of_walk hbodyWalk,
        clampedWalk_of_names fun s hs => ⟨(hbefore s hs).2.ne_here, (hbefore s hs).2.ne_up⟩]
      rcases walk_names_cases hfree htop (fun s hs => (hbefore s hs).2) hopen' with hok | hmissing
      · exact .inl hok
      · refine .inr ⟨hmissing, fun hnil => ?_, rfl⟩
        have hnone : names = [] := by
          rw [hnil] at hfilter
          exact (List.append_eq_nil_iff.1 hfilter.symm).2
        rw [hnone, List.nil_append, walk_here htop, walk_nil] at hmissing
        cases hmissing
    · intro content
      refine hopen _ content ?_
      rw [List.reverse_concat]
      exact List.suffix_refl _

end

/-! ## The parents of a path below a directory -/

section
variable {destination : Text}

theorem start_below (cwd : Location) (destination path : Text) :
    start cwd (below destination path) = start cwd destination := by
  rw [start, start, isAbsolute_below]

theorem segments_below_concat (hsegs : segments path = names ++ [name]) :
    segments (below destination path) = (segments destination ++ names) ++ [name] := by
  rw [segments_below, hsegs, List.append_assoc]

/-- The parent of a path below a directory. -/
def parentBelow (destination path : Text) (names : List Text) : Text :=
  ofComponents (lead (below destination path) ++
    (((segments destination).filter (· ≠ here)).map Component.ofSegment ++ names.map .name))

variable (hsegs : segments path = names ++ [name]) (hentries : ∀ s ∈ segments path, IsEntry s)
include hsegs hentries

theorem isEntry_of_concat : (∀ s ∈ names, IsEntry s) ∧ IsEntry name := by
  rw [hsegs] at hentries
  exact ⟨fun s hs => hentries s (List.mem_append_left _ hs),
    hentries name (List.mem_append_right _ (List.mem_singleton_self name))⟩

theorem isName_of_concat : ∀ s ∈ names, IsName s := by
  obtain ⟨hnames, -⟩ := isEntry_of_concat hsegs hentries
  intro s hs
  have hmem : s ∈ segments path := hsegs ▸ List.mem_append_left _ hs
  exact ⟨isSegment_of_mem_segments hmem, (hnames s hs).ne_here, (hnames s hs).ne_up⟩

theorem map_ofSegment_below (destination : Text) :
    ((segments destination ++ names).filter (· ≠ here)).map Component.ofSegment =
      ((segments destination).filter (· ≠ here)).map Component.ofSegment ++ names.map .name := by
  obtain ⟨hnames, -⟩ := isEntry_of_concat hsegs hentries
  have hfilter : names.filter (· ≠ here) = names :=
    List.filter_eq_self.2 fun s hs => decide_eq_true (hnames s hs).ne_here
  have hofSegment : names.map Component.ofSegment = names.map .name := by
    refine List.map_congr_left fun s hs => ?_
    rw [Component.ofSegment, if_neg (hnames s hs).ne_here, if_neg (hnames s hs).ne_up]
  rw [List.filter_append, List.map_append, hfilter, hofSegment]

theorem plain_parentBelow (destination : Text) :
    ∀ c ∈ ((segments destination).filter (· ≠ here)).map Component.ofSegment ++ names.map .name,
      c.Plain := by
  refine List.forall_mem_append.2 ⟨fun _ => plain_of_mem_map_ofSegment, fun c hc => ?_⟩
  obtain ⟨s, hs, rfl⟩ := List.mem_map.1 hc
  exact isName_of_concat hsegs hentries s hs

theorem start_parentBelow (cwd : Location) (destination : Text) :
    start cwd (parentBelow destination path names) = start cwd destination := by
  rw [start, start, parentBelow,
    isAbsolute_ofComponents (lead_mem_leads _) (plain_parentBelow hsegs hentries _)]
  simp [lead_eq_root_iff, isAbsolute_below]

theorem filter_segments_parentBelow (destination : Text) :
    (segments (parentBelow destination path names)).filter (· ≠ here) =
      (segments destination).filter (· ≠ here) ++ names := by
  rw [parentBelow,
    filter_segments_ofComponents (lead_mem_leads _) (plain_parentBelow hsegs hentries _),
    List.map_append, map_segment_ofSegment]
  simp [Function.comp_def, Component.segment]

theorem parentBelow_sublist (destination : Text) :
    (parentBelow destination path names).Sublist (below destination path) := by
  obtain ⟨-, hname⟩ := isEntry_of_concat hsegs hentries
  have hcomponents : components (below destination path) = lead (below destination path) ++
      ((((segments destination).filter (· ≠ here)).map Component.ofSegment ++ names.map .name) ++
        [.name name]) := by
    rw [components_eq, segments_below_concat hsegs, List.filter_append, List.map_append,
      map_ofSegment_below hsegs hentries]
    simp [Component.ofSegment, hname.ne_here, hname.ne_up]
  refine .trans ?_ (ofComponents_components_sublist _)
  rw [hcomponents]
  refine ofComponents_sublist (lead_mem_leads _) fun c hc => ?_
  refine @plain_of_mem_map_ofSegment (below destination path) c ?_
  rw [segments_below_concat hsegs, List.filter_append, List.map_append,
    map_ofSegment_below hsegs hentries]
  simpa [Component.ofSegment, hname.ne_here, hname.ne_up] using hc

theorem mkParents_below (tree : Tree) (cwd : Location) (destination : Text) :
    tree.mkParents cwd (below destination path) =
      tree.mkdirs cwd (parentBelow destination path names) := by
  obtain ⟨-, hname⟩ := isEntry_of_concat hsegs hentries
  rw [mkParents, parent?_eq (segments_below_concat hsegs) hname.ne_here,
    map_ofSegment_below hsegs hentries]
  rfl

theorem walk_below (hwf : tree.WellFormed)
    (hwalk : tree.walk true maxLinks (start cwd destination) (segments destination ++ [here]) =
      .ok top)
    (hdir : tree.node? (names.reverse ++ top) = some .dir) :
    tree.walk true maxLinks (start cwd (below destination path))
      ((segments destination ++ names) ++ [here]) =
      .ok (names.reverse ++ top) := by
  obtain ⟨left, hleft⟩ := walk_append (walk_here_ok hwalk).1
  refine walk_here_of_dir ?_ hdir
  rw [start_below, hleft tree (.refl tree),
    walk_names hwf (isEntry_of_concat hsegs hentries).1 hdir (by simp)]

theorem locateParent_below (hwf : tree.WellFormed)
    (hwalk : tree.walk true maxLinks (start cwd destination) (segments destination ++ [here]) =
      .ok top)
    (hcheck : checkPath (below destination path) = .ok ())
    (hdir : tree.node? (names.reverse ++ top) = some .dir) :
    tree.locateParent cwd (below destination path) = .ok (names.reverse ++ top, some name) := by
  rw [locateParent_eq hcheck (segments_below_concat hsegs) (isEntry_of_concat hsegs hentries).2,
    walk_below hsegs hentries hwf hwalk hdir]
  rfl

variable (hfree : tree.LinkFree)
  (hwalk : tree.walk true maxLinks (start cwd destination) (segments destination ++ [here]) =
    .ok top)
include hfree hwalk

theorem mkParents_dirs
    (h : (tree.mkParents cwd (below destination path)).tree.node? loc = some .dir) :
    tree.node? loc = some .dir ∨ loc <:+ names.reverse ++ top := by
  rw [mkParents_below hsegs hentries] at h
  rw [← start_parentBelow hsegs hentries] at hwalk
  exact mkdirs_dirs hfree hwalk (filter_segments_parentBelow hsegs hentries _)
    (fun s hs => (isName_of_concat hsegs hentries s hs).2) h

theorem mkParents_ok (hwf : tree.WellFormed) (hcheck : checkPath (below destination path) = .ok ())
    (hopen : ∀ loc content, loc <:+ names.reverse ++ top → tree.node? loc ≠ some (.file content)) :
    (tree.mkParents cwd (below destination path)).fault? = none := by
  obtain ⟨hnames, -⟩ := isEntry_of_concat hsegs hentries
  rw [mkParents_below hsegs hentries]
  refine mkdirs_ok hwf hfree (lead_mem_leads (below destination path))
    (fun _ => plain_of_mem_map_ofSegment)
    (fun s hs => ⟨isName_of_concat hsegs hentries s hs, hnames s hs⟩) rfl
    (checkPath_of_sublist hcheck (parentBelow_sublist hsegs hentries destination)) ?_ hopen
  rw [start_parentBelow hsegs hentries, map_segment_ofSegment, ← walk_filter]
  exact hwalk

theorem mkParents_leads (hwf : tree.WellFormed)
    (hfault : (tree.mkParents cwd (below destination path)).fault? = none) :
    (tree.mkParents cwd (below destination path)).tree.node? (names.reverse ++ top) =
      some .dir := by
  obtain ⟨hdestination, htop⟩ := walk_here_ok hwalk
  have hmakes := makesDirs_mkParents tree cwd (below destination path)
  have hfilter := filter_segments_parentBelow hsegs hentries destination
  rw [mkParents_below hsegs hentries] at hfault hmakes ⊢
  by_cases hne : parentBelow destination path names = []
  · have hnone : names = [] := by
      rw [hne] at hfilter
      exact (List.append_eq_nil_iff.1 hfilter.symm).2
    have hplace : names.reverse ++ top = top := by simp [hnone]
    rw [hplace]
    exact hmakes.keeps _ _ htop
  · obtain ⟨dir, hdir⟩ := mkdirsFrom_leads hwf hne hfault
    obtain ⟨hdirWalk, hisDir⟩ := walk_here_ok hdir
    have heq : dir = names.reverse ++ top := by
      rw [(hmakes.linkFree hfree).eq_of_walk hdirWalk, ← clampedWalk_filter, hfilter,
        clampedWalk_append, clampedWalk_filter, start_parentBelow hsegs hentries,
        ← hfree.eq_of_walk hdestination,
        clampedWalk_of_names fun s hs => (isName_of_concat hsegs hentries s hs).2]
    exact heq ▸ hisDir

end

end Tree

end Unreached

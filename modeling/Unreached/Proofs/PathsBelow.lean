import Unreached.Proofs.Tree

/-!
# Paths below a directory

* `Path.segments_join`, `Path.segments_below` : a path read from a directory has the segments of
  both;
* `Path.below_eq_join`, `Path.byteWidth_below_le` : its text, and how long it is;
* `Path.ofComponents_components_sublist` : the components of a path make no longer path;
* `Tree.Storable` : the trees whose names a file system can hold;
* `Tree.LeadsTo` : the place that following a path leads to, whatever the length of the path. What
  lies below the place of a directory is where the path below the directory's path leads to
  (`Tree.LeadsTo.below`).
-/

namespace Unreached

set_option autoImplicit false

namespace Path

variable {dir path s : Text} {segs : List Text} {c : Char}

/-! ## Joining -/

theorem isAbsolute_of_isSegment (h : IsSegment s) : isAbsolute s = false :=
  isAbsolute_joined (List.forall_mem_singleton.2 h)

theorem isAbsolute_append (h : dir ≠ []) (path : Text) :
    isAbsolute (dir ++ path) = isAbsolute dir := by
  obtain ⟨c, t, rfl⟩ := List.exists_cons_of_ne_nil h
  simp [isAbsolute, Text.startsWith, List.isPrefixOf]

/-- What joining a relative path does. -/
theorem join_cases (dir : Text) (h : isAbsolute path = false) :
    (dir = [] ∧ join dir path = path) ∨
      (dir ≠ [] ∧ dir.endsWith ['/'] = true ∧ join dir path = dir ++ path) ∨
      (dir ≠ [] ∧ dir.endsWith ['/'] = false ∧ join dir path = dir ++ '/' :: path) := by
  unfold join
  cases dir with
  | nil => exact .inl ⟨rfl, by simp⟩
  | cons c dir =>
    right
    rw [h, List.isEmpty_cons, Bool.or_self, if_neg Bool.false_ne_true]
    cases hslash : Text.endsWith (c :: dir) ['/'] with
    | true => exact .inl ⟨List.cons_ne_nil _ _, rfl, rfl⟩
    | false => exact .inr ⟨List.cons_ne_nil _ _, rfl, rfl⟩

theorem isAbsolute_join (dir : Text) (h : isAbsolute path = false) :
    isAbsolute (join dir path) = isAbsolute dir := by
  rcases join_cases dir h with ⟨rfl, heq⟩ | ⟨hne, -, heq⟩ | ⟨hne, -, heq⟩
  · rw [heq, h]
    rfl
  · rw [heq, isAbsolute_append hne]
  · rw [heq, isAbsolute_append hne]

theorem segments_join (dir : Text) (h : isAbsolute path = false) :
    segments (join dir path) = segments dir ++ segments path := by
  rcases join_cases dir h with ⟨rfl, heq⟩ | ⟨-, hslash, heq⟩ | ⟨-, -, heq⟩
  · rw [heq]
    rfl
  · rw [heq, segments_append_of_slash (.inl hslash)]
  · rw [heq, segments_append]

theorem mem_join (h : isAbsolute path = false) (hc : c ∈ join dir path) :
    c ∈ dir ∨ c = '/' ∨ c ∈ path := by
  rcases join_cases dir h with ⟨-, heq⟩ | ⟨-, -, heq⟩ | ⟨-, -, heq⟩ <;> rw [heq] at hc
  · exact .inr (.inr hc)
  · exact (List.mem_append.1 hc).imp_right .inr
  · exact (List.mem_append.1 hc).imp_right List.mem_cons.1

theorem mem_join_left (h : isAbsolute path = false) (hc : c ∈ dir) : c ∈ join dir path := by
  rcases join_cases dir h with ⟨rfl, -⟩ | ⟨-, -, heq⟩ | ⟨-, -, heq⟩
  · cases hc
  · exact heq ▸ List.mem_append_left _ hc
  · exact heq ▸ List.mem_append_left _ hc

theorem byteWidth_join_le (dir : Text) (h : isAbsolute path = false) :
    (join dir path).byteWidth ≤ dir.byteWidth + 1 + path.byteWidth := by
  rcases join_cases dir h with ⟨-, heq⟩ | ⟨-, -, heq⟩ | ⟨-, -, heq⟩
  · rw [heq]
    omega
  · rw [heq, Text.byteWidth_append]
    omega
  · have hslash : Text.byteWidth ('/' :: path) = 1 + path.byteWidth := rfl
    rw [heq, Text.byteWidth_append, hslash]
    omega

theorem le_byteWidth_join (dir : Text) (h : isAbsolute path = false) :
    dir.byteWidth + path.byteWidth ≤ (join dir path).byteWidth := by
  rcases join_cases dir h with ⟨rfl, heq⟩ | ⟨-, -, heq⟩ | ⟨-, -, heq⟩
  · rw [heq]
    exact (Nat.zero_add _).le
  · rw [heq, Text.byteWidth_append]
  · have hslash : Text.byteWidth ('/' :: path) = 1 + path.byteWidth := rfl
    rw [heq, Text.byteWidth_append, hslash]
    omega

theorem join_append (dir rest : Text) (hs : IsSegment s) :
    join dir s ++ rest = join dir (s ++ rest) := by
  have hrelative := isAbsolute_of_isSegment hs
  have hrelative' : isAbsolute (s ++ rest) = false := (isAbsolute_append hs.1 rest).trans hrelative
  unfold join
  rw [hrelative, hrelative']
  split
  · rfl
  · split <;> simp

theorem not_endsWith_slash (hs : IsSegment s) (dir : Text) :
    (join dir s).endsWith ['/'] = false := by
  rw [← Bool.not_eq_true]
  intro hends
  obtain ⟨front, hfront⟩ := List.isSuffixOf_iff_suffix.1 hends
  obtain ⟨init, last, rfl⟩ := (List.eq_nil_or_concat' s).resolve_left hs.1
  have hlast : (join dir (init ++ [last])).getLast? = some last := by
    rcases join_cases dir (isAbsolute_of_isSegment hs) with ⟨-, heq⟩ | ⟨-, -, heq⟩ | ⟨-, -, heq⟩
    · rw [heq, List.getLast?_concat]
    · rw [heq, ← List.append_assoc, List.getLast?_concat]
    · rw [heq, ← List.cons_append, ← List.append_assoc, List.getLast?_concat]
  rw [← hfront, List.getLast?_concat] at hlast
  cases hlast
  exact hs.2 (List.mem_append_right _ (List.mem_singleton_self _))

/-! ## Segments below a directory -/

theorem isAbsolute_foldl_join (h : ∀ s ∈ segs, IsSegment s) (dir : Text) :
    isAbsolute (segs.foldl join dir) = isAbsolute dir := by
  induction segs generalizing dir with
  | nil => rfl
  | cons s segs ih =>
    obtain ⟨hs, hsegs⟩ := List.forall_mem_cons.1 h
    rw [List.foldl_cons, ih hsegs, isAbsolute_join dir (isAbsolute_of_isSegment hs)]

theorem segments_foldl_join (h : ∀ s ∈ segs, IsSegment s) (dir : Text) :
    segments (segs.foldl join dir) = segments dir ++ segs := by
  induction segs generalizing dir with
  | nil => exact (List.append_nil _).symm
  | cons s segs ih =>
    obtain ⟨hs, hsegs⟩ := List.forall_mem_cons.1 h
    rw [List.foldl_cons, ih hsegs, segments_join dir (isAbsolute_of_isSegment hs),
      segments_of_isSegment hs, List.append_assoc, List.singleton_append]

theorem foldl_join (h : ∀ s ∈ segs, IsSegment s) (hne : segs ≠ []) (dir : Text) :
    segs.foldl join dir = join dir (joined segs) := by
  induction segs generalizing dir with
  | nil => exact absurd rfl hne
  | cons s segs ih =>
    obtain ⟨hs, hsegs⟩ := List.forall_mem_cons.1 h
    cases segs with
    | nil => rfl
    | cons t segs =>
      have hrelative : isAbsolute (joined (t :: segs)) = false := isAbsolute_joined hsegs
      have hdir : join dir s ≠ [] := by
        intro hnil
        have hsegments := segments_join dir (isAbsolute_of_isSegment hs)
        rw [hnil, segments_of_isSegment hs] at hsegments
        simp [segments] at hsegments
      have hjoin : join (join dir s) (joined (t :: segs)) =
          join dir s ++ '/' :: joined (t :: segs) := by
        rcases join_cases (join dir s) hrelative with ⟨hnil, -⟩ | ⟨-, hslash, -⟩ | ⟨-, -, heq⟩
        · exact absurd hnil hdir
        · rw [not_endsWith_slash hs] at hslash
          cases hslash
        · exact heq
      rw [List.foldl_cons, ih hsegs (List.cons_ne_nil _ _), hjoin, join_append _ _ hs]
      rfl

theorem isAbsolute_below (dir path : Text) : isAbsolute (below dir path) = isAbsolute dir :=
  isAbsolute_foldl_join (fun _ => isSegment_of_mem_segments) dir

theorem segments_below (dir path : Text) :
    segments (below dir path) = segments dir ++ segments path :=
  segments_foldl_join (fun _ => isSegment_of_mem_segments) dir

/-- The path below a directory is the segments joined and read from the directory. -/
theorem below_eq_join (h : segments path ≠ []) (dir : Text) :
    below dir path = join dir (joined (segments path)) :=
  foldl_join (fun _ => isSegment_of_mem_segments) h dir

theorem isAbsolute_joined_segments (path : Text) : isAbsolute (joined (segments path)) = false :=
  isAbsolute_joined fun _ => isSegment_of_mem_segments

theorem not_endsWith_slash_below (h : segments path ≠ []) (dir : Text) :
    (below dir path).endsWith ['/'] = false := by
  obtain ⟨init, last, hsegs⟩ := (List.eq_nil_or_concat' (segments path)).resolve_left h
  have hlast : IsSegment last :=
    isSegment_of_mem_segments (hsegs ▸ List.mem_append_right _ (List.mem_singleton_self last))
  rw [below, hsegs, List.foldl_concat]
  exact not_endsWith_slash hlast _

/-- Below a deeper directory a path is no shorter. -/
theorem byteWidth_below_le {inner : Text} (h : segments path ≠ [])
    (hinner : isAbsolute inner = false) (hne : inner ≠ []) (dir : Text) :
    (below dir path).byteWidth ≤ (below (join dir inner) path).byteWidth := by
  have hrelative := isAbsolute_joined_segments path
  have hpos : 1 ≤ inner.byteWidth := by
    obtain ⟨c, t, rfl⟩ := List.exists_cons_of_ne_nil hne
    have hc := c.utf8Size_pos
    rw [Text.byteWidth]
    omega
  calc (below dir path).byteWidth
      ≤ dir.byteWidth + 1 + (joined (segments path)).byteWidth := by
        rw [below_eq_join h]
        exact byteWidth_join_le dir hrelative
    _ ≤ (join dir inner).byteWidth + (joined (segments path)).byteWidth := by
        have hle := le_byteWidth_join dir hinner
        omega
    _ ≤ (below (join dir inner) path).byteWidth := by
        rw [below_eq_join h]
        exact le_byteWidth_join _ hrelative

theorem below_ne_nil (h : segments path ≠ []) (dir : Text) : below dir path ≠ [] := by
  intro hnil
  have hsegments := segments_below dir path
  rw [hnil] at hsegments
  exact h (List.append_eq_nil_iff.1 hsegments.symm).2

theorem mem_below (hc : c ∈ below dir path) : c ∈ dir ∨ c = '/' ∨ ∃ s ∈ segments path, c ∈ s := by
  by_cases h : segments path = []
  · rw [below, h] at hc
    exact .inl hc
  · rw [below_eq_join h] at hc
    rcases mem_join (isAbsolute_joined_segments path) hc with hc | hc | hc
    · exact .inl hc
    · exact .inr (.inl hc)
    · exact .inr (mem_joined hc)

/-! ## Fewer components -/

theorem joined_eq_intercalate (segs : List Text) : joined segs = ['/'].intercalate segs := by
  fun_induction joined segs with
  | case1 => rfl
  | case2 s => simp
  | case3 s segs hne ih =>
    obtain ⟨t, segs, rfl⟩ := List.exists_cons_of_ne_nil (fun h => hne h)
    rw [ih, List.intercalate_cons_cons]
    simp

theorem joined_splitOn (path : Text) : joined (path.splitOn '/') = path := by
  rw [joined_eq_intercalate, List.intercalate_splitOn]

theorem joined_sublist_cons (s : Text) (segs : List Text) :
    (joined segs).Sublist (joined (s :: segs)) := by
  cases segs with
  | nil => exact List.nil_sublist _
  | cons t segs => exact (List.sublist_cons_self _ _).trans (List.sublist_append_right _ _)

theorem joined_sublist {others : List Text} (h : segs.Sublist others) :
    (joined segs).Sublist (joined others) := by
  induction h with
  | slnil => exact .slnil
  | cons s _ ih => exact ih.trans (joined_sublist_cons s _)
  | @cons_cons segs others s h ih =>
    cases segs with
    | nil =>
      cases others with
      | nil => exact .refl _
      | cons t others => exact List.sublist_append_left _ _
    | cons t segs =>
      cases others with
      | nil => cases h
      | cons t' others => exact (ih.cons_cons '/').append_left s

open Component

variable {front body : List Component}

theorem ofComponents_sublist (hfront : front ∈ leads) {d : Component}
    (hbody : ∀ c ∈ body ++ [d], c.Plain) :
    (ofComponents (front ++ body)).Sublist (ofComponents (front ++ (body ++ [d]))) := by
  have hbody' : ∀ c ∈ body, c.Plain := fun c hc => hbody c (List.mem_append_left _ hc)
  rw [ofComponents_append hfront hbody, ofComponents_append hfront hbody']
  split
  · exact (joined_sublist ((List.sublist_append_left _ _).map segment)).cons_cons '/'
  · exact joined_sublist (((List.sublist_append_left _ _).append_left front).map segment)

/-- A path has all the characters of its components. -/
theorem ofComponents_components_sublist (path : Text) :
    (ofComponents (components path)).Sublist path := by
  have hsegments : (segments path).Sublist (path.splitOn '/') := List.filter_sublist
  rw [components_eq, ofComponents_append (lead_mem_leads path) fun _ => plain_of_mem_map_ofSegment]
  split
  · next hroot =>
    obtain ⟨rest, rfl⟩ := List.isPrefixOf_iff_prefix.1 ((lead_eq_root_iff path).1 hroot)
    rw [map_segment_ofSegment, List.singleton_append, segments_cons]
    refine .cons_cons '/' ?_
    have hfilter : ((segments rest).filter (· ≠ here)).Sublist (rest.splitOn '/') :=
      List.filter_sublist.trans List.filter_sublist
    have hrest := joined_sublist hfilter
    rwa [joined_splitOn] at hrest
  · next hroot =>
    rw [List.map_append, map_segment_ofSegment]
    conv_rhs => rw [← joined_splitOn path]
    refine joined_sublist (List.Sublist.trans ?_ hsegments)
    unfold lead at hroot ⊢
    split
    · next habsolute => simp [habsolute] at hroot
    · split
      · next hhead =>
        obtain ⟨segs, hsegs⟩ : ∃ segs, segments path = here :: segs :=
          List.head?_eq_some_iff.1 hhead
        have hfilter : (here :: segs).filter (· ≠ here) = segs.filter (· ≠ here) := by simp
        rw [hsegs, hfilter]
        exact List.filter_sublist.cons_cons here
      · exact List.filter_sublist

end Path

theorem Text.byteWidth_le_of_sublist {t u : Text} (h : t.Sublist u) :
    t.byteWidth ≤ u.byteWidth := by
  induction h with
  | slnil => exact Nat.le_refl 0
  | cons c _ ih => exact ih.trans (Nat.le_add_left _ _)
  | cons_cons c _ ih => exact Nat.add_le_add_left ih _

namespace Tree

variable {tree : Tree} {cwd loc top : Location} {links : Nat} {node : Node} {path other : Text}
  {names : List Text}

/-! ## Paths that can be followed -/

theorem checkPath_eq_ok_iff :
    checkPath path = .ok () ↔ '\x00' ∉ path ∧ path ≠ [] ∧ path.byteWidth < maxPath := by
  unfold checkPath
  split
  · next hnul =>
    have hmem : '\x00' ∈ path := by simpa using hnul
    simp [hmem]
  · next hnul =>
    have hmem : '\x00' ∉ path := by simpa using hnul
    split
    · next hempty => simp [List.isEmpty_iff.1 hempty]
    · next hne =>
      have hne : path ≠ [] := by simpa using hne
      split
      · next hlong => simp [Nat.not_lt.2 hlong]
      · next hshort => simp [hmem, hne, Nat.not_le.1 hshort]

theorem checkPath_of_sublist (h : checkPath path = .ok ()) (hsub : other.Sublist path)
    (hne : other ≠ []) : checkPath other = .ok () := by
  obtain ⟨hnul, -, hshort⟩ := checkPath_eq_ok_iff.1 h
  exact checkPath_eq_ok_iff.2
    ⟨fun hmem => hnul (hsub.subset hmem), hne, (Text.byteWidth_le_of_sublist hsub).trans_lt hshort⟩

/-- Whether a tree is well-formed and has only names that a file system can hold. -/
structure Storable (tree : Tree) : Prop extends WellFormed tree where
  names : ∀ entry ∈ tree.entries, ∀ name ∈ entry.1, name.byteWidth ≤ maxName ∧ '\x00' ∉ name

instance : DecidablePred Storable := fun tree =>
  decidable_of_iff
    (tree.WellFormed ∧ ∀ entry ∈ tree.entries, ∀ name ∈ entry.1, name.byteWidth ≤ maxName ∧
      '\x00' ∉ name)
    ⟨fun h => ⟨h.1, h.2⟩, fun h => ⟨h.toWellFormed, h.names⟩⟩

theorem Storable.name (h : tree.Storable) (hnode : tree.node? loc = some node) {name : Text}
    (hname : name ∈ loc) : IsEntry name ∧ '\x00' ∉ name := by
  have hisName := h.isName_of_mem hnode name hname
  obtain ⟨hshort, hnul⟩ := h.names _ (mem_of_node? (List.ne_nil_of_mem hname) hnode) name hname
  exact ⟨⟨hisName.2.1, hisName.2.2, hshort⟩, hnul⟩

/-- Names lead down to what lies below a directory. -/
theorem walk_names (hwf : tree.WellFormed) (hnames : ∀ name ∈ names, IsEntry name)
    (hnode : tree.node? (names.reverse ++ top) = some node)
    (hlink : ∀ target, node ≠ .link target) :
    tree.walk true links top names = .ok (names.reverse ++ top) := by
  induction names generalizing top with
  | nil => exact walk_nil
  | cons name names ih =>
    obtain ⟨hname, hnames⟩ := List.forall_mem_cons.1 hnames
    rw [List.reverse_cons, List.append_assoc, List.singleton_append] at hnode ⊢
    have hwithin : Location.within (names.reverse ++ name :: top) (name :: top) = true :=
      Location.within_append _ _
    obtain ⟨first, hfirst, hfirstLink⟩ :
        ∃ first, tree.node? (name :: top) = some first ∧ ∀ target, first ≠ .link target := by
      by_cases heq : names.reverse ++ name :: top = name :: top
      · exact ⟨node, heq ▸ hnode, hlink⟩
      · exact ⟨.dir, hwf.isDir_of_within hnode hwithin heq, by simp⟩
    rw [walk_enter (hwf.parent_isDir hfirst).2 hname hfirst hfirstLink, ih hnames hnode]

/-- Whether following a path leads to a place. -/
def LeadsTo (tree : Tree) (cwd : Location) (path : Text) (loc : Location) : Prop :=
  tree.walk true maxLinks (start cwd path) (steps path) = .ok loc

instance (tree : Tree) (cwd : Location) (path : Text) (loc : Location) :
    Decidable (tree.LeadsTo cwd path loc) :=
  inferInstanceAs (Decidable (_ = _))

theorem leadsTo_of_locate (h : tree.locate cwd path = .ok loc) : tree.LeadsTo cwd path loc := by
  obtain ⟨-, -, hwalk⟩ := Except.bind_ok h
  exact hwalk

theorem LeadsTo.walk_dir (h : tree.LeadsTo cwd path loc) (hdir : tree.node? loc = some .dir) :
    tree.walk true maxLinks (start cwd path) (Path.segments path ++ [Path.here]) = .ok loc := by
  unfold LeadsTo steps at h
  split at h
  · exact h
  · rw [List.append_nil] at h
    exact walk_here_of_dir h hdir

/-- **What lies below a directory is where the path below the path of the directory leads to.** -/
theorem LeadsTo.below (hwf : tree.WellFormed) (h : tree.LeadsTo cwd path top)
    (hdir : tree.node? top = some .dir) (hnames : ∀ name ∈ Path.segments other, IsEntry name)
    (hne : Path.segments other ≠ [])
    (hnode : tree.node? ((Path.segments other).reverse ++ top) = some node)
    (hlink : ∀ target, node ≠ .link target) :
    tree.LeadsTo cwd (Path.below path other) ((Path.segments other).reverse ++ top) := by
  obtain ⟨left, hleft⟩ := walk_append (walk_here_ok (h.walk_dir hdir)).1
  have hstart : start cwd (Path.below path other) = start cwd path := by
    rw [start, start, Path.isAbsolute_below]
  unfold LeadsTo steps
  rw [hstart, Path.not_endsWith_slash_below hne, Path.segments_below]
  change tree.walk true maxLinks (start cwd path)
    ((Path.segments path ++ Path.segments other) ++ []) = _
  rw [List.append_nil, hleft tree (.refl tree), walk_names hwf hnames hnode hlink]

end Tree

end Unreached

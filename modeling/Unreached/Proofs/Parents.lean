import Unreached.Proofs.Tree

/-!
# Making the directories of a path

* `Tree.Climbs` : the ways that leave a directory by `..` only where there is one;
* `Tree.mkdirs_new` : making the directories of such a path changes nothing or ends with an empty
  directory;
* `Tree.mkParents_free` : where a path led to nothing before its parents were made, there is no file
  at its place afterwards.

The last does not hold for all paths. If `new` is missing, `new/../old` leads to nothing, and leads
to `old` as soon as `new` is made.
-/

namespace Unreached.Tree

set_option autoImplicit false

variable {tree tree' made : Tree} {base dir : Location} {segs rest others : List Text}
  {name path target : Text} {cwd : Location}

/-! ## Climbing -/

/-- Whether each `..` of a way leaves a directory that is there. -/
def Climbs (tree : Tree) (base : Location) (segs : List Text) : Prop :=
  ∀ before after, segs = before ++ Path.up :: after →
    ∃ loc, tree.walk true maxLinks base (before ++ [Path.up]) = .ok loc

theorem climbs_of_not_mem (h : Path.up ∉ segs) : tree.Climbs base segs := by
  rintro before after rfl
  exact absurd (List.mem_append_right _ List.mem_cons_self) h

theorem Climbs.of_append (h : tree.Climbs base (segs ++ rest)) : tree.Climbs base segs := by
  rintro before after rfl
  exact h before (after ++ rest) (by simp)

theorem Climbs.of_filter (h : tree.Climbs base segs)
    (heq : segs.filter (· ≠ Path.here) = others.filter (· ≠ Path.here)) :
    tree.Climbs base others := by
  rintro before after rfl
  have hup : (Path.up :: after).filter (· ≠ Path.here) = Path.up :: after.filter (· ≠ Path.here) :=
    rfl
  rw [List.filter_append, hup] at heq
  obtain ⟨front, back, rfl, hfront, hback⟩ := List.filter_eq_append_iff.1 heq
  obtain ⟨skipped, last, rfl, hskipped, -, -⟩ := List.filter_eq_cons_iff.1 hback
  obtain ⟨loc, hloc⟩ := h (front ++ skipped) last (by simp)
  have hnone : skipped.filter (· ≠ Path.here) = [] := by
    rw [List.filter_eq_nil_iff]
    exact hskipped
  rw [walk_filter, List.filter_append, hfront, hnone, List.append_nil, ← walk_filter] at hloc
  exact ⟨loc, hloc⟩

/-! ## New directories -/

/-- Whether a path leads to a directory with nothing in it. -/
def LeadsToEmpty (tree : Tree) (cwd : Location) (path : Text) : Prop :=
  ∃ dir, tree.walk true maxLinks (start cwd path) (Path.segments path ++ [Path.here]) = .ok dir ∧
    ∀ name, tree.node? (name :: dir) = none

theorem leadsToEmpty_of_mkdir (hwf : tree.WellFormed) (h : tree.mkdir cwd path = .ok made) :
    made.LeadsToEmpty cwd path := by
  have hkeeps := (makesDir_mkdir h).keeps
  obtain ⟨dir, name, hparent, hfree, rfl⟩ := mkdir_ok h
  obtain ⟨segs, -, hsegs, hentry, hwalk⟩ := locateParent_ok hparent
  obtain ⟨hwalk, hdir⟩ := walk_here_ok hwalk
  obtain ⟨left, hleft⟩ := walk_append hwalk
  have hnew : (tree.put (name :: dir) .dir).node? (name :: dir) = some .dir := by
    rw [node?_put (List.cons_ne_nil _ _) hfree, if_pos rfl]
  refine ⟨name :: dir, ?_, ?_⟩
  · rw [hsegs, List.append_assoc, hleft _ hkeeps, List.singleton_append,
      walk_enter (hkeeps _ _ hdir) hentry hnew (by simp), walk_here hnew, walk_nil]
  · intro other
    rw [node?_put (List.cons_ne_nil _ _) hfree, if_neg (List.cons_ne_self _ _)]
    -- what were in the new directory before would have been in no directory
    cases hnode : tree.node? (other :: name :: dir) with
    | none => rfl
    | some node =>
      rw [(hwf.parent_isDir hnode).2] at hfree
      cases hfree

theorem LeadsToEmpty.not_isDir (h : tree.LeadsToEmpty cwd path) (hname : Path.IsName name)
    (hstart : start cwd target = start cwd path)
    (hsegs : Path.segments target = Path.segments path ++ [name]) :
    tree.isDir cwd target = false := by
  rw [← Bool.not_eq_true]
  intro hisDir
  obtain ⟨dir, hwalk, hempty⟩ := h
  obtain ⟨loc, hloc⟩ := walk_of_isDir hisDir
  obtain ⟨hwalk, hdir⟩ := walk_here_ok hwalk
  obtain ⟨left, hleft⟩ := walk_append hwalk
  rw [hstart, hsegs, List.append_assoc, hleft tree (.refl tree), List.singleton_append] at hloc
  by_cases hlong : maxName < name.byteWidth
  · rw [walk_too_long hdir hname.2.1 hname.2.2 hlong] at hloc
    cases hloc
  · rw [walk_missing hdir ⟨hname.2.1, hname.2.2, Nat.not_lt.1 hlong⟩ (hempty name)] at hloc
    cases hloc

theorem checkPath_ne_notFound (hne : path ≠ []) : checkPath path ≠ .error .notFound := by
  have hempty : path.isEmpty = false := List.isEmpty_eq_false_iff.2 hne
  unfold checkPath
  rw [hempty]
  repeat' split <;> simp

theorem mkdir_of_up (hsegs : Path.segments path = segs ++ [Path.up])
    (hwalk : tree.walk true maxLinks (start cwd path) (segs ++ [Path.here]) = .ok dir) :
    tree.mkdir cwd path ≠ .error .notFound := by
  have hne : path ≠ [] := by
    rintro rfl
    simp [Path.segments] at hsegs
  unfold mkdir locateParent
  dsimp only
  rw [hsegs, List.dropLast_concat, List.getLast?_concat, hwalk]
  cases hcheck : checkPath path with
  | error fault =>
    intro heq
    cases heq
    exact checkPath_ne_notFound hne hcheck
  | ok =>
    intro heq
    cases heq

theorem Climbs.mkdir_ne_notFound (h : tree.Climbs (start cwd path) (Path.segments path))
    (hsegs : Path.segments path = segs ++ [Path.up]) : tree.mkdir cwd path ≠ .error .notFound := by
  obtain ⟨loc, hloc⟩ := h segs [] hsegs
  obtain ⟨before, -, hwalk, hdir, -⟩ := walk_concat_ok hloc
  exact mkdir_of_up hsegs (walk_here_of_dir hwalk hdir)

/-! ## Cases -/

theorem mkdirOrFind_cases (tree : Tree) (cwd : Location) (path : Text) :
    (∃ made, tree.mkdir cwd path = .ok made ∧ (tree.mkdirOrFind cwd path).tree = made) ∨
      (tree.mkdirOrFind cwd path).tree = tree ∧
        ((tree.mkdirOrFind cwd path).fault? = none → tree.isDir cwd path = true) := by
  unfold mkdirOrFind
  split
  · next made hmkdir => exact .inl ⟨made, hmkdir, rfl⟩
  · right
    refine ⟨rfl, ?_⟩
    intro hfault
    by_contra hisDir
    simp [hisDir] at hfault

theorem mkdirsFrom_nil_cases (tree : Tree) (cwd : Location) (path : Text) :
    (∃ made, tree.mkdir cwd path = .ok made) ∨ (mkdirsFrom cwd tree path []).tree = tree := by
  unfold mkdirsFrom
  split
  · exact .inr rfl
  · split
    · next made hmkdir => exact .inl ⟨made, hmkdir⟩
    · exact .inr rfl
    · exact .inr rfl

theorem mkdirs_cases {parent : Text}
    (hancestors : Path.ancestors path = parent :: Path.ancestors parent)
    (hfault : (tree.mkdirs cwd path).fault? = none) :
    (∃ made, tree.mkdir cwd path = .ok made ∧ (tree.mkdirs cwd path).tree = made) ∨
      (tree.mkdirs cwd path).tree = tree ∨
      tree.mkdir cwd path = .error .notFound ∧ (tree.mkdirs cwd parent).fault? = none ∧
        tree.mkdirs cwd path = (tree.mkdirs cwd parent).tree.mkdirOrFind cwd path := by
  rw [mkdirs, hancestors, mkdirsFrom] at hfault ⊢
  split at hfault
  · next made hmkdir => exact .inl ⟨made, hmkdir, rfl⟩
  · next hmkdir =>
    dsimp only at hfault ⊢
    split at hfault
    · next hsome =>
      rw [hfault] at hsome
      cases hsome
    · next hnone => exact .inr (.inr ⟨hmkdir, Option.not_isSome_iff_eq_none.1 hnone, if_neg hnone⟩)
  · exact .inr (.inl rfl)

section

open Unreached.Path

variable {front body : List Component}

theorem mkdir_ne_ok (hfront : front ∈ leads) (hpath : path = ofComponents front) :
    tree.mkdir cwd path ≠ .ok made := by
  have hsegments : segments path = if front = [.here] then [here] else [] := by
    have hsegs := @segments_ofComponents front [] hfront (by simp)
    rwa [List.append_nil, ← hpath, List.map_nil, List.append_nil] at hsegs
  intro h
  obtain ⟨dir, name, hparent, -, -⟩ := mkdir_ok h
  obtain ⟨segs, -, hsegs, hentry, -⟩ := locateParent_ok hparent
  rw [hsegments] at hsegs
  split at hsegs
  · have hlast := congrArg List.getLast? hsegs
    rw [List.getLast?_concat] at hlast
    cases hlast
    exact hentry.ne_here rfl
  · simp at hsegs

theorem mkdirs_lead (hfront : front ∈ leads) (hpath : path = ofComponents front)
    (hfault : (tree.mkdirs cwd path).fault? = none) : (tree.mkdirs cwd path).tree = tree := by
  have hmkdir : ∀ made, tree.mkdir cwd path ≠ .ok made := fun made => mkdir_ne_ok hfront hpath
  simp only [leads, List.mem_cons, List.not_mem_nil, or_false] at hfront
  rcases hfront with rfl | rfl | rfl
  · rw [hpath]
    rfl
  · have hancestors : ancestors path = [] := by
      rw [hpath]
      rfl
    rw [mkdirs, hancestors]
    rcases mkdirsFrom_nil_cases tree cwd path with ⟨made, hok⟩ | heq
    · exact absurd hok (hmkdir made)
    · exact heq
  · have hancestors : ancestors path = [] :: ancestors [] := by
      rw [hpath]
      rfl
    rcases mkdirs_cases hancestors hfault with ⟨made, hok, -⟩ | heq | ⟨-, -, heq⟩
    · exact absurd hok (hmkdir made)
    · exact heq
    · rw [heq]
      rcases mkdirOrFind_cases tree cwd path with ⟨made, hok, -⟩ | ⟨heq, -⟩
      · exact absurd hok (hmkdir made)
      · exact heq

theorem mkdirs_new_step {c : Component} {parent : Text} (hwf : tree.WellFormed) (hc : c.Plain)
    (hancestors : ancestors path = parent :: ancestors parent)
    (hsegs : segments path = segments parent ++ [c.segment])
    (hstart : start cwd path = start cwd parent)
    (hclimbs : tree.Climbs (start cwd path) (segments path))
    (hparent : (tree.mkdirs cwd parent).fault? = none → (tree.mkdirs cwd parent).tree = tree ∨
      (tree.mkdirs cwd parent).tree.LeadsToEmpty cwd parent)
    (hfault : (tree.mkdirs cwd path).fault? = none) :
    (tree.mkdirs cwd path).tree = tree ∨ (tree.mkdirs cwd path).tree.LeadsToEmpty cwd path := by
  rcases mkdirs_cases hancestors hfault with ⟨made, hmkdir, heq⟩ | heq | ⟨hmissing, hmade, heq⟩
  · exact .inr (heq ▸ leadsToEmpty_of_mkdir hwf hmkdir)
  · exact .inl heq
  · have hwf' : (tree.mkdirs cwd parent).tree.WellFormed :=
      (makesDirs_mkdirs tree cwd parent).wellFormed hwf
    rw [heq] at hfault ⊢
    rcases mkdirOrFind_cases (tree.mkdirs cwd parent).tree cwd path with ⟨made, hmkdir, heq⟩ |
      ⟨heq, hisDir⟩
    · exact .inr (heq ▸ leadsToEmpty_of_mkdir hwf' hmkdir)
    · rw [heq]
      rcases hparent hmade with hsame | hempty
      · exact .inl hsame
      -- what is found must be in the parent, which is empty
      · cases c with
        | root => cases hc
        | here => cases hc
        | up => exact absurd hmissing (hclimbs.mkdir_ne_notFound hsegs)
        | name t =>
          have hnot := hempty.not_isDir hc hstart hsegs
          rw [hisDir hfault] at hnot
          cases hnot

theorem ofComponents_concat {c : Component} (cwd : Location) (hfront : front ∈ leads)
    (hbody : ∀ d ∈ body ++ [c], d.Plain) :
    segments (ofComponents (front ++ (body ++ [c]))) =
      segments (ofComponents (front ++ body)) ++ [c.segment] ∧
      start cwd (ofComponents (front ++ (body ++ [c]))) =
        start cwd (ofComponents (front ++ body)) := by
  have hbody' : ∀ d ∈ body, d.Plain := fun d hd => hbody d (List.mem_append_left _ hd)
  constructor
  · rw [segments_ofComponents hfront hbody, segments_ofComponents hfront hbody', List.map_append,
      List.append_assoc]
    rfl
  · rw [start, start, isAbsolute_ofComponents hfront hbody, isAbsolute_ofComponents hfront hbody']

/-- **Making the directories of a path changes nothing or ends with an empty directory**, if each
`..` leaves a directory that is there. -/
theorem mkdirs_new (hwf : tree.WellFormed) (hfront : front ∈ leads) (hbody : ∀ c ∈ body, c.Plain)
    (hpath : path = ofComponents (front ++ body))
    (hclimbs : tree.Climbs (start cwd path) (segments path))
    (hfault : (tree.mkdirs cwd path).fault? = none) :
    (tree.mkdirs cwd path).tree = tree ∨ (tree.mkdirs cwd path).tree.LeadsToEmpty cwd path := by
  induction body using List.reverseRecOn generalizing path with
  | nil =>
    rw [List.append_nil] at hpath
    exact .inl (mkdirs_lead hfront hpath hfault)
  | append_singleton body c ih =>
    have hbody' : ∀ d ∈ body, d.Plain := fun d hd => hbody d (List.mem_append_left _ hd)
    have hc : c.Plain := hbody c (List.mem_append_right _ (List.mem_singleton_self c))
    obtain ⟨hsegs, hstart⟩ := ofComponents_concat cwd hfront hbody
    have hancestors := ancestors_ofComponents hfront hbody' hc
    rw [← hpath] at hsegs hstart hancestors
    refine mkdirs_new_step hwf hc hancestors hsegs hstart hclimbs (ih hbody' rfl ?_) hfault
    rw [hsegs] at hclimbs
    exact hstart ▸ hclimbs.of_append

/-- **There is no file at the place of a path that led to nothing before its parents were made.** -/
theorem mkParents_free {place : Location} (hwf : tree.WellFormed)
    (hclimbs : tree.Climbs (start cwd target) (segments target))
    (hexists : tree.exists? cwd target = false) (hfault : (tree.mkParents cwd target).fault? = none)
    (hplace : (tree.mkParents cwd target).tree.place? cwd target = some place)
    (hslash : target.endsWith ['/'] = false) (content : Bytes) :
    (tree.mkParents cwd target).tree.node? place ≠ some (.file content) := by
  obtain ⟨dir, name, rfl, hlocate⟩ := of_place? hplace
  obtain ⟨segs, hcheck, hsegs, hentry, hwalk⟩ := locateParent_ok hlocate
  have hparent := parent?_eq hsegs hentry.ne_here
  have hplain : ∀ c ∈ (segs.filter (· ≠ here)).map Component.ofSegment, c.Plain := by
    intro c hc
    refine @plain_of_mem_map_ofSegment target c ?_
    rw [hsegs, List.filter_append, List.map_append]
    exact List.mem_append_left _ hc
  have hstart : start cwd
      (ofComponents (lead target ++ (segs.filter (· ≠ here)).map Component.ofSegment)) =
      start cwd target := by
    rw [start, start, isAbsolute_ofComponents (lead_mem_leads target) hplain]
    simp [lead_eq_root_iff]
  have hfilter := filter_segments_ofComponents (lead_mem_leads target) hplain
  rw [map_segment_ofSegment] at hfilter
  have hclimbs' : tree.Climbs (start cwd target) segs := by
    rw [hsegs] at hclimbs
    exact hclimbs.of_append
  rw [mkParents, hparent] at hfault hwalk ⊢
  have hnew :=
    mkdirs_new hwf (lead_mem_leads target) hplain
      rfl (hstart.symm ▸ hclimbs'.of_filter hfilter.symm) hfault
  generalize ofComponents _ = parent at *
  rcases hnew with hsame | ⟨empty, hempty, hnothing⟩
  · rw [hsame] at hwalk ⊢
    intro hfile
    have hfound := exists?_of_node hcheck hsegs hentry hwalk hfile (by simp) (by simp [hslash])
    rw [hexists] at hfound
    cases hfound
  · rw [walk_filter, hfilter, ← walk_filter, hstart, hwalk] at hempty
    cases hempty
    rw [hnothing name]
    exact (Option.some_ne_none _).symm

end

end Unreached.Tree

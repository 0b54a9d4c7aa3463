import Mathlib.Data.List.Basic
import Unreached.Proofs.Paths
import Unreached.Tree.Change

/-!
# Walks through a tree

* `Tree.walk_missing`, `Tree.walk_enter`, `Tree.walk_link` and others : the steps of a walk;
* `Tree.walk_append` : a walk goes on from where its first part leads, also in a tree that holds
  more;
* `Tree.walk_filter` : on the way the segments that change nothing do not matter;
* `Tree.locateParent_ok`, `Tree.walk_of_isDir`, `Tree.exists?_of_node` : what can be asked about a
  path, in terms of walks;
* `Tree.stat_of_missing`, `Tree.stat_of_entry` : what a path leads to by the names in the root.
-/

namespace Unreached

set_option autoImplicit false

theorem Except.bind_ok {ε α β : Type} {x : Except ε α} {f : α → Except ε β} {b : β}
    (h : x >>= f = .ok b) : ∃ a, x = .ok a ∧ f a = .ok b := by
  cases x with
  | error e => cases h
  | ok a => exact ⟨a, rfl, h⟩

namespace Tree

variable {tree tree' : Tree} {links : Nat} {loc dir top : Location} {segs rest : List Text}
  {s name path : Text} {cwd : Location} {fault : Fault} {node : Node}

/-- Whether a segment is looked up in a directory. -/
structure IsEntry (s : Text) : Prop where
  ne_here : s ≠ Path.here
  ne_up : s ≠ Path.up
  short : s.byteWidth ≤ maxName

instance : DecidablePred IsEntry := fun s =>
  decidable_of_iff (s ≠ Path.here ∧ s ≠ Path.up ∧ s.byteWidth ≤ maxName)
    ⟨fun h => ⟨h.1, h.2.1, h.2.2⟩, fun h => ⟨h.ne_here, h.ne_up, h.short⟩⟩

/-! ## Steps -/

theorem walk_nil : tree.walk true links loc [] = .ok loc := by rw [walk]

theorem walk_not_dir (h : tree.node? loc ≠ some .dir) (hne : segs ≠ []) :
    tree.walk true links loc segs = .error .notADirectory := by
  obtain ⟨s, segs, rfl⟩ := List.exists_cons_of_ne_nil hne
  rw [walk, if_pos h]

theorem walk_here (h : tree.node? loc = some .dir) :
    tree.walk true links loc (Path.here :: segs) = tree.walk true links loc segs := by
  rw [walk, if_neg (not_not_intro h), if_pos rfl]

theorem walk_up (h : tree.node? loc = some .dir) :
    tree.walk true links loc (Path.up :: segs) = tree.walk true links loc.tail segs := by
  rw [walk, if_neg (not_not_intro h), if_neg (by decide), if_pos rfl]

theorem walk_too_long (h : tree.node? loc = some .dir) (hhere : s ≠ Path.here) (hup : s ≠ Path.up)
    (hs : maxName < s.byteWidth) : tree.walk true links loc (s :: segs) = .error .nameTooLong := by
  rw [walk, if_neg (not_not_intro h), if_neg hhere, if_neg hup, if_pos hs]

theorem walk_missing (h : tree.node? loc = some .dir) (hs : IsEntry s)
    (hnode : tree.node? (s :: loc) = none) :
    tree.walk true links loc (s :: segs) = .error .notFound := by
  rw [walk, if_neg (not_not_intro h), if_neg hs.ne_here, if_neg hs.ne_up,
    if_neg (Nat.not_lt.2 hs.short), hnode]

theorem walk_enter (h : tree.node? loc = some .dir) (hs : IsEntry s)
    (hnode : tree.node? (s :: loc) = some node) (hlink : ∀ target, node ≠ .link target) :
    tree.walk true links loc (s :: segs) = tree.walk true links (s :: loc) segs := by
  rw [walk, if_neg (not_not_intro h), if_neg hs.ne_here, if_neg hs.ne_up,
    if_neg (Nat.not_lt.2 hs.short), hnode]
  cases node with
  | dir => rfl
  | file content => rfl
  | link target => exact absurd rfl (hlink target)

theorem walk_link_loop {target : Text} (h : tree.node? loc = some .dir) (hs : IsEntry s)
    (hnode : tree.node? (s :: loc) = some (.link target)) :
    tree.walk true 0 loc (s :: segs) = .error .linkLoop := by
  rw [walk, if_neg (not_not_intro h), if_neg hs.ne_here, if_neg hs.ne_up,
    if_neg (Nat.not_lt.2 hs.short), hnode]
  simp

theorem walk_link {target : Text} (h : tree.node? loc = some .dir) (hs : IsEntry s)
    (hnode : tree.node? (s :: loc) = some (.link target)) :
    tree.walk true (links + 1) loc (s :: segs) =
      tree.walk true links (if Path.isAbsolute target then [] else loc) (steps target ++ segs) := by
  rw [walk, if_neg (not_not_intro h), if_neg hs.ne_here, if_neg hs.ne_up,
    if_neg (Nat.not_lt.2 hs.short), hnode]
  simp

/-! ## Parts of a walk -/

/-- Whether all that a tree holds is in another. -/
def Extends (tree tree' : Tree) : Prop :=
  ∀ loc node, tree.node? loc = some node → tree'.node? loc = some node

theorem Extends.refl (tree : Tree) : tree.Extends tree := fun _ _ h => h

/-- **A walk goes on from where its first part leads**, with the number of links that this part
leaves. In a tree that holds more the first part leads there as well. -/
theorem walk_append (h : tree.walk true links loc segs = .ok top) :
    ∃ left, ∀ tree', tree.Extends tree' → ∀ rest,
      tree'.walk true links loc (segs ++ rest) = tree'.walk true left top rest := by
  fun_induction Tree.walk tree true links loc segs with
  | case1 links loc =>
    cases h
    exact ⟨links, fun _ _ _ => rfl⟩
  | case2 => cases h
  | case3 links loc segs hdir ih =>
    obtain ⟨left, hleft⟩ := ih h
    refine ⟨left, fun tree' hext rest => ?_⟩
    rw [List.cons_append, walk_here (hext _ _ (not_not.1 hdir)), hleft tree' hext]
  | case4 links loc segs hdir _ ih =>
    obtain ⟨left, hleft⟩ := ih h
    refine ⟨left, fun tree' hext rest => ?_⟩
    rw [List.cons_append, walk_up (hext _ _ (not_not.1 hdir)), hleft tree' hext]
  | case5 => cases h
  | case6 => cases h
  | case7 _ _ _ _ _ _ _ _ _ _ hlast => simp at hlast
  | case8 => cases h
  | case9 loc s segs hdir hhere hup hs target hnode _ links ih =>
    obtain ⟨left, hleft⟩ := ih h
    refine ⟨left, fun tree' hext rest => ?_⟩
    rw [List.cons_append, walk_link (hext _ _ (not_not.1 hdir)) ⟨hhere, hup, Nat.not_lt.1 hs⟩
      (hext _ _ hnode), ← List.append_assoc]
    exact hleft tree' hext rest
  | case10 links loc s segs hdir hhere hup hs node hlink hnode ih =>
    obtain ⟨left, hleft⟩ := ih h
    refine ⟨left, fun tree' hext rest => ?_⟩
    rw [List.cons_append, walk_enter (hext _ _ (not_not.1 hdir)) ⟨hhere, hup, Nat.not_lt.1 hs⟩
      (hext _ _ hnode) hlink, hleft tree' hext]

theorem walk_append_error (h : tree.walk true links loc segs = .error fault) (rest : List Text) :
    tree.walk true links loc (segs ++ rest) = .error fault := by
  fun_induction Tree.walk tree true links loc segs with
  | case1 => cases h
  | case2 links loc s segs hdir =>
    cases h
    exact walk_not_dir hdir (List.cons_ne_nil _ _)
  | case3 links loc segs hdir ih => rw [List.cons_append, walk_here (not_not.1 hdir), ih h]
  | case4 links loc segs hdir _ ih => rw [List.cons_append, walk_up (not_not.1 hdir), ih h]
  | case5 links loc s segs hdir hhere hup hs =>
    cases h
    exact walk_too_long (not_not.1 hdir) hhere hup hs
  | case6 links loc s segs hdir hhere hup hs hnode =>
    cases h
    exact walk_missing (not_not.1 hdir) ⟨hhere, hup, Nat.not_lt.1 hs⟩ hnode
  | case7 _ _ _ _ _ _ _ _ _ _ hlast => simp at hlast
  | case8 loc s segs hdir hhere hup hs target hnode =>
    cases h
    exact walk_link_loop (not_not.1 hdir) ⟨hhere, hup, Nat.not_lt.1 hs⟩ hnode
  | case9 loc s segs hdir hhere hup hs target hnode _ links ih =>
    rw [List.cons_append, walk_link (not_not.1 hdir) ⟨hhere, hup, Nat.not_lt.1 hs⟩ hnode,
      ← List.append_assoc]
    exact ih h
  | case10 links loc s segs hdir hhere hup hs node hlink hnode ih =>
    rw [List.cons_append, walk_enter (not_not.1 hdir) ⟨hhere, hup, Nat.not_lt.1 hs⟩ hnode hlink,
      ih h]

/-- Ways that lead to the same from everywhere may stand for each other. -/
theorem walk_congr {others : List Text}
    (h : ∀ left top, tree.walk true left top rest = tree.walk true left top others) :
    tree.walk true links loc (segs ++ rest) = tree.walk true links loc (segs ++ others) := by
  cases hsegs : tree.walk true links loc segs with
  | error fault => rw [walk_append_error hsegs, walk_append_error hsegs]
  | ok top =>
    obtain ⟨left, hleft⟩ := walk_append hsegs
    rw [hleft tree (.refl tree), hleft tree (.refl tree), h]

/-- **The segments that change nothing do not matter** before another segment. -/
theorem walk_filter :
    tree.walk true links loc (segs ++ s :: rest) =
      tree.walk true links loc (segs.filter (· ≠ Path.here) ++ s :: rest) := by
  induction segs generalizing links loc with
  | nil => rfl
  | cons t segs ih =>
    by_cases ht : t = Path.here
    · subst ht
      have hfilter : (Path.here :: segs).filter (· ≠ Path.here) = segs.filter (· ≠ Path.here) := by
        simp
      rw [hfilter, ← ih, List.cons_append]
      by_cases hdir : tree.node? loc = some .dir
      · exact walk_here hdir
      · rw [walk_not_dir hdir (by simp), walk_not_dir hdir (by simp)]
    · have hfilter : (t :: segs).filter (· ≠ Path.here) = [t] ++ segs.filter (· ≠ Path.here) := by
        simp [ht]
      rw [hfilter, List.append_assoc, ← List.singleton_append, List.append_assoc]
      exact walk_congr fun left top => ih

theorem walk_concat_ok (h : tree.walk true links loc (segs ++ [s]) = .ok top) :
    ∃ before left, tree.walk true links loc segs = .ok before ∧ tree.node? before = some .dir ∧
      tree.walk true left before [s] = .ok top := by
  cases hsegs : tree.walk true links loc segs with
  | error fault =>
    rw [walk_append_error hsegs] at h
    cases h
  | ok before =>
    obtain ⟨left, hleft⟩ := walk_append hsegs
    rw [hleft tree (.refl tree)] at h
    by_cases hdir : tree.node? before = some .dir
    · exact ⟨before, left, rfl, hdir, h⟩
    · rw [walk_not_dir hdir (by simp)] at h
      cases h

theorem walk_here_ok (h : tree.walk true links loc (segs ++ [Path.here]) = .ok top) :
    tree.walk true links loc segs = .ok top ∧ tree.node? top = some .dir := by
  obtain ⟨before, left, hsegs, hdir, hhere⟩ := walk_concat_ok h
  rw [walk_here hdir, walk_nil] at hhere
  cases hhere
  exact ⟨hsegs, hdir⟩

theorem walk_here_of_dir (h : tree.walk true links loc segs = .ok top)
    (hdir : tree.node? top = some .dir) :
    tree.walk true links loc (segs ++ [Path.here]) = .ok top := by
  obtain ⟨left, hleft⟩ := walk_append h
  rw [hleft tree (.refl tree), walk_here hdir, walk_nil]

/-! ## Paths -/

theorem locateParent_ok (h : tree.locateParent cwd path = .ok (dir, some name)) :
    ∃ segs, checkPath path = .ok () ∧ Path.segments path = segs ++ [name] ∧ IsEntry name ∧
      tree.walk true maxLinks (start cwd path) (segs ++ [Path.here]) = .ok dir := by
  unfold locateParent at h
  obtain ⟨⟨⟩, hcheck, h⟩ := Except.bind_ok h
  obtain ⟨found, hwalk, h⟩ := Except.bind_ok h
  split at h
  · cases h
  · next last hlast =>
    split at h
    · cases h
    · next hspecial =>
      split at h
      · cases h
      · next hshort =>
        cases h
        rw [Bool.or_eq_true, decide_eq_true_iff, decide_eq_true_iff, not_or] at hspecial
        refine ⟨(Path.segments path).dropLast, hcheck, ?_,
          ⟨hspecial.1, hspecial.2, Nat.not_lt.1 hshort⟩, hwalk⟩
        exact (List.dropLast_append_getLast? name hlast).symm

theorem stat_eq (h : tree.locate cwd path = .ok loc) :
    tree.stat cwd path = (tree.node? loc).elim (.error .notFound) .ok := by
  unfold stat
  rw [h]
  cases hnode : tree.node? loc <;> simp [bind, Except.bind, hnode]

theorem locate_eq (hcheck : checkPath path = .ok ()) (habsolute : Path.isAbsolute path = true) :
    tree.locate cwd path = tree.walk true maxLinks [] (steps path) := by
  rw [locate, hcheck, start, if_pos habsolute]
  rfl

theorem locate_root : tree.locate cwd ['/'] = .ok [] := by
  rw [locate_eq rfl rfl]
  change tree.walk true maxLinks [] [Path.here] = _
  rw [walk_here rfl, walk_nil]

/-- An absolute path whose first name is not in the root leads to nothing. -/
theorem stat_of_missing (hcheck : checkPath path = .ok ())
    (habsolute : Path.isAbsolute path = true) (hsteps : steps path = name :: segs)
    (hname : IsEntry name) (hnode : tree.node? [name] = none) :
    tree.stat cwd path = .error .notFound := by
  unfold stat
  rw [locate_eq hcheck habsolute, hsteps, walk_missing rfl hname hnode]
  rfl

/-- An absolute path of one name leads to what the root holds under that name. -/
theorem stat_of_entry (hcheck : checkPath path = .ok ()) (habsolute : Path.isAbsolute path = true)
    (hsteps : steps path = [name]) (hname : IsEntry name) (hnode : tree.node? [name] = some node)
    (hlink : ∀ target, node ≠ .link target) : tree.stat cwd path = .ok node := by
  have hlocate : tree.locate cwd path = .ok [name] := by
    rw [locate_eq hcheck habsolute, hsteps, walk_enter rfl hname hnode hlink, walk_nil]
  rw [stat_eq hlocate, hnode]
  rfl

theorem walk_of_isDir (h : tree.isDir cwd path = true) :
    ∃ loc,
      tree.walk true maxLinks (start cwd path) (Path.segments path ++ [Path.here]) = .ok loc := by
  unfold isDir at h
  rw [decide_eq_true_iff] at h
  cases hlocate : tree.locate cwd path with
  | error fault =>
    unfold stat at h
    rw [hlocate] at h
    cases h
  | ok loc =>
    have hdir : tree.node? loc = some .dir := by
      rw [stat_eq hlocate] at h
      cases hnode : tree.node? loc with
      | none =>
        rw [hnode] at h
        cases h
      | some node =>
        rw [hnode] at h
        cases h
        rfl
    unfold locate at hlocate
    obtain ⟨-, -, hwalk⟩ := Except.bind_ok hlocate
    unfold steps at hwalk
    split at hwalk
    · exact ⟨loc, hwalk⟩
    · rw [List.append_nil] at hwalk
      exact ⟨loc, walk_here_of_dir hwalk hdir⟩

/-- What is in a directory that a path leads to exists, unless it is a link. -/
theorem exists?_of_node (hcheck : checkPath path = .ok ())
    (hsegs : Path.segments path = segs ++ [name]) (hname : IsEntry name)
    (hwalk : tree.walk true maxLinks (start cwd path) (segs ++ [Path.here]) = .ok dir)
    (hnode : tree.node? (name :: dir) = some node) (hlink : ∀ target, node ≠ .link target)
    (hslash : path.endsWith ['/'] = true → node = .dir) : tree.exists? cwd path = true := by
  obtain ⟨hwalk, hdir⟩ := walk_here_ok hwalk
  obtain ⟨left, hleft⟩ := walk_append hwalk
  have hlocate : tree.locate cwd path = .ok (name :: dir) := by
    unfold locate
    rw [hcheck]
    change tree.walk true maxLinks (start cwd path) (steps path) = _
    unfold steps
    rw [hsegs, List.append_assoc, hleft tree (.refl tree)]
    split
    · next hends =>
      rw [hslash hends] at hnode
      rw [List.singleton_append, walk_enter hdir hname hnode (by simp), walk_here hnode, walk_nil]
    · rw [List.append_nil, walk_enter hdir hname hnode hlink, walk_nil]
  unfold exists?
  rw [stat_eq hlocate, hnode]
  rfl

end Tree

end Unreached

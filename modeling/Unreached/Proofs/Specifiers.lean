import Unreached.Proofs.Paths
import Unreached.Resolve

/-!
# Where specifiers lead

A specifier is followed segment by segment, and the way climbs and descends.

* `Path.walk?_append`, `Path.walk?_of_names` : walks in parts, and along segments that only descend;
* `Path.clampedWalk_append`, `Path.clampedWalk_of_names` : the same for walks that cannot climb
  above the root;
* `Specifier.walk?_eq_split` : a walk climbs first and then descends, as `Specifier.split` tells;
* `Specifier.location?`, `Path.fromRoot?` : the locations that are walked to from a file and from
  the root;
* `Specifier.location?_relativize` : from every file the specifier made for a location leads there.
-/

namespace Unreached

set_option autoImplicit false

/-! ## Walks -/

namespace Path
variable {stack segs rest : List Text} {s : Text}

theorem walk?_here : walk? stack (here :: segs) = walk? stack segs := by
  rw [walk?.eq_def]
  exact if_pos rfl

theorem walk?_up_nil : walk? [] (up :: segs) = none := by
  rw [walk?, if_neg (by decide), if_pos rfl]

theorem walk?_up_cons : walk? (s :: stack) (up :: segs) = walk? stack segs := by
  rw [walk?, if_neg (by decide), if_pos rfl]

theorem walk?_name (hhere : s ≠ here) (hup : s ≠ up) :
    walk? stack (s :: segs) = walk? (s :: stack) segs := by
  rw [walk?.eq_def]
  exact (if_neg hhere).trans (if_neg hup)

theorem walk?_append (stack segs rest : List Text) :
    walk? stack (segs ++ rest) = (walk? stack segs).bind (walk? · rest) := by
  fun_induction walk? stack segs with
  | case1 stack => rfl
  | case2 stack segs ih => rw [List.cons_append, walk?_here, ih]
  | case3 segs => rw [List.cons_append, walk?_up_nil]; rfl
  | case4 segs _ s stack ih => rw [List.cons_append, walk?_up_cons, ih]
  | case5 stack s segs hhere hup ih => rw [List.cons_append, walk?_name hhere hup, ih]

/-- Segments that are names only descend. -/
theorem walk?_of_names (h : ∀ s ∈ segs, s ≠ here ∧ s ≠ up) :
    walk? stack segs = some (segs.reverse ++ stack) := by
  induction segs generalizing stack with
  | nil => rfl
  | cons s segs ih =>
    obtain ⟨⟨hhere, hup⟩, hsegs⟩ := List.forall_mem_cons.1 h
    rw [walk?_name hhere hup, ih hsegs]
    simp

theorem walk?_replicate_up {n : Nat} (h : n ≤ stack.length) :
    walk? stack (List.replicate n up) = some (stack.drop n) := by
  induction n generalizing stack with
  | zero => rfl
  | succ n ih =>
    cases stack with
    | nil => simp at h
    | cons s stack =>
      rw [List.replicate_succ, walk?_up_cons, ih (by simpa using h)]
      rfl

theorem clampedWalk_append (stack segs rest : List Text) :
    clampedWalk stack (segs ++ rest) = clampedWalk (clampedWalk stack segs) rest := by
  fun_induction clampedWalk stack segs with
  | case1 stack => rfl
  | case2 stack segs ih => rw [List.cons_append, clampedWalk, if_pos rfl, ih]
  | case3 stack segs _ ih => rw [List.cons_append, clampedWalk, if_neg (by decide), if_pos rfl, ih]
  | case4 stack s segs hhere hup ih =>
    rw [List.cons_append, clampedWalk, if_neg hhere, if_neg hup, ih]

theorem clampedWalk_of_names (h : ∀ s ∈ segs, s ≠ here ∧ s ≠ up) :
    clampedWalk stack segs = segs.reverse ++ stack := by
  induction segs generalizing stack with
  | nil => rfl
  | cons s segs ih =>
    obtain ⟨⟨hhere, hup⟩, hsegs⟩ := List.forall_mem_cons.1 h
    rw [clampedWalk, if_neg hhere, if_neg hup, ih hsegs]
    simp

theorem clampedWalk_replicate_up (n : Nat) (segs : List Text) :
    clampedWalk [] (List.replicate n up ++ segs) = clampedWalk [] segs := by
  induction n with
  | zero => rfl
  | succ n ih =>
    rw [List.replicate_succ, List.cons_append, clampedWalk, if_neg (by decide), if_pos rfl,
      List.tail_nil, ih]

/-- A walk that climbs above the root leaves nothing of the place it started from. -/
theorem clampedWalk_of_walk?_eq_none {down : List Text} (h : walk? (down ++ stack) segs = none) :
    clampedWalk (down ++ stack) segs = clampedWalk down segs := by
  induction segs generalizing down stack with
  | nil => simp [walk?] at h
  | cons s segs ih =>
    by_cases hhere : s = here
    · subst hhere
      rw [walk?_here] at h
      rw [clampedWalk, if_pos rfl, clampedWalk, if_pos rfl, ih h]
    by_cases hup : s = up
    · subst hup
      rw [clampedWalk, if_neg hhere, if_pos rfl, clampedWalk, if_neg hhere, if_pos rfl]
      cases down with
      | cons d down =>
        rw [List.cons_append, walk?_up_cons] at h
        exact ih h
      | nil =>
        cases stack with
        | nil => rfl
        | cons t stack =>
          rw [List.nil_append, walk?_up_cons] at h
          exact ih (show walk? ([] ++ stack) segs = none from h)
    · rw [walk?_name hhere hup, ← List.cons_append] at h
      rw [clampedWalk, if_neg hhere, if_neg hup, clampedWalk, if_neg hhere, if_neg hup]
      exact ih h

/-- Whether a path is made of names, one at least. -/
structure Direct (path : Text) : Prop where
  ne_nil : segments path ≠ []
  names : ∀ s ∈ segments path, s ≠ here ∧ s ≠ up

/-- The location that a path leads to from the root, unless it climbs above it. -/
def fromRoot? (path : Text) : Option (List Text) := (walk? [] (segments path)).map List.reverse

end Path

namespace Specifier
variable {levels : Nat} {down segs dir location : List Text} {spec importer target name s : Text}

/-! ## The climb and the descent of a specifier -/

theorem le_splitFrom (levels : Nat) (down segs : List Text) :
    levels ≤ (splitFrom levels down segs).1 := by
  fun_induction splitFrom levels down segs with
  | case1 => exact Nat.le_refl _
  | case2 _ _ _ ih => exact ih
  | case3 _ _ _ ih => omega
  | case4 _ _ _ _ _ ih => exact ih
  | case5 _ _ _ _ _ _ ih => exact ih

theorem mem_splitFrom (h : s ∈ (splitFrom levels down segs).2) : s ∈ down ∨ s ∈ segs := by
  fun_induction splitFrom levels down segs with
  | case1 => simpa using h
  | case2 _ _ _ ih => exact (ih h).imp_right (List.mem_cons_of_mem _)
  | case3 _ _ _ ih => exact (ih h).imp_right (List.mem_cons_of_mem _)
  | case4 _ _ _ _ _ ih => exact (ih h).imp (List.mem_cons_of_mem _) (List.mem_cons_of_mem _)
  | case5 _ _ _ _ _ _ ih =>
    rcases ih h with h | h
    · exact (List.mem_cons.1 h).elim (fun h => .inr (h ▸ List.mem_cons_self)) .inl
    · exact .inr (List.mem_cons_of_mem _ h)

theorem isSegment_split (spec : Text) : ∀ s ∈ (split spec).2, Path.IsSegment s := fun _ hs =>
  Path.isSegment_of_mem_segments ((mem_splitFrom hs).resolve_left List.not_mem_nil)

theorem splitFrom_here :
    splitFrom levels down (Path.here :: segs) = splitFrom levels down segs := by
  rw [splitFrom.eq_def]
  exact if_pos rfl

theorem splitFrom_name (hhere : s ≠ Path.here) (hup : s ≠ Path.up) :
    splitFrom levels down (s :: segs) = splitFrom levels (s :: down) segs := by
  rw [splitFrom.eq_def]
  exact (if_neg hhere).trans (if_neg hup)

/-- After a last segment that is a name the descent ends with it. -/
theorem splitFrom_append_name (hhere : name ≠ Path.here) (hup : name ≠ Path.up) :
    splitFrom levels down (segs ++ [name]) =
      ((splitFrom levels down segs).1, (splitFrom levels down segs).2 ++ [name]) := by
  fun_induction splitFrom levels down segs with
  | case1 => simp [splitFrom, hhere, hup]
  | case2 levels down segs ih => rw [List.cons_append, splitFrom_here, ih]
  | case3 levels segs _ ih => rw [List.cons_append, splitFrom, if_neg (by decide), if_pos rfl, ih]
  | case4 levels segs _ s down ih =>
    rw [List.cons_append, splitFrom, if_neg (by decide), if_pos rfl, ih]
  | case5 levels down s segs hhere hup ih => rw [List.cons_append, splitFrom_name hhere hup, ih]

/-- A walk from a directory first climbs and then descends, unless it climbs above the root. -/
theorem walk?_splitFrom (h : levels ≤ dir.length) :
    Path.walk? (down ++ dir.drop levels) segs =
      if (splitFrom levels down segs).1 ≤ dir.length then
        some ((splitFrom levels down segs).2.reverse ++ dir.drop (splitFrom levels down segs).1)
      else none := by
  fun_induction splitFrom levels down segs with
  | case1 levels down => rw [if_pos h, List.reverse_reverse, Path.walk?]
  | case2 levels down segs ih => rw [Path.walk?_here, ih h]
  | case3 levels segs _ ih =>
    rcases Nat.lt_or_eq_of_le h with hlt | rfl
    · rw [List.nil_append, List.drop_eq_getElem_cons hlt, Path.walk?_up_cons]
      exact ih hlt
    · rw [List.drop_length, List.nil_append, Path.walk?_up_nil, if_neg]
      have := le_splitFrom (dir.length + 1) [] segs
      omega
  | case4 levels segs _ s down ih => rw [List.cons_append, Path.walk?_up_cons, ih h]
  | case5 levels down s segs hhere hup ih =>
    rw [Path.walk?_name hhere hup, ← List.cons_append, ih h]

theorem walk?_eq_split (dir : List Text) (spec : Text) :
    Path.walk? dir (Path.segments spec) =
      if (split spec).1 ≤ dir.length then some ((split spec).2.reverse ++ dir.drop (split spec).1)
      else none := by
  have hwalk : Path.walk? ([] ++ dir.drop 0) (Path.segments spec) = _ :=
    walk?_splitFrom (Nat.zero_le _)
  exact hwalk

theorem clampedWalk_eq_splitFrom (levels : Nat) (down segs : List Text) :
    Path.clampedWalk down segs = (splitFrom levels down segs).2.reverse := by
  fun_induction splitFrom levels down segs with
  | case1 levels down => rw [Path.clampedWalk, List.reverse_reverse]
  | case2 levels down segs ih => rw [Path.clampedWalk, if_pos rfl, ih]
  | case3 levels segs _ ih =>
    rw [Path.clampedWalk, if_neg (by decide), if_pos rfl, List.tail_nil, ih]
  | case4 levels segs _ s down ih =>
    rw [Path.clampedWalk, if_neg (by decide), if_pos rfl, List.tail_cons, ih]
  | case5 levels down s segs hhere hup ih => rw [Path.clampedWalk, if_neg hhere, if_neg hup, ih]

/-- The descent of a specifier is its normal form from the root. -/
theorem split_snd (spec : Text) : (split spec).2 = Path.normal spec := by
  rw [Path.normal, clampedWalk_eq_splitFrom 0, List.reverse_reverse, split]

/-! ## Locations -/

/-- The location that a specifier leads to from the directory of the file `importer`. -/
def location? (importer spec : Text) : Option (List Text) :=
  (Path.segments importer).reverse.tail?.bind fun dir =>
    (Path.walk? dir (Path.segments spec)).map List.reverse

theorem location?_eq (h : Path.segments importer = dir ++ [name]) :
    location? importer spec =
      if (split spec).1 ≤ dir.length then
        some (dir.take (dir.length - (split spec).1) ++ (split spec).2)
      else none := by
  unfold location?
  rw [h, List.reverse_concat, List.tail?_cons, Option.bind_some, walk?_eq_split,
    List.length_reverse]
  split
  · simp [List.drop_reverse]
  · rfl

theorem relative_eq (spec importer : Text) :
    Probe.relative spec importer =
      ⟨Path.ofSegments (split spec).2, (location? importer spec).map Path.ofSegments⟩ := by
  unfold Probe.relative ascent
  rcases List.eq_nil_or_concat' (Path.segments importer) with hnil | ⟨dir, name, hsegs⟩
  · simp [location?, hnil]
  · rw [location?_eq hsegs, hsegs]
    simp only [List.length_append, List.length_singleton, Nat.add_le_add_iff_right]
    split
    · next hle =>
      have htake : (dir ++ [name]).take (dir.length + 1 - ((split spec).1 + 1)) =
          dir.take (dir.length - (split spec).1) := by
        rw [Nat.add_sub_add_right, List.take_append_of_le_length (Nat.sub_le _ _)]
      rw [htake]
      rfl
    · rfl

/-- A location ends with the descent of the specifier, below a part of the directory. -/
theorem location?_append (h : location? importer spec = some location) :
    ∃ front, location = front ++ (split spec).2 ∧ front <+: (Path.segments importer).dropLast := by
  rcases List.eq_nil_or_concat' (Path.segments importer) with hnil | ⟨dir, name, hsegs⟩
  · simp [location?, hnil] at h
  · rw [location?_eq hsegs] at h
    split at h
    · cases h
      refine ⟨_, rfl, ?_⟩
      rw [hsegs, List.dropLast_concat]
      exact List.take_prefix _ _
    · cases h

/-! ## Specifiers made for a location -/

theorem take_commonLength (as bs : List Text) :
    as.take (commonLength as bs) = bs.take (commonLength as bs) := by
  fun_induction commonLength as bs with
  | case1 as b bs ih => rw [List.take_succ_cons, List.take_succ_cons, ih]
  | case2 => rfl
  | case3 => rfl

theorem commonLength_le (as bs : List Text) : commonLength as bs ≤ as.length := by
  fun_induction commonLength as bs with
  | case1 as b bs ih => exact Nat.succ_le_succ ih
  | case2 => exact Nat.zero_le _
  | case3 => exact Nat.zero_le _

theorem segments_times_up (n : Nat) (rest : Text) :
    Path.segments (Text.times n "../".toList ++ rest) =
      List.replicate n Path.up ++ Path.segments rest := by
  induction n with
  | zero => rfl
  | succ n ih =>
    have hcons : Text.times (n + 1) "../".toList ++ rest =
        Path.up ++ '/' :: (Text.times n "../".toList ++ rest) :=
      rfl
    rw [hcons, Path.segments_append, ih, Path.segments_of_isSegment (by decide)]
    rfl

/-- The specifier made for a location climbs to where the directory and the location part, and goes
on from there. -/
theorem segments_relativize (importer target : Text) :
    Path.segments (relativize importer target) =
      (if (Path.segments importer).dropLast.length =
            commonLength (Path.segments importer).dropLast (Path.segments target) then [Path.here]
        else List.replicate ((Path.segments importer).dropLast.length -
          commonLength (Path.segments importer).dropLast (Path.segments target)) Path.up) ++
        (Path.segments target).drop
          (commonLength (Path.segments importer).dropLast (Path.segments target)) := by
  unfold relativize
  dsimp only
  generalize commonLength (Path.segments importer).dropLast (Path.segments target) = common
  have hrest : Path.segments (Path.joined ((Path.segments target).drop common)) =
      (Path.segments target).drop common :=
    Path.segments_joined fun s hs => Path.isSegment_of_mem_segments (List.mem_of_mem_drop hs)
  split
  · have hhere : "./".toList ++ Path.joined ((Path.segments target).drop common) =
        Path.here ++ '/' :: Path.joined ((Path.segments target).drop common) := rfl
    rw [hhere, Path.segments_append, hrest, Path.segments_of_isSegment (by decide)]
  · rw [segments_times_up, hrest]

/-- Where the directory and the target part, the rest of the target goes on as from the root. -/
theorem walk?_fork (h : ∀ s ∈ dir, s ≠ Path.here ∧ s ≠ Path.up) (segs : List Text) :
    Path.walk? (dir.take (commonLength dir segs)).reverse (segs.drop (commonLength dir segs)) =
      Path.walk? [] segs := by
  have hnames : Path.walk? [] (dir.take (commonLength dir segs)) =
      some (dir.take (commonLength dir segs)).reverse := by
    rw [Path.walk?_of_names fun s hs => h s (List.mem_of_mem_take hs), List.append_nil]
  conv_rhs =>
    rw [← List.take_append_drop (commonLength dir segs) segs, ← take_commonLength,
      Path.walk?_append, hnames]
  rfl

theorem walk?_relativize
    (h : ∀ s ∈ (Path.segments importer).dropLast, s ≠ Path.here ∧ s ≠ Path.up) :
    Path.walk? (Path.segments importer).dropLast.reverse
      (Path.segments (relativize importer target)) =
      Path.walk? [] (Path.segments target) := by
  rw [segments_relativize, ← walk?_fork h]
  have hle := commonLength_le (Path.segments importer).dropLast (Path.segments target)
  split
  · next hall =>
    rw [List.singleton_append, Path.walk?_here, List.take_of_length_le (Nat.le_of_eq hall)]
  · rw [Path.walk?_append, Path.walk?_replicate_up (by simp), Option.bind_some, List.drop_reverse,
      Nat.sub_sub_self hle]

/-- A walk that climbs above the root may start where the directory and the target part. -/
theorem clampedWalk_fork (h : ∀ s ∈ dir, s ≠ Path.here ∧ s ≠ Path.up)
    (hnone : Path.walk? [] segs = none) :
    Path.clampedWalk [] (segs.drop (commonLength dir segs)) = Path.clampedWalk [] segs := by
  have hnames : ∀ s ∈ dir.take (commonLength dir segs), s ≠ Path.here ∧ s ≠ Path.up :=
    fun s hs => h s (List.mem_of_mem_take hs)
  have hfork : Path.walk? ([] ++ (dir.take (commonLength dir segs)).reverse)
      (segs.drop (commonLength dir segs)) =
      none :=
    (walk?_fork h segs).trans hnone
  conv_rhs =>
    rw [← List.take_append_drop (commonLength dir segs) segs, ← take_commonLength,
      Path.clampedWalk_append, Path.clampedWalk_of_names hnames, List.append_nil]
  exact (Path.clampedWalk_of_walk?_eq_none hfork).symm

/-- A target that climbs above the root leaves the same descent from every file. -/
theorem split_relativize (h : ∀ s ∈ (Path.segments importer).dropLast, s ≠ Path.here ∧ s ≠ Path.up)
    (hnone : Path.fromRoot? target = none) :
    (split (relativize importer target)).2 = Path.normal target := by
  rw [split_snd, Path.normal, Path.normal, segments_relativize,
    ← clampedWalk_fork h (Option.map_eq_none_iff.1 hnone)]
  split
  · rw [List.singleton_append, Path.clampedWalk, if_pos rfl]
  · rw [Path.clampedWalk_replicate_up]

/-- **From every file the specifier made for a location leads there**, unless the way from the root
to it climbs above the root. -/
theorem location?_relativize (hne : Path.segments importer ≠ [])
    (h : ∀ s ∈ (Path.segments importer).dropLast, s ≠ Path.here ∧ s ≠ Path.up) :
    location? importer (relativize importer target) = Path.fromRoot? target := by
  obtain ⟨dir, name, hsegs⟩ := (List.eq_nil_or_concat' (Path.segments importer)).resolve_left hne
  have hwalk : Path.walk? _ (Path.segments (relativize importer target)) = _ := walk?_relativize h
  rw [hsegs, List.dropLast_concat] at hwalk
  unfold location? Path.fromRoot?
  rw [hsegs, List.reverse_concat, List.tail?_cons, Option.bind_some, hwalk]

end Specifier

theorem Path.Direct.location?_relativize {importer : Text} (h : Path.Direct importer)
    (target : Text) :
    Specifier.location? importer (Specifier.relativize importer target) = Path.fromRoot? target :=
  Specifier.location?_relativize h.ne_nil fun s hs => h.names s (List.dropLast_subset _ hs)

end Unreached

import Unreached.Proofs.LinkFree
import Unreached.Proofs.Substitution
import Unreached.Report.Basic

/-!
# Displayed paths lead to the files

* `Path.stepsBetween`, `Path.between?_eq` : the path between two absolute paths climbs to where they
  part and descends from there;
* `Path.clampedWalk_stepsBetween` : these steps lead from the one to the other, if the one has no
  segment that climbs;
* `Path.follow`, `displayPath_leads` : what is displayed for a file leads to it from the working
  directory.
-/

namespace Unreached

set_option autoImplicit false

namespace Path
open Component

variable {path : Text} {target base : List Component}

/-! ## Absolute paths -/

/-- The components of an absolute path after the root lead to the place of the path. -/
theorem components_of_isAbsolute (h : isAbsolute path = true) :
    ∃ body, components path = .root :: body ∧ (∀ c ∈ body, c.Plain) ∧
      normal path = (clampedWalk [] (body.map segment)).reverse := by
  refine ⟨((segments path).filter (· ≠ here)).map ofSegment, ?_,
    fun _ => plain_of_mem_map_ofSegment, ?_⟩
  · rw [components_eq, (lead_eq_root_iff path).2 h]
    rfl
  · rw [map_segment_ofSegment, clampedWalk_filter, normal]

theorem head?_components (path : Text) :
    (components path).head? = some .root ↔ isAbsolute path = true := by
  constructor
  · intro h
    rw [← lead_eq_root_iff]
    rw [components_eq] at h
    have hlead := lead_mem_leads path
    simp only [leads, List.mem_cons, List.not_mem_nil, or_false] at hlead
    rcases hlead with hlead | hlead | hlead
    · rw [hlead, List.nil_append] at h
      exact (plain_of_mem_map_ofSegment (List.mem_of_head? h)).elim
    · exact hlead
    · rw [hlead] at h
      cases h
  · intro h
    obtain ⟨body, hbody, -⟩ := components_of_isAbsolute h
    rw [hbody]
    rfl

/-! ## Where two paths part -/

theorem exists_common (target base : List Component) :
    ∃ common down ups, afterCommon target base = (down, ups) ∧ target = common ++ down ∧
      base = common ++ ups := by
  fun_induction afterCommon target base with
  | case1 target b base ih =>
    obtain ⟨common, down, ups, heq, rfl, rfl⟩ := ih
    exact ⟨b :: common, down, ups, heq, rfl, rfl⟩
  | case2 t target b base => exact ⟨[], t :: target, b :: base, rfl, rfl, rfl⟩
  | case3 target base => exact ⟨[], target, base, rfl, rfl, rfl⟩

theorem afterCommon_self (cs : List Component) : afterCommon cs cs = ([], []) := by
  induction cs with
  | nil => rfl
  | cons c cs ih => rw [afterCommon, if_pos rfl, ih]

/-- The segments that lead from `base` to `target`, both below the root. -/
def stepsBetween (target base : List Component) : List Text :=
  let (down, ups) := afterCommon target base
  List.replicate ups.length up ++ down.map segment

theorem stepsBetween_eq_nil_iff : stepsBetween target base = [] ↔ target = base := by
  constructor
  · intro h
    obtain ⟨common, down, ups, heq, rfl, rfl⟩ := exists_common target base
    rw [stepsBetween, heq] at h
    obtain ⟨hups, hdown⟩ := List.append_eq_nil_iff.1 h
    rw [List.map_eq_nil_iff.1 hdown,
      List.length_eq_zero_iff.1 ((List.replicate_eq_nil_iff _).1 hups)]
  · rintro rfl
    rw [stepsBetween, afterCommon_self]
    rfl

theorem of_mem_stepsBetween {s : Text} (hplain : ∀ c ∈ target, c.Plain)
    (h : s ∈ stepsBetween target base) : IsSegment s ∧ s ≠ here := by
  obtain ⟨common, down, ups, heq, rfl, rfl⟩ := exists_common target base
  rw [stepsBetween, heq] at h
  rcases List.mem_append.1 h with h | h
  · rw [List.eq_of_mem_replicate h]
    exact ⟨⟨by decide, by decide⟩, by decide⟩
  · obtain ⟨c, hc, rfl⟩ := List.mem_map.1 h
    have hc := hplain c (List.mem_append_right common hc)
    exact ⟨hc.isSegment, hc.segment_ne_here⟩

/-- The relative path that takes the given steps. -/
def ofSteps (steps : List Text) : Text := if steps = [] then here else joined steps

/-- The path between two absolute paths takes the steps between their components. -/
theorem between?_eq {file dir : Text} (hfile : components file = .root :: target)
    (hplain : ∀ c ∈ target, c.Plain) (hdir : components dir = .root :: base) :
    between? file dir = some (ofSteps (stepsBetween target base)) := by
  have hroot : afterCommon (.root :: target) (.root :: base) = afterCommon target base := by
    rw [afterCommon, if_pos rfl]
  obtain ⟨common, down, ups, heq, rfl, rfl⟩ := exists_common target base
  have hfilter : (down.map segment).filter (fun s => !s.isEmpty && s ≠ here) =
      down.map segment := by
    refine List.filter_eq_self.2 fun s hs => ?_
    obtain ⟨c, hc, rfl⟩ := List.mem_map.1 hs
    have hc := hplain c (List.mem_append_right common hc)
    simp [hc.segment_ne_here, hc.isSegment.1]
  unfold between? stepsBetween ofSteps
  dsimp only
  rw [hfile, hdir, if_neg (by simp), hroot, heq]
  simp only [hfilter, List.map_const', List.isEmpty_iff]

/-! ## Following the way -/

theorem clampedWalk_climb (above stack : List Text) :
    clampedWalk (above ++ stack) (List.replicate above.length up) = stack := by
  induction above with
  | nil => rfl
  | cons s above ih =>
    rw [List.length_cons, List.replicate_succ, clampedWalk, if_neg (by decide), if_pos rfl]
    exact ih

/-- The way from a place that was reached without climbing leads to the target. -/
theorem clampedWalk_stepsBetween (hbase : ∀ c ∈ base, ∃ t, c = .name t ∧ IsName t) :
    clampedWalk (clampedWalk [] (base.map segment)) (stepsBetween target base) =
      clampedWalk [] (target.map segment) := by
  obtain ⟨common, down, ups, heq, rfl, rfl⟩ := exists_common target base
  have hnames : ∀ s ∈ ups.map segment, s ≠ here ∧ s ≠ up := by
    intro s hs
    obtain ⟨c, hc, rfl⟩ := List.mem_map.1 hs
    obtain ⟨t, rfl, ht⟩ := hbase c (List.mem_append_right common hc)
    exact ht.2
  have hlength : ups.length = (ups.map segment).reverse.length := by simp
  -- the steps up undo what `base` descends after the common part
  have hups : clampedWalk (clampedWalk [] ((common ++ ups).map segment))
      (List.replicate ups.length up) =
      clampedWalk [] (common.map segment) := by
    rw [List.map_append, clampedWalk_append, clampedWalk_of_names hnames, hlength]
    exact clampedWalk_climb _ _
  rw [stepsBetween, heq]
  dsimp only
  rw [clampedWalk_append, hups, ← clampedWalk_append, ← List.map_append]

theorem ofSteps_ne_nil {way : List Text} (h : ∀ s ∈ way, IsSegment s) : ofSteps way ≠ [] := by
  unfold ofSteps
  split
  · decide
  · next hne =>
    intro hnil
    have hsegments := segments_joined h
    rw [hnil] at hsegments
    exact hne hsegments.symm

theorem ofSteps_eq_here_iff {way : List Text} (h : ∀ s ∈ way, IsSegment s ∧ s ≠ here) :
    ofSteps way = here ↔ way = [] := by
  constructor
  · intro hhere
    by_contra hne
    rw [ofSteps, if_neg hne] at hhere
    have hsegments := segments_joined fun s hs => (h s hs).1
    rw [hhere] at hsegments
    exact (h here (hsegments ▸ List.mem_singleton_self here)).2 rfl
  · rintro rfl
    rfl

theorem clampedWalk_ofSteps {way : List Text} (h : ∀ s ∈ way, IsSegment s) (stack : List Text) :
    clampedWalk stack (segments (ofSteps way)) = clampedWalk stack way := by
  unfold ofSteps
  split
  · next hnil =>
    rw [hnil]
    rfl
  · rw [segments_joined h]

/-- The segments of the place that a path leads to from a directory. A climb above the root stays at
the root. -/
def follow (dir path : Text) : List Text :=
  (clampedWalk (normal dir).reverse (segments path)).reverse

/-- Whether a relative path, read from a directory, stands for an absolute path. -/
structure StandsFor (dir path file : Text) : Prop where
  leads : follow dir path = normal file
  ne_nil : path ≠ []
  eq_here_iff : path = here ↔ components file = components dir

/-- **The path between two absolute paths leads from the one to the other**, if the one only
descends. -/
theorem exists_between? {file dir : Text} (hfile : isAbsolute file = true)
    (hdir : isAbsolute dir = true) (hnames : ∀ c ∈ (components dir).tail, ∃ t, c = .name t) :
    ∃ path, between? file dir = some path ∧ StandsFor dir path file := by
  obtain ⟨target, htarget, hplain, hnormal⟩ := components_of_isAbsolute hfile
  obtain ⟨base, hbase, hplain', hnormal'⟩ := components_of_isAbsolute hdir
  have hsteps : ∀ s ∈ stepsBetween target base, IsSegment s ∧ s ≠ here :=
    fun s => of_mem_stepsBetween hplain
  have hdescends : ∀ c ∈ base, ∃ t, c = .name t ∧ IsName t := by
    intro c hc
    rw [hbase] at hnames
    obtain ⟨t, rfl⟩ := hnames c hc
    exact ⟨t, rfl, hplain' _ hc⟩
  refine ⟨_, between?_eq htarget hplain hbase, ?_, ofSteps_ne_nil fun s hs => (hsteps s hs).1, ?_⟩
  · rw [follow, clampedWalk_ofSteps fun s hs => (hsteps s hs).1, hnormal', List.reverse_reverse,
      clampedWalk_stepsBetween hdescends, hnormal]
  · rw [ofSteps_eq_here_iff hsteps, stepsBetween_eq_nil_iff, htarget, hbase, List.cons.injEq]
    simp

theorem between?_eq_none {file dir : Text} (hfile : isAbsolute file = false)
    (hdir : isAbsolute dir = true) : between? file dir = none := by
  have hhead : (components file).head? ≠ (components dir).head? := by
    rw [(head?_components dir).2 hdir]
    intro hhead
    rw [(head?_components file).1 hhead] at hfile
    cases hfile
  unfold between?
  dsimp only
  rw [if_pos hhead]

theorem isAbsolute_dropSlashes (path : Text) : isAbsolute (path.dropWhile (· = '/')) = false := by
  induction path with
  | nil => rfl
  | cons c path ih =>
    by_cases hc : c = '/'
    · rw [List.dropWhile_cons_of_pos (by simpa using hc), ih]
    · rw [List.dropWhile_cons_of_neg (by simpa using hc)]
      simp [isAbsolute, Text.startsWith, List.isPrefixOf, Ne.symm hc]

end Path

/-- **What is displayed for a file leads to it from the working directory.** -/
theorem displayPath_leads (root path : Text) {cwd : Text} (hcwd : Path.isAbsolute cwd = true) :
    Path.segments (Path.join root (path.dropWhile (· = '/'))) =
      Path.segments root ++ Path.segments path ∧
      (Path.isAbsolute root = true → (∀ c ∈ (Path.components cwd).tail, ∃ t, c = .name t) →
        Path.StandsFor cwd (displayPath (some cwd) root path)
          (Path.join root (path.dropWhile (· = '/')))) ∧
      (Path.isAbsolute root = false → displayPath (some cwd) root path = path) ∧
      displayPath none root path = path := by
  have hrelative := Path.isAbsolute_dropSlashes path
  have hjoin := Path.isAbsolute_join root hrelative
  refine ⟨?_, fun hroot hnames => ?_, fun hroot => ?_, rfl⟩
  · rw [Path.segments_join root hrelative, Path.segments_dropSlashes]
  · obtain ⟨shown, hshown, hstands⟩ := Path.exists_between? (hjoin.trans hroot) hcwd hnames
    rwa [displayPath, hshown]
  · rw [displayPath, Path.between?_eq_none (hjoin.trans hroot) hcwd]
    rfl

/-! ### A root that climbs -/

def climbingRoot : Text := "/work/../p".toList

def webDir : Text := "/p/web".toList

theorem displayPath_leads_climbingRoot :
    displayPath (some webDir) climbingRoot "/lib/a.ts".toList = "../../work/../p/lib/a.ts".toList ∧
      Path.StandsFor webDir "../../work/../p/lib/a.ts".toList "/work/../p/lib/a.ts".toList ∧
      displayPath (some webDir) ['p'] "/lib/a.ts".toList = "/lib/a.ts".toList := by
  have hcwd : Path.isAbsolute webDir = true := by decide
  have hroot : Path.isAbsolute climbingRoot = true := by decide
  have hnames : ∀ c ∈ (Path.components webDir).tail, ∃ t, c = .name t := by
    have htail : (Path.components webDir).tail = [.name ['p'], .name "web".toList] := by decide
    simp [htail]
  have hshown : displayPath (some webDir) climbingRoot "/lib/a.ts".toList =
      "../../work/../p/lib/a.ts".toList := by
    decide
  have hfile : Path.join climbingRoot ("/lib/a.ts".toList.dropWhile (· = '/')) =
      "/work/../p/lib/a.ts".toList := by
    decide
  have hstands := (displayPath_leads climbingRoot "/lib/a.ts".toList hcwd).2.1 hroot hnames
  rw [hshown, hfile] at hstands
  exact ⟨hshown, hstands, (displayPath_leads ['p'] "/lib/a.ts".toList hcwd).2.2.1 (by decide)⟩

end Unreached

import Mathlib.Data.List.Basic
import Unreached.Path.Components

/-!
# Segments and components of paths

* `Path.IsSegment`, `Path.IsName` : the texts between slashes, and those of them that name a file;
* `Path.segments_joined`, `Path.segments_ofSegments` : a path gives back the segments that it was
  put together from;
* `Path.lead`, `Path.components_eq` : the components of a path are its start and its segments but
  for those that change nothing, and the path made of them gives them back
  (`Path.components_ofComponents`);
* `Path.ancestors_ofComponents`, `Path.parent?_eq` : dropping the last component leads to the
  parent, which is the first of the ancestors.
-/

namespace Unreached.Path

set_option autoImplicit false

variable {path s name : Text} {segs : List Text}

/-! ## Segments -/

/-- Whether a text can stand between slashes. -/
def IsSegment (s : Text) : Prop := s ≠ [] ∧ '/' ∉ s

/-- Whether a text can be the name of a file. -/
def IsName (s : Text) : Prop := IsSegment s ∧ s ≠ here ∧ s ≠ up

instance : DecidablePred IsSegment := fun s => inferInstanceAs (Decidable (s ≠ [] ∧ '/' ∉ s))

instance : DecidablePred IsName :=
  fun s => inferInstanceAs (Decidable (IsSegment s ∧ s ≠ here ∧ s ≠ up))

theorem isSegment_of_mem_segments (h : s ∈ segments path) : IsSegment s := by
  obtain ⟨hmem, hne⟩ := List.mem_filter.1 h
  exact ⟨by simpa using hne, Text.not_mem_of_mem_splitOn hmem⟩

theorem segments_append (path rest : Text) :
    segments (path ++ '/' :: rest) = segments path ++ segments rest := by
  unfold segments
  rw [List.splitOn_append_cons_self, List.filter_append]

theorem segments_cons (path : Text) : segments ('/' :: path) = segments path :=
  segments_append [] path

theorem segments_of_isSegment (h : IsSegment s) : segments s = [s] := by
  unfold segments
  rw [List.splitOn_eq_singleton h.2]
  simp [h.1]

theorem segments_joined (h : ∀ s ∈ segs, IsSegment s) : segments (joined segs) = segs := by
  induction segs with
  | nil => rfl
  | cons s segs ih =>
    obtain ⟨hs, hsegs⟩ := List.forall_mem_cons.1 h
    cases segs with
    | nil => exact segments_of_isSegment hs
    | cons t segs =>
      rw [joined, segments_append, segments_of_isSegment hs, ih hsegs, List.singleton_append]; simp

theorem segments_ofSegments (h : ∀ s ∈ segs, IsSegment s) : segments (ofSegments segs) = segs := by
  induction segs with
  | nil => rfl
  | cons s segs ih =>
    obtain ⟨hs, hsegs⟩ := List.forall_mem_cons.1 h
    have hcons : ofSegments (s :: segs) = '/' :: (s ++ ofSegments segs) := rfl
    cases segs with
    | nil =>
      rw [hcons, segments_cons, ofSegments, List.flatMap_nil, List.append_nil,
        segments_of_isSegment hs]
    | cons t segs =>
      have hrest : ofSegments (t :: segs) = '/' :: (t ++ ofSegments segs) := rfl
      have ih := ih hsegs
      rw [hrest, segments_cons] at ih
      rw [hcons, segments_cons, hrest, segments_append, segments_of_isSegment hs, ih,
        List.singleton_append]

theorem segments_concat_slash (path : Text) : segments (path ++ ['/']) = segments path :=
  (segments_append path []).trans (List.append_nil _)

/-- Two texts that meet at a slash have the segments of the one and then those of the other. -/
theorem segments_append_of_slash {path rest : Text}
    (h : path.endsWith ['/'] ∨ rest = [] ∨ rest.startsWith ['/']) :
    segments (path ++ rest) = segments path ++ segments rest := by
  rcases h with h | rfl | h
  · obtain ⟨front, rfl⟩ := List.isSuffixOf_iff_suffix.1 h
    rw [List.append_assoc, List.singleton_append, segments_append, segments_concat_slash]
  · simp [segments]
  · obtain ⟨rest', rfl⟩ := List.isPrefixOf_iff_prefix.1 h
    rw [List.singleton_append, segments_append, segments_cons]

theorem mem_joined {c : Char} (h : c ∈ joined segs) : c = '/' ∨ ∃ s ∈ segs, c ∈ s := by
  fun_induction joined segs with
  | case1 => cases h
  | case2 s => exact .inr ⟨s, List.mem_singleton_self s, h⟩
  | case3 s segs _ ih =>
    rcases List.mem_append.1 h with h | h
    · exact .inr ⟨s, List.mem_cons_self, h⟩
    · rcases List.mem_cons.1 h with h | h
      · exact .inl h
      · exact (ih h).imp_right fun ⟨t, ht, hc⟩ => ⟨t, List.mem_cons_of_mem _ ht, hc⟩

theorem isAbsolute_joined (h : ∀ s ∈ segs, IsSegment s) : isAbsolute (joined segs) = false := by
  cases segs with
  | nil => rfl
  | cons s segs =>
    obtain ⟨hs, -⟩ := List.forall_mem_cons.1 h
    obtain ⟨hne, hslash⟩ := hs
    obtain ⟨c, t, rfl⟩ := List.exists_cons_of_ne_nil hne
    have hc : '/' ≠ c := fun heq => hslash (heq ▸ List.mem_cons_self)
    cases segs <;> simp [joined, isAbsolute, Text.startsWith, List.isPrefixOf, hc]

/-! ## Components -/

namespace Component

/-- Whether a component may stand anywhere in a path. -/
def Plain : Component → Prop
  | .up => True
  | .name t => IsName t
  | _ => False

variable {c : Component}

theorem Plain.ofSegment_segment (h : c.Plain) : ofSegment c.segment = c := by
  cases c with
  | up => rfl
  | name t => simp [ofSegment, segment, h.2.1, h.2.2]
  | root => cases h
  | here => cases h

theorem Plain.isSegment (h : c.Plain) : IsSegment c.segment := by
  cases c with
  | up => exact ⟨by decide, by decide⟩
  | name t => exact h.1
  | root => cases h
  | here => cases h

theorem Plain.segment_ne_here (h : c.Plain) : c.segment ≠ Path.here := by
  cases c with
  | up => decide
  | name t => exact h.2.1
  | root => cases h
  | here => cases h

theorem plain_ofSegment (h : IsSegment s) (hs : s ≠ Path.here) : (ofSegment s).Plain := by
  unfold ofSegment
  rw [if_neg hs]
  split
  · trivial
  · next hup => exact ⟨h, hs, hup⟩

theorem segment_ofSegment (s : Text) : (ofSegment s).segment = s := by
  unfold ofSegment
  split
  · next h => exact h.symm
  · split
    · next h => exact h.symm
    · rfl

end Component

open Component

/-- The ways in which the components of a path can start. -/
def leads : List (List Component) := [[], [.root], [.here]]

/-- What the components of a path start with before those that may stand anywhere. -/
def lead (path : Text) : List Component :=
  if isAbsolute path then [.root] else if (segments path).head? = some here then [.here] else []

variable {front body : List Component} {c : Component}

theorem lead_mem_leads (path : Text) : lead path ∈ leads := by
  unfold lead
  split
  · simp [leads]
  · split <;> simp [leads]

theorem lead_eq_root_iff (path : Text) : lead path = [.root] ↔ isAbsolute path = true := by
  unfold lead
  split
  · simp_all
  · split <;> simp_all

theorem filter_map_ofSegment (segs : List Text) :
    (segs.map ofSegment).filter (· ≠ .here) = (segs.filter (· ≠ here)).map ofSegment := by
  rw [List.filter_map]
  refine congrArg (List.map ofSegment) (List.filter_congr fun s _ => ?_)
  have hiff : ofSegment s = .here ↔ s = here := by
    unfold ofSegment
    split
    · simp_all
    · next h =>
      refine ⟨fun heq => ?_, fun heq => absurd heq h⟩
      split at heq <;> cases heq
  simp [hiff]

/-- The components of a path are its segments without those that change nothing. -/
theorem components_eq (path : Text) :
    components path = lead path ++ ((segments path).filter (· ≠ here)).map ofSegment := by
  unfold components lead
  dsimp only
  split
  · rw [filter_map_ofSegment]
    rfl
  · cases hsegs : segments path with
    | nil => rfl
    | cons s segs =>
      by_cases hs : s = here
      · subst hs
        have hhere : ofSegment here = .here := rfl
        simp only [List.map_cons, hhere, List.head?_cons, if_true, filter_map_ofSegment]
        rfl
      · have hne : ofSegment s ≠ .here := by
          unfold ofSegment
          rw [if_neg hs]
          split <;> simp
        rw [List.head?_cons, if_neg (by simpa using hs), List.nil_append, ← filter_map_ofSegment,
          List.map_cons]
        split
        · next heq =>
          injection heq with heq
          exact absurd heq hne
        · rfl

theorem plain_of_mem_map_ofSegment (h : c ∈ ((segments path).filter (· ≠ here)).map ofSegment) :
    c.Plain := by
  obtain ⟨s, hs, rfl⟩ := List.mem_map.1 h
  obtain ⟨hmem, hne⟩ := List.mem_filter.1 hs
  exact plain_ofSegment (isSegment_of_mem_segments hmem) (by simpa using hne)

theorem map_segment_ofSegment (segs : List Text) : (segs.map ofSegment).map segment = segs := by
  simp [Function.comp_def, segment_ofSegment]

theorem map_ofSegment_segment (h : ∀ c ∈ body, c.Plain) :
    (body.map segment).map ofSegment = body := by
  rw [List.map_map]
  conv_rhs => rw [← List.map_id body]
  exact List.map_congr_left fun c hc => (h c hc).ofSegment_segment

theorem isSegment_of_mem_map (h : ∀ c ∈ body, c.Plain) : ∀ s ∈ body.map segment, IsSegment s := by
  intro s hs
  obtain ⟨c, hc, rfl⟩ := List.mem_map.1 hs
  exact (h c hc).isSegment

theorem filter_map_segment (h : ∀ c ∈ body, c.Plain) :
    (body.map segment).filter (· ≠ here) = body.map segment := by
  refine List.filter_eq_self.2 fun s hs => ?_
  obtain ⟨c, hc, rfl⟩ := List.mem_map.1 hs
  simpa using (h c hc).segment_ne_here

/-- The text of components, by how these start. -/
theorem ofComponents_append (hfront : front ∈ leads) (hbody : ∀ c ∈ body, c.Plain) :
    ofComponents (front ++ body) =
      if front = [.root] then '/' :: joined (body.map segment)
      else joined ((front ++ body).map segment) := by
  simp only [leads, List.mem_cons, List.not_mem_nil, or_false] at hfront
  rcases hfront with rfl | rfl | rfl
  · cases body with
    | nil => rfl
    | cons c body =>
      have hc := hbody c List.mem_cons_self
      cases c with
      | root => cases hc
      | here => cases hc
      | up => rfl
      | name t => rfl
  · rfl
  · rfl

theorem isAbsolute_ofComponents (hfront : front ∈ leads) (hbody : ∀ c ∈ body, c.Plain) :
    isAbsolute (ofComponents (front ++ body)) = decide (front = [.root]) := by
  rw [ofComponents_append hfront hbody]
  simp only [leads, List.mem_cons, List.not_mem_nil, or_false] at hfront
  rcases hfront with rfl | rfl | rfl
  · exact isAbsolute_joined (isSegment_of_mem_map hbody)
  · rfl
  · refine isAbsolute_joined fun s hs => ?_
    rcases List.mem_cons.1 hs with rfl | hs
    · exact ⟨by decide, by decide⟩
    · exact isSegment_of_mem_map hbody s hs

theorem segments_ofComponents (hfront : front ∈ leads) (hbody : ∀ c ∈ body, c.Plain) :
    segments (ofComponents (front ++ body)) =
      (if front = [.here] then [here] else []) ++ body.map segment := by
  have hsegs := isSegment_of_mem_map hbody
  rw [ofComponents_append hfront hbody]
  simp only [leads, List.mem_cons, List.not_mem_nil, or_false] at hfront
  rcases hfront with rfl | rfl | rfl
  · exact segments_joined hsegs
  · exact (segments_cons _).trans (segments_joined hsegs)
  · have hcons : ∀ s ∈ here :: body.map segment, IsSegment s :=
      List.forall_mem_cons.2 ⟨⟨by decide, by decide⟩, hsegs⟩
    exact segments_joined hcons

theorem filter_segments_ofComponents (hfront : front ∈ leads) (hbody : ∀ c ∈ body, c.Plain) :
    (segments (ofComponents (front ++ body))).filter (· ≠ here) = body.map segment := by
  have hhere :
      (if front = [.here] then [here] else []).filter (fun s : Text => decide (s ≠ here)) = [] := by
    split <;> simp
  rw [segments_ofComponents hfront hbody, List.filter_append, hhere, List.nil_append,
    filter_map_segment hbody]

theorem lead_ofComponents (hfront : front ∈ leads) (hbody : ∀ c ∈ body, c.Plain) :
    lead (ofComponents (front ++ body)) = front := by
  unfold lead
  rw [isAbsolute_ofComponents hfront hbody, segments_ofComponents hfront hbody]
  simp only [leads, List.mem_cons, List.not_mem_nil, or_false] at hfront
  rcases hfront with rfl | rfl | rfl
  · cases body with
    | nil => rfl
    | cons c body =>
      have hc := (hbody c List.mem_cons_self).segment_ne_here
      simp [hc]
  · rfl
  · rfl

/-- **A path made of components has these components.** -/
theorem components_ofComponents (hfront : front ∈ leads) (hbody : ∀ c ∈ body, c.Plain) :
    components (ofComponents (front ++ body)) = front ++ body := by
  rw [components_eq, lead_ofComponents hfront hbody, filter_segments_ofComponents hfront hbody,
    map_ofSegment_segment hbody]

theorem properAncestors_cons (hc : c.Plain) (cs : List Component) :
    properAncestors (c :: cs) = ofComponents cs.reverse :: properAncestors cs := by
  cases c with
  | root => cases hc
  | here => cases hc
  | up => cases cs <;> rfl
  | name t => cases cs <;> rfl

theorem ancestors_ofComponents (hfront : front ∈ leads) (hbody : ∀ c ∈ body, c.Plain)
    (hc : c.Plain) :
    ancestors (ofComponents (front ++ (body ++ [c]))) =
      ofComponents (front ++ body) :: ancestors (ofComponents (front ++ body)) := by
  have hall : ∀ d ∈ body ++ [c], d.Plain := by
    intro d hd
    rcases List.mem_append.1 hd with hd | hd
    · exact hbody d hd
    · exact List.mem_singleton.1 hd ▸ hc
  unfold ancestors
  rw [components_ofComponents hfront hall, components_ofComponents hfront hbody,
    ← List.append_assoc, List.reverse_concat, properAncestors_cons hc, List.reverse_reverse]

theorem parent?_of_components (hc : c.Plain) {cs : List Component}
    (h : components path = cs ++ [c]) : parent? path = some (ofComponents cs) := by
  unfold parent?
  rw [h, List.reverse_concat, ← List.reverse_reverse cs]
  generalize cs.reverse = rest
  cases c with
  | root => cases hc
  | here => cases hc
  | up => cases rest <;> simp
  | name t => cases rest <;> simp

/-- The parent of a path whose last segment is a name. -/
theorem parent?_eq (h : segments path = segs ++ [name]) (hname : name ≠ here) :
    parent? path = some (ofComponents (lead path ++ (segs.filter (· ≠ here)).map ofSegment)) := by
  have hsegment : IsSegment name :=
    isSegment_of_mem_segments (h ▸ List.mem_append_right _ (List.mem_singleton_self _))
  refine parent?_of_components (plain_ofSegment hsegment hname) ?_
  rw [components_eq, h, List.filter_append, List.map_append, List.append_assoc]
  simp [hname]

end Unreached.Path

import Mathlib.Data.Finset.Card
import Mathlib.Data.Nat.Find
import Unreached.Proofs.Union

/-!
# Traversals under a deadline

A traversal that runs out of time gives no part of an answer.

* `Deadline.passed` : what the checks of a deadline find, one after the other. Every clock that does
  not run backwards is one (`Deadline.exists_passed_eq`);
* `Engine.reachableFrom_of_not_lasts` : where the deadline passes, the number of files expanded in
  one context;
* `Engine.race` : traversals at the same time, which meet the deadline and the memory each in its
  own way;
* `Engine.reachable_whole_or_exceeded` : several entries give all that they reach or the failure,
  and in one context the failure comes exactly if the deadline passes at one of the files to expand.
-/

namespace Unreached

set_option autoImplicit false

open Relation (ReflTransGen TransGen)

/-! ## Clocks -/

namespace Deadline

/-- Whether the check with the given number, counted from zero, finds the deadline passed. -/
def passed : Deadline → Nat → Bool
  | d, 0 => d.check?.isNone
  | d, i + 1 => match d.check? with
    | none => true
    | some d' => passed d' i

theorem passed_never (i : Nat) : passed .never i = false := by
  induction i with
  | zero => rfl
  | succ i ih => exact ih

theorem passed_after (n i : Nat) : passed (.after n) i = decide (n ≤ i) := by
  induction i generalizing n with
  | zero => cases n <;> simp [passed, check?]
  | succ i ih =>
    cases n with
    | zero => simp [passed, check?]
    | succ n => simp [passed, check?, ih]

/-- A clock that stays past once it is past is told by the number of checks before that. -/
theorem exists_passed_eq {clock : Nat → Bool} (h : Monotone clock) :
    ∃ d : Deadline, ∀ i, d.passed i = clock i := by
  by_cases hpast : ∃ i, clock i = true
  · refine ⟨.after (Nat.find hpast), fun i => ?_⟩
    rw [passed_after, Bool.eq_iff_iff, decide_eq_true_iff]
    constructor
    · intro hi
      exact h hi (Nat.find_spec hpast)
    · exact Nat.find_min' hpast
  · refine ⟨.never, fun i => ?_⟩
    rw [passed_never]
    exact (Bool.eq_false_iff.2 fun hi => hpast ⟨i, hi⟩).symm

theorem eq_after_of_passed {d : Deadline} {k : Nat} (hk : d.passed k = true)
    (hbefore : ∀ i < k, d.passed i = false) : d = .after k := by
  cases d with
  | never =>
    rw [passed_never] at hk
    cases hk
  | after n =>
    have hle : n ≤ k := by simpa [passed_after] using hk
    have hge : ¬n < k := by
      intro hlt
      have hn := hbefore n hlt
      simp [passed_after] at hn
    rw [show n = k by omega]

end Deadline

namespace Engine

variable {e : Engine} {sources : Sources} {reached : TextSet} {ctx : Context}
  {file target entry : Text} {entries : List Text} {deadline : Deadline}

/-! ## One context -/

theorem Closed.traverse (h : e.Closed sources ctx) (entry : Text) :
    e.Closed sources (ctx.expand (e.order sources ctx entry)) := by
  intro file hfile target htarget
  rw [Context.mem_visited_expand] at hfile ⊢
  by_cases hvisited : target ∈ ctx.visited
  · exact .inr hvisited
  · rcases hfile with hfile | hfile
    · have hpath := ((mem_order h).1 hfile).1
      exact .inl ((mem_order h).2 ⟨hpath.tail htarget, hvisited⟩)
    · exact absurd (h file hfile target htarget) hvisited

/-- What the traversals from all the entries expand beyond the files that were expanded before. -/
theorem mem_orders (h : e.Closed sources ctx) :
    file ∈ e.orders sources ctx entries ↔
      (∃ entry ∈ entries, ReflTransGen (e.Imports sources) entry file) ∧ file ∉ ctx.visited := by
  induction entries generalizing ctx with
  | nil => simp [orders]
  | cons entry entries ih =>
    rw [orders, List.mem_append, ih (h.traverse entry), Context.mem_visited_expand, mem_order h,
      List.exists_mem_cons_iff]
    tauto

theorem nodup_orders (h : e.Closed sources ctx) : (e.orders sources ctx entries).Nodup := by
  induction entries generalizing ctx with
  | nil => exact List.nodup_nil
  | cons entry entries ih =>
    rw [orders, List.nodup_append']
    refine ⟨nodup_order e sources ctx entry, ih (h.traverse entry), fun file hfile hrest => ?_⟩
    have hfresh := ((mem_orders (h.traverse entry)).1 hrest).2
    exact hfresh (Context.mem_visited_expand.2 (.inl hfile))

/-- **The deadline passes in one context**: all files that were expanded count, in whichever
traversal. -/
theorem reachableFrom_of_not_lasts {checks : Nat} (hdeadline : ctx.deadline = .after checks)
    (h : checks < (e.orders sources ctx entries).length) :
    (reachableFrom sources reached ctx e entries).1 = .error (ctx.expanded + checks + 1) := by
  induction entries generalizing reached ctx e checks with
  | nil => cases h
  | cons entry entries ih =>
    rw [orders, List.length_append] at h
    by_cases hfirst : (e.order sources ctx entry).length ≤ checks
    · have hlasts : ctx.deadline.Lasts (e.order sources ctx entry).length := by
        rw [hdeadline]
        exact hfirst
      have hgrows := grows_after e sources (e.order sources ctx entry)
      have hspent : (ctx.expand (e.order sources ctx entry)).deadline =
          .after (checks - (e.order sources ctx entry).length) := by
        unfold Context.expand
        rw [hdeadline]
        rfl
      have hexpanded : (ctx.expand (e.order sources ctx entry)).expanded =
          (e.order sources ctx entry).length + ctx.expanded := by
        simp [Context.expand, Context.expanded]
      rw [reachableFrom_cons hlasts, ih hspent, hexpanded]
      · congr 1
        omega
      · rw [hgrows.orders_eq]
        omega
    · have hstop : (e.traverse sources ctx entry).outcome = .error (ctx.expanded + checks + 1) :=
        explore_run_stop rfl hdeadline (by rw [← order]; omega)
      rw [reachableFrom, hstop]

/-! ## Traversals at the same time -/

/-- One of several traversals that run at the same time. Its own checks tell it when the deadline
passes, and the others may have read files before. -/
structure Racer where
  entry : Text
  deadline : Deadline
  engine : Engine

/-- What traversals that run at the same time reach together. The failure of one is a failure of
all. -/
def race (sources : Sources) (racers : List Racer) : Except Nat TextSet :=
  (racers.mapM fun (r : Racer) =>
    (r.engine.traverse sources { deadline := r.deadline } r.entry).outcome).map fun parts =>
    TextSet.ofList parts.flatten

/-- An outcome that is all of `union` or a failure. -/
def WholeOrExceeded (union : TextSet) (outcome : Except Nat TextSet) : Prop :=
  outcome = .ok union ∨ ∃ expanded, outcome = .error expanded

theorem traverse_fresh_cases (e : Engine) (sources : Sources) (deadline : Deadline) (entry : Text) :
    WholeOrExceeded (e.found sources {} entry) (e.traverse sources { deadline } entry).outcome := by
  by_cases h : deadline.Lasts (e.order sources {} entry).length
  · have htraverse : e.traverse sources { deadline } entry = _ := traverse_of_lasts h
    exact .inl (by rw [htraverse]; rfl)
  · have hctx : ¬Deadline.Lasts (Context.deadline { deadline })
        (e.order sources { deadline } entry).length :=
      h
    exact .inr (traverse_of_not_lasts hctx)

theorem race_cases {racers : List Racer} (h : ∀ r ∈ racers, Grows sources e r.engine) :
    WholeOrExceeded (TextSet.ofList ((racers.map (·.entry)).flatMap (e.found sources {})))
      (race sources racers) := by
  -- the parts of the racers are found or one of them fails
  have hparts :
      (racers.mapM fun (r : Racer) =>
          (r.engine.traverse sources { deadline := r.deadline } r.entry).outcome) =
        .ok ((racers.map (·.entry)).map (e.found sources {})) ∨
      ∃ expanded,
        (racers.mapM fun (r : Racer) =>
            (r.engine.traverse sources { deadline := r.deadline } r.entry).outcome) =
          .error expanded := by
    induction racers with
    | nil => exact .inl rfl
    | cons r racers ih =>
      obtain ⟨hr, hracers⟩ := List.forall_mem_cons.1 h
      rw [List.mapM_cons]
      rcases traverse_fresh_cases r.engine sources r.deadline r.entry with hfirst |
        ⟨expanded, hfirst⟩
      · rw [hfirst, hr.found_eq]
        rcases ih hracers with hrest | ⟨expanded, hrest⟩
        · rw [hrest]
          exact .inl rfl
        · rw [hrest]
          exact .inr ⟨expanded, rfl⟩
      · rw [hfirst]
        exact .inr ⟨expanded, rfl⟩
  unfold race
  rcases hparts with hparts | ⟨expanded, hparts⟩
  · rw [hparts, List.flatMap_def]
    exact .inl rfl
  · rw [hparts]
    exact .inr ⟨expanded, rfl⟩

/-! ## Whole answers -/

/-- The files that traversals in one fresh context expand are the entries and what these reach. -/
theorem length_orders_fresh :
    (e.orders sources { deadline } entries).length =
      (entries.toFinset ∪
        (TextSet.ofList (entries.flatMap (e.found sources {}))).toFinset).card := by
  have hclosed := closed_fresh e sources deadline
  rw [← List.toFinset_card_of_nodup (nodup_orders hclosed)]
  congr 1
  ext file
  rw [Finset.mem_union, List.mem_toFinset, List.mem_toFinset, List.mem_toFinset, mem_orders hclosed,
    mem_ofList_found]
  simp only [Relation.reflTransGen_iff_eq_or_transGen, and_or_left, exists_or]
  simp

theorem reachable_of_lasts (h : deadline.Lasts (e.orders sources { deadline } entries).length) :
    (e.reachable sources deadline entries).1 =
      .ok (TextSet.ofList (entries.flatMap (e.found sources {}))) := by
  obtain ⟨union, ctx, hunion, hcovers⟩ := reachableFrom_of_lasts (Covers.nil e sources deadline) h
  have heq : union = TextSet.ofList (entries.flatMap (e.found sources {})) := by
    refine hcovers.ascending.ext (TextSet.ascending_ofList _) fun target => ?_
    rw [hcovers.reached, mem_ofList_found]
    simp
  rw [← heq]
  exact hunion

theorem reachable_of_not_lasts {checks : Nat}
    (h : checks < (e.orders sources { deadline := .after checks } entries).length) :
    (e.reachable sources (.after checks) entries).1 = .error (checks + 1) := by
  have hrun : (e.reachable sources (.after checks) entries).1 = .error (0 + checks + 1) :=
    reachableFrom_of_not_lasts rfl h
  rw [hrun, Nat.zero_add]

theorem reachable_after (e : Engine) (sources : Sources) (entries : List Text) (k : Nat) :
    (e.reachable sources (.after k) entries).1 =
      if k + 1 ≤
        (entries.toFinset ∪ (TextSet.ofList (entries.flatMap (e.found sources {}))).toFinset).card
      then .error (k + 1) else .ok (TextSet.ofList (entries.flatMap (e.found sources {}))) := by
  have hcard : (e.orders sources { deadline := .after k } entries).length = _ := length_orders_fresh
  rw [← hcard]
  split
  · next h => exact reachable_of_not_lasts h
  · next h => exact reachable_of_lasts (Nat.not_lt.1 h)

theorem reachable_cases (e : Engine) (sources : Sources) (deadline : Deadline)
    (entries : List Text) :
    WholeOrExceeded (TextSet.ofList (entries.flatMap (e.found sources {})))
      (e.reachable sources deadline entries).1 := by
  cases deadline with
  | never => exact .inl (reachable_of_lasts trivial)
  | after k =>
    rw [reachable_after]
    split
    · exact .inr ⟨_, rfl⟩
    · exact .inl rfl

theorem reachableApart_cases (e : Engine) (sources : Sources) (deadline : Deadline)
    (entries : List Text) :
    WholeOrExceeded (TextSet.ofList (entries.flatMap (e.found sources {})))
      (e.reachableApart sources deadline entries).1 := by
  by_cases h : deadline.Lasts (entries.flatMap (e.order sources {})).length
  · have hapart : e.reachableApart sources deadline entries = _ := reachableApartFrom_of_lasts h
    rw [hapart]
    exact .inl rfl
  · exact .inr (reachableApartFrom_of_not_lasts h)

/-- What traversals from the entries give under a clock that `deadline` tells, where `union` is all
that the entries reach. -/
structure Punctual (e : Engine) (sources : Sources) (entries : List Text) (clock : Nat → Bool)
    (deadline : Deadline) (union : TextSet) : Prop where
  told : ∀ i, deadline.passed i = clock i
  ascending : Ascending id union
  mem_union : ∀ target, target ∈ union ↔
    ∃ entry ∈ entries, TransGen (e.Imports sources) entry target
  together : WholeOrExceeded union (e.reachable sources deadline entries).1
  apart : WholeOrExceeded union (e.reachableApart sources deadline entries).1
  race : ∀ racers : List Racer, racers.map (·.entry) = entries →
    (∀ r ∈ racers, Grows sources e r.engine) →
    WholeOrExceeded union (race sources racers)
  /-- Where the check with number `k`, counted from zero, is the first to find the deadline
  passed. -/
  first : ∀ k, clock k = true → (∀ i < k, clock i = false) →
    (e.reachable sources deadline entries).1 =
      if k + 1 ≤ (entries.toFinset ∪ union.toFinset).card then .error (k + 1) else .ok union

/-- **A traversal that runs out of time gives no part of an answer**: for every memory, every list
of entries and every clock that does not run backwards, traversals in one context, those in a
context for each entry and those at the same time, whatever each of them sees of the clock and of
the memory, give all that the entries reach or fail. In one context they fail at the file whose
check is the first to find the deadline passed, and only if the entries and what they reach are so
many. -/
theorem reachable_whole_or_exceeded (e : Engine) (sources : Sources) (entries : List Text)
    {clock : Nat → Bool} (hclock : Monotone clock) :
    ∃ deadline union, e.Punctual sources entries clock deadline union := by
  obtain ⟨deadline, hdeadline⟩ := Deadline.exists_passed_eq hclock
  refine ⟨deadline, TextSet.ofList (entries.flatMap (e.found sources {})), ?_⟩
  constructor
  · exact hdeadline
  · exact TextSet.ascending_ofList _
  · intro target
    exact mem_ofList_found
  · exact reachable_cases e sources deadline entries
  · exact reachableApart_cases e sources deadline entries
  · rintro racers rfl hracers
    exact race_cases hracers
  · intro k hk hbefore
    simp only [← hdeadline] at hk hbefore
    rw [Deadline.eq_after_of_passed hk hbefore]
    exact reachable_after e sources entries k

/-- A clock that is past from the second check on stops the traversal of two files at the second. -/
theorem reachable_whole_or_exceeded_second :
    (Monotone fun i : Nat => decide (1 ≤ i)) ∧
      (∃ deadline union, pairEngine.Punctual pairSources ["/a.ts".toList] (fun i => decide (1 ≤ i))
        deadline union) ∧
      (pairEngine.reachable pairSources (.after 1) ["/a.ts".toList]).1 = .error 2 := by
  have hclock : Monotone fun i : Nat => decide (1 ≤ i) := by
    intro i j hij hi
    simp only [decide_eq_true_eq] at hi ⊢
    omega
  refine ⟨hclock, reachable_whole_or_exceeded pairEngine pairSources ["/a.ts".toList] hclock, ?_⟩
  have hreached : "/b.ts".toList ∈
      TextSet.ofList (["/a.ts".toList].flatMap (pairEngine.found pairSources {})) :=
    mem_ofList_found.2 ⟨_, List.mem_singleton_self _, .single imports_pairEngine⟩
  rw [reachable_after, if_pos]
  -- the entry and the file that it imports are two
  refine Finset.one_lt_card.2 ⟨"/a.ts".toList, ?_, "/b.ts".toList, ?_, by decide⟩
  · exact Finset.mem_union_left _ (List.mem_toFinset.2 (List.mem_singleton_self _))
  · exact Finset.mem_union_right _ (List.mem_toFinset.2 hreached)

end Engine

end Unreached

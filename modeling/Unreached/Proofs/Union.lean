import Unreached.Proofs.Traversal

/-!
# Traversals from several entries

The files reachable from several entries are those reachable from one of them, whichever way they
are found.

* `Engine.Operation`, `Engine.performAll` : what an engine may have been asked before; it then
  answers as it did (`Engine.grows_performAll`);
* `Engine.Covers` : what one context holds after the traversals from some entries, which the next
  traversal keeps (`Engine.Covers.traverse`);
* `Engine.reachableApartFrom_of_lasts` : the traversals in contexts of their own, with all that they
  read;
* `Engine.ofList_found_of_closed` : a set that imports do not lead out of is all that is reached;
* `Engine.union_consistent` : one context, a context for each entry and the union of separate
  answers give one set.
-/

namespace Unreached

set_option autoImplicit false

open Relation (ReflTransGen TransGen)

namespace Deadline

theorem lasts_add {d : Deadline} {m n : Nat} :
    d.Lasts (m + n) ↔ d.Lasts m ∧ (d.spend m).Lasts n := by
  cases d with
  | never => simp [Lasts, spend]
  | after k =>
    simp only [Lasts, spend]
    omega

end Deadline

namespace Engine

variable {e e' : Engine} {sources : Sources} {reached : TextSet} {ctx : Context}
  {file target entry : Text} {done entries : List Text} {deadline : Deadline}

/-! ## Earlier calls -/

theorem grows_explore (fresh stack : List Text) (reached : TextSet) (ctx : Context) (e : Engine) :
    Grows sources e (explore sources fresh stack reached ctx e).engine := by
  induction fresh, stack, reached, ctx, e using explore.induct sources with
  | case1 fresh reached ctx e =>
    rw [explore]
    exact .refl sources e
  | case2 fresh reached ctx e file stack hfile ctx' hcheck =>
    have hcheck : ctx.deadline.check? = none := hcheck
    rw [explore_stop hfile hcheck]
    exact .refl sources e
  | case3 fresh reached ctx e file stack hfile ctx' deadline hcheck targets e' htargets ih =>
    have hcheck : ctx.deadline.check? = some deadline := hcheck
    have hgrows := grows_targets e sources file
    rw [explore_expand hfile hcheck, next, htargets]
    rw [htargets] at hgrows
    exact hgrows.trans ih
  | case4 fresh reached ctx e file stack hfile ih =>
    rw [explore_skip hfile]
    exact ih

theorem grows_traverse (e : Engine) (sources : Sources) (ctx : Context) (entry : Text) :
    Grows sources e (e.traverse sources ctx entry).engine :=
  grows_explore _ _ _ _ _

theorem grows_reachableFrom (sources : Sources) (reached : TextSet) (ctx : Context) (e : Engine)
    (entries : List Text) : Grows sources e (reachableFrom sources reached ctx e entries).2 := by
  induction entries generalizing reached ctx e with
  | nil => exact .refl sources e
  | cons entry entries ih =>
    have hgrows := grows_traverse e sources ctx entry
    rw [reachableFrom]
    split
    · exact hgrows
    · exact hgrows.trans (ih _ _ _)

theorem grows_reachableApartFrom (sources : Sources) (reached : TextSet) (deadline : Deadline)
    (e : Engine) (entries : List Text) :
    Grows sources e (reachableApartFrom sources reached deadline e entries).2 := by
  induction entries generalizing reached deadline e with
  | nil => exact .refl sources e
  | cons entry entries ih =>
    have hgrows := grows_traverse e sources { deadline } entry
    rw [reachableApartFrom]
    split
    · exact hgrows
    · exact hgrows.trans (ih _ _ _)

/-- What an engine can be asked. -/
inductive Operation where
  | imports (file : Text)
  | resolve (importer spec : Text)
  | traverse (ctx : Context) (entry : Text)
  | reachable (deadline : Deadline) (entries : List Text)
  | reachableApart (deadline : Deadline) (entries : List Text)

/-- The engine after it was asked. -/
def perform (sources : Sources) (e : Engine) : Operation → Engine
  | .imports file => (e.imports sources file).2
  | .resolve importer spec => (e.resolve? importer spec).2
  | .traverse ctx entry => (e.traverse sources ctx entry).engine
  | .reachable deadline entries => (e.reachable sources deadline entries).2
  | .reachableApart deadline entries => (e.reachableApart sources deadline entries).2

/-- The engine after it was asked a number of things while the files did not change. -/
def performAll (sources : Sources) (e : Engine) (operations : List Operation) : Engine :=
  operations.foldl (perform sources) e

theorem grows_perform (sources : Sources) (e : Engine) (operation : Operation) :
    Grows sources e (e.perform sources operation) := by
  cases operation with
  | imports file => exact grows_imports e sources file
  | resolve importer spec => exact grows_resolve? e sources importer spec
  | traverse ctx entry => exact grows_traverse e sources ctx entry
  | reachable deadline entries => exact grows_reachableFrom _ _ _ _ _
  | reachableApart deadline entries => exact grows_reachableApartFrom _ _ _ _ _

/-- **Earlier calls on files that did not change add to the memory only.** -/
theorem grows_performAll (sources : Sources) (e : Engine) (operations : List Operation) :
    Grows sources e (e.performAll sources operations) := by
  unfold performAll
  induction operations generalizing e with
  | nil => exact .refl sources e
  | cons operation operations ih => exact (grows_perform sources e operation).trans (ih _)

/-! ## One context -/

/-- What there is after the traversals from the entries in `done` in one context. -/
structure Covers (e : Engine) (sources : Sources) (done : List Text) (reached : TextSet)
    (ctx : Context) : Prop where
  ascending : Ascending id reached
  visited : ∀ file, file ∈ ctx.visited ↔ ∃ entry ∈ done, ReflTransGen (e.Imports sources) entry file
  reached : ∀ target, target ∈ reached ↔ ∃ entry ∈ done, TransGen (e.Imports sources) entry target

theorem Covers.nil (e : Engine) (sources : Sources) (deadline : Deadline) :
    Covers e sources [] [] { deadline } :=
  ⟨List.Pairwise.nil, by simp, by simp⟩

theorem Covers.congr (h : Covers e sources done reached ctx)
    (heq : e'.Imports sources = e.Imports sources) : Covers e' sources done reached ctx := by
  obtain ⟨hascending, hvisited, hreached⟩ := h
  rw [← heq] at hvisited hreached
  exact ⟨hascending, hvisited, hreached⟩

theorem Covers.closed (h : Covers e sources done reached ctx) : e.Closed sources ctx := by
  intro file hfile target htarget
  obtain ⟨entry, hentry, hpath⟩ := (h.visited file).1 hfile
  exact (h.visited target).2 ⟨entry, hentry, hpath.tail htarget⟩

/-- The next traversal stops at files expanded before, but what these import was reached before as
well. -/
theorem Covers.traverse (h : Covers e sources done reached ctx) (entry : Text) :
    Covers e sources (entry :: done) (reached.insertAll (e.found sources ctx entry))
      (ctx.expand (e.order sources ctx entry)) where
  ascending := TextSet.ascending_insertAll h.ascending _
  visited file := by
    rw [Context.mem_visited_expand, mem_order h.closed, List.exists_mem_cons_iff, ← h.visited file]
    by_cases hfile : file ∈ ctx.visited <;> simp [hfile]
  reached target := by
    rw [TextSet.mem_insertAll, mem_found, List.exists_mem_cons_iff, h.reached target]
    constructor
    · rintro (hdone | ⟨file, hfile, htarget⟩)
      · exact .inr hdone
      · exact .inl (.tail' ((mem_order h.closed).1 hfile).1 htarget)
    · rintro (hpath | hdone)
      · obtain ⟨file, hpath, htarget⟩ := TransGen.tail'_iff.1 hpath
        by_cases hfile : file ∈ ctx.visited
        · obtain ⟨before, hbefore, hpath⟩ := (h.visited file).1 hfile
          exact .inl ⟨before, hbefore, .tail' hpath htarget⟩
        · exact .inr ⟨file, (mem_order h.closed).2 ⟨hpath, hfile⟩, htarget⟩
      · exact .inl hdone

/-- The files that traversals from the entries in one context expand, in order. -/
def orders (e : Engine) (sources : Sources) : Context → List Text → List Text
  | _, [] => []
  | ctx, entry :: entries =>
    e.order sources ctx entry ++ e.orders sources (ctx.expand (e.order sources ctx entry)) entries

theorem Grows.orders_eq (h : Grows sources e e') : e'.orders sources = e.orders sources := by
  funext ctx entries
  induction entries generalizing ctx with
  | nil => rfl
  | cons entry entries ih => rw [orders, orders, h.order_eq, ih]

theorem reachableFrom_cons (h : ctx.deadline.Lasts (e.order sources ctx entry).length) :
    reachableFrom sources reached ctx e (entry :: entries) =
      reachableFrom sources (reached.insertAll (e.found sources ctx entry))
        (ctx.expand (e.order sources ctx entry)) (e.after sources (e.order sources ctx entry))
        entries := by
  rw [reachableFrom, traverse_of_lasts h]

theorem reachableFrom_of_lasts (h : Covers e sources done reached ctx)
    (hlasts : ctx.deadline.Lasts (e.orders sources ctx entries).length) :
    ∃ (union : TextSet) (ctx' : Context),
      (reachableFrom sources reached ctx e entries).1 = .ok union ∧
      Covers e sources (entries.reverse ++ done) union ctx' := by
  induction entries generalizing done reached ctx e with
  | nil => exact ⟨reached, ctx, rfl, h⟩
  | cons entry entries ih =>
    rw [orders, List.length_append] at hlasts
    obtain ⟨hfirst, hrest⟩ := Deadline.lasts_add.1 hlasts
    have hgrows := grows_after e sources (e.order sources ctx entry)
    rw [← hgrows.orders_eq] at hrest
    obtain ⟨union, ctx', hunion, hcovers⟩ := ih ((h.traverse entry).congr hgrows.imports_eq) hrest
    refine ⟨union, ctx', ?_, ?_⟩
    · rw [reachableFrom_cons hfirst]
      exact hunion
    · rw [List.reverse_cons, List.append_assoc, List.singleton_append]
      exact hcovers.congr hgrows.imports_eq.symm

theorem reachableFrom_never (h : Covers e sources done reached ctx)
    (hdeadline : ctx.deadline = .never) (entries : List Text) :
    ∃ (union : TextSet) (ctx' : Context),
      (reachableFrom sources reached ctx e entries).1 = .ok union ∧
      Covers e sources (entries.reverse ++ done) union ctx' := by
  refine reachableFrom_of_lasts h ?_
  rw [hdeadline]
  trivial

/-! ## A context for each entry -/

theorem reachableApartFrom_cons (h : deadline.Lasts (e.order sources {} entry).length) :
    reachableApartFrom sources reached deadline e (entry :: entries) =
      reachableApartFrom sources (reached.insertAll (e.found sources {} entry))
        (deadline.spend (e.order sources {} entry).length)
          (e.after sources (e.order sources {} entry)) entries := by
  have htraverse : e.traverse sources { deadline } entry = _ := traverse_of_lasts h
  rw [reachableApartFrom, htraverse]
  rfl

/-- **Traversals in contexts of their own**, where the deadline is not reached: what they find and
what they read. -/
theorem reachableApartFrom_of_lasts
    (h : deadline.Lasts (entries.flatMap (e.order sources {})).length) :
    reachableApartFrom sources reached deadline e entries =
      (.ok (reached.insertAll (entries.flatMap (e.found sources {}))),
        e.after sources (entries.flatMap (e.order sources {}))) := by
  induction entries generalizing reached deadline e with
  | nil => rfl
  | cons entry entries ih =>
    rw [List.flatMap_cons, List.length_append] at h
    obtain ⟨hfirst, hrest⟩ := Deadline.lasts_add.1 h
    have hgrows := grows_after e sources (e.order sources {} entry)
    rw [reachableApartFrom_cons hfirst, ih (by rwa [hgrows.order_eq]), hgrows.order_eq,
      hgrows.found_eq, List.flatMap_cons, List.flatMap_cons, TextSet.insertAll_append, after_append]

theorem reachableApartFrom_of_not_lasts
    (h : ¬deadline.Lasts (entries.flatMap (e.order sources {})).length) :
    ∃ expanded, (reachableApartFrom sources reached deadline e entries).1 = .error expanded := by
  induction entries generalizing reached deadline e with
  | nil => exact absurd deadline.lasts_zero h
  | cons entry entries ih =>
    rw [List.flatMap_cons, List.length_append, Deadline.lasts_add] at h
    by_cases hfirst : deadline.Lasts (e.order sources {} entry).length
    · have hgrows := grows_after e sources (e.order sources {} entry)
      rw [reachableApartFrom_cons hfirst]
      refine ih ?_
      rw [hgrows.order_eq]
      exact fun hrest => h ⟨hfirst, hrest⟩
    · obtain ⟨expanded, htraverse⟩ : ∃ expanded, (e.traverse sources { deadline } entry).outcome =
          .error expanded :=
        traverse_of_not_lasts hfirst
      rw [reachableApartFrom, htraverse]
      exact ⟨expanded, rfl⟩

theorem mem_flatMap_found :
    target ∈ entries.flatMap (e.found sources {}) ↔
      ∃ entry ∈ entries, TransGen (e.Imports sources) entry target := by
  rw [List.mem_flatMap]
  simp only [mem_found_fresh]

theorem mem_ofList_found :
    target ∈ TextSet.ofList (entries.flatMap (e.found sources {})) ↔
      ∃ entry ∈ entries, TransGen (e.Imports sources) entry target := by
  unfold TextSet.ofList
  rw [TextSet.mem_insertAll, mem_flatMap_found]
  simp

/-- A set holds all that entries reach if it holds what they and its own files import, and nothing
else if each of its files is imported by an entry. -/
theorem ofList_found_of_closed {p : Project} {reached : TextSet} (hascending : Ascending id reached)
    (hentries : ∀ entry ∈ entries, p.targets sources entry ⊆ reached)
    (hclosed : ∀ file ∈ reached, p.targets sources file ⊆ reached)
    (hreached : ∀ target ∈ reached, ∃ entry ∈ entries, target ∈ p.targets sources entry) :
    TextSet.ofList (entries.flatMap ((Engine.new p).found sources {})) = reached := by
  refine Ascending.ext (TextSet.ascending_ofList _) hascending fun target => ?_
  rw [mem_ofList_found, imports_new]
  constructor
  · rintro ⟨entry, hentry, hpath⟩
    induction hpath with
    | single hstep => exact hentries entry hentry (Project.mem_targets.2 hstep)
    | tail _ hstep ih => exact hclosed _ ih (Project.mem_targets.2 hstep)
  · intro htarget
    obtain ⟨entry, hentry, hmem⟩ := hreached target htarget
    exact ⟨entry, hentry, .single (Project.mem_targets.1 hmem)⟩

/-! ## Separate answers -/

/-- The union of what traversals from the entries reach, each in a context of its own and with the
memory that `memory` gives for it. -/
def unionOf (memory : Text → Engine) (sources : Sources) (entries : List Text) :
    Except Nat TextSet :=
  (entries.mapM fun entry => ((memory entry).traverse sources {} entry).outcome).map fun parts =>
    TextSet.ofList parts.flatten

theorem unionOf_eq {memory : Text → Engine} (h : ∀ entry, Grows sources e (memory entry)) :
    unionOf memory sources entries =
      .ok (TextSet.ofList (entries.flatMap (e.found sources {}))) := by
  have houtcome : ∀ entry, ((memory entry).traverse sources {} entry).outcome =
      .ok (e.found sources {} entry) := by
    intro entry
    have htraverse : (memory entry).traverse sources {} entry = _ := traverse_of_lasts trivial
    rw [htraverse, (h entry).found_eq]
  have hmapM : (entries.mapM fun entry => ((memory entry).traverse sources {} entry).outcome) =
      .ok (entries.map (e.found sources {})) := by
    simp only [houtcome]
    exact List.mapM_pure
  unfold unionOf
  rw [hmapM, List.flatMap_def]
  rfl

/-- **One set, whichever way it is found**: whatever was asked before while the files did not
change, the traversals in one context, those in a context for each entry and the union of separate
answers, each of them after calls of its own, give the files that chains of imports lead to from the
entries. Their order and repetitions do not matter. -/
theorem union_consistent (e : Engine) (sources : Sources) (earlier : List Operation)
    (before : Text → List Operation) {entries others : List Text}
    (hsame : ∀ entry, entry ∈ others ↔ entry ∈ entries) :
    ∃ union : TextSet, Ascending id union ∧
      (∀ target, target ∈ union ↔ ∃ entry ∈ entries, TransGen (e.Imports sources) entry target) ∧
      ((e.performAll sources earlier).reachable sources .never others).1 = .ok union ∧
      ((e.performAll sources earlier).reachableApart sources .never others).1 = .ok union ∧
      unionOf (fun entry => e.performAll sources (before entry)) sources others = .ok union := by
  have hgrows := grows_performAll sources e earlier
  have hbefore := fun entry => grows_performAll sources e (before entry)
  have hunion : ∀ target, target ∈ TextSet.ofList (others.flatMap (e.found sources {})) ↔
      ∃ entry ∈ entries, TransGen (e.Imports sources) entry target := by
    intro target
    unfold TextSet.ofList
    rw [TextSet.mem_insertAll, mem_flatMap_found]
    simp only [List.not_mem_nil, false_or, hsame]
  refine ⟨TextSet.ofList (others.flatMap (e.found sources {})), TextSet.ascending_ofList _, hunion,
    ?_, ?_, unionOf_eq hbefore⟩
  · obtain ⟨union, ctx, hreachable, hcovers⟩ :=
      reachableFrom_never (Covers.nil (e.performAll sources earlier) sources .never) rfl others
    have heq : union = TextSet.ofList (others.flatMap (e.found sources {})) := by
      refine hcovers.ascending.ext (TextSet.ascending_ofList _) fun target => ?_
      rw [hcovers.reached, hunion, hgrows.imports_eq]
      simp only [List.append_nil, List.mem_reverse, hsame]
    rw [← heq]
    exact hreachable
  · have hapart : (e.performAll sources earlier).reachableApart sources .never others = _ :=
      reachableApartFrom_of_lasts trivial
    rw [hapart, hgrows.found_eq]
    rfl

/-- A project of two files. -/
def pairEngine : Engine := .new { inventory := .ofPaths ["/a.ts".toList, "/b.ts".toList] }

def pairSources : Sources :=
  fun file => if file = "/a.ts".toList then some "import './b'".toList else some []

theorem next_pairEngine : pairEngine.next pairSources "/a.ts".toList = ["/b.ts".toList] := by
  decide +kernel

theorem imports_pairEngine : pairEngine.Imports pairSources "/a.ts".toList "/b.ts".toList := by
  rw [← leads_next, Leads, next_pairEngine]
  exact List.mem_singleton_self _

/-- Two files, the first of which imports the second, are traversed in the other order and with one
repeated, where the memory holds a traversal of the first. -/
theorem union_consistent_swap :
    (∀ entry, entry ∈ ["/b.ts".toList, "/a.ts".toList, "/b.ts".toList] ↔
        entry ∈ ["/a.ts".toList, "/b.ts".toList]) ∧
      ∃ union : TextSet, Ascending id union ∧
        (∀ target, target ∈ union ↔ ∃ entry ∈ ["/a.ts".toList, "/b.ts".toList],
          TransGen (Imports pairEngine pairSources) entry target) ∧
        ((pairEngine.performAll pairSources [.traverse {} "/a.ts".toList]).reachable
          pairSources .never ["/b.ts".toList, "/a.ts".toList, "/b.ts".toList]).1 = .ok union ∧
        ((pairEngine.performAll pairSources [.traverse {} "/a.ts".toList]).reachableApart
          pairSources .never ["/b.ts".toList, "/a.ts".toList, "/b.ts".toList]).1 = .ok union ∧
        unionOf (fun entry => pairEngine.performAll pairSources [.imports entry]) pairSources
          ["/b.ts".toList, "/a.ts".toList, "/b.ts".toList] = .ok union := by
  have hsame : ∀ entry, entry ∈ ["/b.ts".toList, "/a.ts".toList, "/b.ts".toList] ↔
      entry ∈ ["/a.ts".toList, "/b.ts".toList] := by
    intro entry
    simp only [List.mem_cons, List.not_mem_nil, or_false]
    tauto
  exact ⟨hsame, union_consistent pairEngine pairSources [.traverse {} "/a.ts".toList]
    (fun entry => [.imports entry]) hsame⟩

end Engine

end Unreached

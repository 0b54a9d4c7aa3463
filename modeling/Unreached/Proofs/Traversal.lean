import Mathlib.Data.List.Chain
import Mathlib.Data.List.Nodup
import Unreached.Proofs.DepthFirst
import Unreached.Proofs.Memory

/-!
# Traversals

A traversal expands files in depth-first order, and what it leaves behind is told by that order
alone.

* `Deadline.Lasts`, `Deadline.spend` : a deadline after so many checks;
* `Engine.order` : the files that a traversal expands, in order;
* `Engine.traverse_of_lasts` : the whole outcome of a traversal whose deadline is not reached;
* `Engine.mem_order` : in a context that holds all that its files import, these are the files that
  imports lead to from the entry, but for those expanded before;
* `Engine.traverse_exact` : a traversal in a fresh context reaches what chains of imports lead to.
-/

namespace Unreached

set_option autoImplicit false

open Relation (ReflTransGen TransGen)

/-! ## Deadlines -/

namespace Deadline

/-- Whether a deadline is not yet reached at any of so many checks. -/
def Lasts : Deadline → Nat → Prop
  | .never, _ => True
  | .after n, checks => checks ≤ n

/-- What is left of a deadline after so many checks. -/
def spend : Deadline → Nat → Deadline
  | .never, _ => .never
  | .after n, checks => .after (n - checks)

variable {d : Deadline} {n : Nat}

@[simp]
theorem spend_zero (d : Deadline) : d.spend 0 = d := by cases d <;> rfl

theorem lasts_zero (d : Deadline) : d.Lasts 0 := by
  cases d with
  | never => trivial
  | after n => exact Nat.zero_le n

theorem not_lasts_iff : ¬d.Lasts n ↔ ∃ m, d = .after m ∧ m < n := by
  cases d with
  | never => simp [Lasts]
  | after m => simp [Lasts]

theorem lasts_succ_iff : d.Lasts (n + 1) ↔ ∃ d', d.check? = some d' ∧ d'.Lasts n := by
  cases d with
  | never => simp [Lasts, check?]
  | after m => cases m <;> simp [Lasts, check?]

theorem spend_succ {d' : Deadline} (h : d.check? = some d') : d.spend (n + 1) = d'.spend n := by
  cases d with
  | never =>
    cases h
    rfl
  | after m =>
    cases m with
    | zero => cases h
    | succ m =>
      cases h
      simp [spend]

end Deadline

/-- The context after the files of a list were expanded in it. -/
def Context.expand (ctx : Context) (files : List Text) : Context :=
  ⟨files.reverse ++ ctx.visited, ctx.deadline.spend files.length⟩

theorem Context.mem_visited_expand {ctx : Context} {files : List Text} {file : Text} :
    file ∈ (ctx.expand files).visited ↔ file ∈ files ∨ file ∈ ctx.visited := by
  unfold expand
  rw [List.mem_append, List.mem_reverse]

namespace Engine

variable {e e' : Engine} {sources : Sources} {fresh stack : List Text} {reached : TextSet}
  {ctx : Context} {file target entry : Text} {deadline : Deadline}

/-! ## Steps -/

/-- The files that a file imports, by the answers of the engine. -/
def next (e : Engine) (sources : Sources) (file : Text) : List Text := (e.targets sources file).1

theorem leads_next : Leads (e.next sources) = e.Imports sources := by
  funext file target
  exact propext mem_targets

theorem Grows.next_eq (h : Grows sources e e') : e'.next sources = e.next sources :=
  funext h.targets_fst_eq

theorem explore_skip (h : file ∉ fresh) :
    explore sources fresh (file :: stack) reached ctx e =
      explore sources fresh stack reached ctx e := by
  rw [explore, if_neg h]

theorem explore_expand (h : file ∈ fresh) (hcheck : ctx.deadline.check? = some deadline) :
    explore sources fresh (file :: stack) reached ctx e =
      explore sources (fresh.erase file) ((e.next sources file).reverse ++ stack)
        (reached.insertAll (e.next sources file)) ⟨file :: ctx.visited, deadline⟩
          (e.targets sources file).2 := by
  rw [explore, if_pos h]
  simp only [hcheck]
  rfl

theorem explore_stop (h : file ∈ fresh) (hcheck : ctx.deadline.check? = none) :
    explore sources fresh (file :: stack) reached ctx e =
      ⟨.error (ctx.expanded + 1), ⟨file :: ctx.visited, ctx.deadline⟩, e⟩ := by
  rw [explore, if_pos h]
  simp only [hcheck]
  rfl

/-! ## Runs -/

/-- A run of the traversal, where the deadline is not reached. -/
theorem explore_run {next : Text → List Text} (hnext : e.next sources = next)
    (h : ctx.deadline.Lasts (depthFirst next fresh stack).length) :
    explore sources fresh stack reached ctx e =
      ⟨.ok (reached.insertAll ((depthFirst next fresh stack).flatMap next)),
        ctx.expand (depthFirst next fresh stack),
        e.after sources (depthFirst next fresh stack)⟩ := by
  fun_induction depthFirst next fresh stack generalizing reached ctx e with
  | case1 fresh =>
    rw [explore]
    simp [Context.expand, TextSet.insertAll, after]
  | case2 fresh file stack hfile ih =>
    obtain ⟨deadline, hcheck, hlasts⟩ := Deadline.lasts_succ_iff.1 h
    have hgrows := grows_targets e sources file
    rw [explore_expand hfile hcheck, hnext, ih (hgrows.next_eq.trans hnext) hlasts,
      ← TextSet.insertAll_append]
    simp only [Context.expand, List.length_cons, Deadline.spend_succ hcheck, List.reverse_cons,
      List.append_assoc, List.singleton_append, List.flatMap_cons]
    rfl
  | case3 fresh file stack hfile ih => rw [explore_skip hfile, ih hnext h]

/-- A run of the traversal, where the deadline is reached. -/
theorem explore_run_stop {next : Text → List Text} (hnext : e.next sources = next) {checks : Nat}
    (hdeadline : ctx.deadline = .after checks) (h : checks < (depthFirst next fresh stack).length) :
    (explore sources fresh stack reached ctx e).outcome = .error (ctx.expanded + checks + 1) := by
  fun_induction depthFirst next fresh stack generalizing reached ctx e checks with
  | case1 fresh => cases h
  | case2 fresh file stack hfile ih =>
    cases checks with
    | zero =>
      have hcheck : ctx.deadline.check? = none := by
        rw [hdeadline]
        rfl
      rw [explore_stop hfile hcheck, Nat.add_zero]
    | succ checks =>
      have hcheck : ctx.deadline.check? = some (.after checks) := by
        rw [hdeadline]
        rfl
      have hgrows := grows_targets e sources file
      have hlt : checks <
          (depthFirst next (fresh.erase file) ((next file).reverse ++ stack)).length :=
        Nat.lt_of_succ_lt_succ h
      rw [explore_expand hfile hcheck, hnext, ih (hgrows.next_eq.trans hnext) rfl hlt]
      simp only [Context.expanded, List.length_cons, Except.error.injEq]
      omega
  | case3 fresh file stack hfile ih => rw [explore_skip hfile, ih hnext hdeadline h]

/-- The files that a traversal expands, in order. -/
def order (e : Engine) (sources : Sources) (ctx : Context) (entry : Text) : List Text :=
  depthFirst (e.next sources) (e.fresh ctx entry) [entry]

/-- What the files that a traversal expands import. -/
def found (e : Engine) (sources : Sources) (ctx : Context) (entry : Text) : TextSet :=
  TextSet.ofList ((e.order sources ctx entry).flatMap (e.next sources))

theorem Grows.order_eq (h : Grows sources e e') : e'.order sources = e.order sources := by
  funext ctx entry
  unfold order fresh
  rw [h.next_eq, h.project]

theorem Grows.found_eq (h : Grows sources e e') : e'.found sources = e.found sources := by
  funext ctx entry
  unfold found
  rw [h.next_eq, h.order_eq]

/-- **A traversal whose deadline is not reached.** -/
theorem traverse_of_lasts (h : ctx.deadline.Lasts (e.order sources ctx entry).length) :
    e.traverse sources ctx entry =
      ⟨.ok (e.found sources ctx entry), ctx.expand (e.order sources ctx entry),
        e.after sources (e.order sources ctx entry)⟩ :=
  explore_run rfl h

theorem traverse_of_not_lasts (h : ¬ctx.deadline.Lasts (e.order sources ctx entry).length) :
    ∃ expanded, (e.traverse sources ctx entry).outcome = .error expanded := by
  obtain ⟨checks, hdeadline, hlt⟩ := Deadline.not_lasts_iff.1 h
  exact ⟨_, explore_run_stop rfl hdeadline hlt⟩

/-! ## What is expanded and what is reached -/

theorem mem_fresh :
    file ∈ e.fresh ctx entry ↔ (file = entry ∨ file ∈ e.project.inventory.paths) ∧
      file ∉ ctx.visited := by
  unfold fresh
  rw [List.mem_filter, List.mem_insert_iff, decide_eq_true_iff]

theorem nodup_fresh (e : Engine) (ctx : Context) (entry : Text) : (e.fresh ctx entry).Nodup := by
  unfold fresh
  exact e.project.inventory.nodup_paths.insert.filter _

theorem nodup_order (e : Engine) (sources : Sources) (ctx : Context) (entry : Text) :
    (e.order sources ctx entry).Nodup :=
  nodup_depthFirst (nodup_fresh e ctx entry)

/-- Whether a context holds all that its files import. -/
def Closed (e : Engine) (sources : Sources) (ctx : Context) : Prop :=
  ∀ file ∈ ctx.visited, ∀ target, e.Imports sources file target → target ∈ ctx.visited

theorem mem_order (hclosed : e.Closed sources ctx) :
    file ∈ e.order sources ctx entry ↔ ReflTransGen (e.Imports sources) entry file ∧
      file ∉ ctx.visited := by
  rw [← leads_next]
  refine mem_depthFirst_of_closed (· ∈ ctx.visited) (fun f hf t ht => ?_) ?_ fun f t ht => ?_
  · exact hclosed f hf t (mem_targets.1 ht)
  · rw [mem_fresh]
    simp
  · have hpath := (mem_targets.1 ht).mem_paths
    rw [mem_fresh]
    simp [hpath]

theorem mem_found :
    target ∈ e.found sources ctx entry ↔
      ∃ file ∈ e.order sources ctx entry, e.Imports sources file target := by
  unfold found TextSet.ofList
  rw [TextSet.mem_insertAll, List.mem_flatMap]
  simp only [List.not_mem_nil, false_or, next, mem_targets]

theorem ascending_found (e : Engine) (sources : Sources) (ctx : Context) (entry : Text) :
    Ascending id (e.found sources ctx entry) :=
  TextSet.ascending_ofList _

/-! ## A fresh context -/

theorem closed_fresh (e : Engine) (sources : Sources) (deadline : Deadline) :
    e.Closed sources { deadline } :=
  fun _ h => absurd h List.not_mem_nil

/-- The files that imports lead to from an entry, itself among them. -/
theorem mem_order_fresh :
    file ∈ e.order sources { deadline } entry ↔ ReflTransGen (e.Imports sources) entry file := by
  rw [mem_order (closed_fresh e sources deadline)]
  simp

theorem mem_found_fresh :
    target ∈ e.found sources { deadline } entry ↔ TransGen (e.Imports sources) entry target := by
  rw [mem_found, TransGen.tail'_iff]
  simp only [mem_order_fresh]

/-- Whether a file lies on a cycle of imports. -/
def OnCycle (e : Engine) (sources : Sources) (file : Text) : Prop :=
  ∃ files : List Text, List.IsChain (e.Imports sources) (file :: (files ++ [file]))

theorem transGen_iff_isChain {r : Text → Text → Prop} :
    TransGen r file target ↔ ∃ files : List Text, List.IsChain r (file :: (files ++ [target])) := by
  constructor
  · intro h
    induction h using TransGen.head_induction_on with
    | single h => exact ⟨[], List.isChain_pair.2 h⟩
    | @head file before h _ ih =>
      obtain ⟨files, hfiles⟩ := ih
      exact ⟨before :: files, List.isChain_cons_cons.2 ⟨h, hfiles⟩⟩
  · rintro ⟨files, hfiles⟩
    induction files generalizing file with
    | nil => exact .single (List.isChain_pair.1 hfiles)
    | cons before files ih =>
      obtain ⟨h, hfiles⟩ := List.isChain_cons_cons.1 hfiles
      exact .head h (ih hfiles)

/-- **A traversal reaches what chains of imports lead to**, for every state of the memory: in a
fresh context without a deadline it ends with exactly the targets of chains of one or more imports
from the entry, the entry among them only on a cycle. It has then expanded the entry and these
files, each once and nothing else. -/
theorem traverse_exact (e : Engine) (sources : Sources) (entry : Text) :
    ∃ reached : TextSet, (e.traverse sources {} entry).outcome = .ok reached ∧
      Ascending id reached ∧
      (∀ target, target ∈ reached ↔ TransGen (e.Imports sources) entry target) ∧
      (entry ∈ reached ↔ e.OnCycle sources entry) ∧
      (∀ file, file ∈ (e.traverse sources {} entry).context.visited ↔
        file = entry ∨ file ∈ reached) ∧
      (e.traverse sources {} entry).context.visited.Nodup ∧
      (e.traverse sources {} entry).engine =
        e.after sources (e.traverse sources {} entry).context.visited.reverse := by
  have htraverse : e.traverse sources {} entry = _ := traverse_of_lasts trivial
  have hvisited : (Context.expand {} (e.order sources {} entry)).visited =
      (e.order sources {} entry).reverse :=
    List.append_nil _
  rw [htraverse]
  refine ⟨_, rfl, ascending_found e sources {} entry, fun _ => mem_found_fresh, ?_,
    fun file => ?_, ?_, ?_⟩
  · exact mem_found_fresh.trans transGen_iff_isChain
  · rw [hvisited, List.mem_reverse, mem_order_fresh, mem_found_fresh,
      Relation.reflTransGen_iff_eq_or_transGen]
  · rw [hvisited]
    exact List.nodup_reverse.2 (nodup_order e sources {} entry)
  · rw [hvisited, List.reverse_reverse]

end Engine

end Unreached

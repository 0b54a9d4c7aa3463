import Unreached.Proofs.Deadline

/-!
# Calls on one context

A context may serve one call after the other, and a call may find the deadline passed.

* `Engine.calls` : the calls from a list of entries on one context, each with what it answers and
  marks as expanded;
* `told`, `Lost` : the files that the calls which succeeded have told, and those that only a failed
  call has marked;
* `Engine.Honest` : what an entry reaches is told by its call or was told before;
* `Engine.Keeps` : what holds of a context after any calls, which every call keeps
  (`Engine.Keeps.call`);
* `Engine.calls_honest` : a call that succeeds is honest unless its entry was lost.

A failed call leaves files marked as expanded whose imports it never told
(`Engine.traverse_of_over`). A later call on such an entry answers with the empty set
(`Engine.traverse_of_visited`, `Engine.calls_dishonest`).
-/

namespace Unreached

set_option autoImplicit false

open Relation (ReflTransGen TransGen)

/-- A call on a context. -/
structure Call where
  entry : Text
  before : Context
  outcome : Except Nat TextSet
  after : Context

/-- Whether a call marks a file as expanded. -/
def Call.Marks (c : Call) (file : Text) : Prop := file ∈ c.after.visited ∧ file ∉ c.before.visited

/-- The files that the calls which succeeded have told. -/
def told (calls : List Call) : List Text := calls.flatMap fun c => c.outcome.toOption.getD []

/-- Whether a file was marked by a call that failed. -/
def Lost (calls : List Call) (file : Text) : Prop :=
  ∃ c ∈ calls, (∃ expanded, c.outcome = .error expanded) ∧ c.Marks file

theorem told_append (calls others : List Call) :
    told (calls ++ others) = told calls ++ told others := by
  simp [told]

theorem told_of_ok {c : Call} {reached : TextSet} (h : c.outcome = .ok reached) :
    told [c] = reached := by
  rw [told, List.flatMap_singleton, h]
  rfl

theorem lost_append {calls others : List Call} {file : Text} :
    Lost (calls ++ others) file ↔ Lost calls file ∨ Lost others file := by
  simp only [Lost, List.mem_append, or_and_right, exists_or]

theorem lost_singleton {c : Call} {file : Text} :
    Lost [c] file ↔ (∃ expanded, c.outcome = .error expanded) ∧ c.Marks file := by
  simp [Lost]

namespace Engine

variable {e e' : Engine} {sources : Sources} {ctx : Context} {file target entry : Text}
  {history : List Call}

/-- The call from an entry. -/
def call (e : Engine) (sources : Sources) (ctx : Context) (entry : Text) : Call :=
  ⟨entry, ctx, (e.traverse sources ctx entry).outcome, (e.traverse sources ctx entry).context⟩

/-- The calls from the entries of a list, one after the other on one context. -/
def calls (e : Engine) (sources : Sources) : Context → List Text → List Call
  | _, [] => []
  | ctx, entry :: entries =>
    let t := e.traverse sources ctx entry
    e.call sources ctx entry :: t.engine.calls sources t.context entries

/-- Whether a call that succeeds leaves nothing out: what its entry reaches is told by it or was
told by the calls in `earlier`. -/
def Honest (e : Engine) (sources : Sources) (earlier : List Call) (c : Call) : Prop :=
  ∀ reached, c.outcome = .ok reached → ∀ target, TransGen (e.Imports sources) c.entry target →
    target ∈ reached ∨ target ∈ told earlier

/-! ## One call -/

theorem call_of_lasts (h : ctx.deadline.Lasts (e.order sources ctx entry).length) :
    e.call sources ctx entry =
      ⟨entry, ctx, .ok (e.found sources ctx entry), ctx.expand (e.order sources ctx entry)⟩ := by
  unfold call
  rw [traverse_of_lasts h]

theorem traverse_of_visited (h : entry ∈ ctx.visited) :
    e.traverse sources ctx entry = ⟨.ok [], ctx, e⟩ := by
  have hfresh : entry ∉ e.fresh ctx entry := fun hmem => (mem_fresh.1 hmem).2 h
  rw [traverse, explore_skip hfresh, explore]

/-- A traversal that finds the deadline passed has marked its entry all the same. -/
theorem traverse_of_over (h : entry ∉ ctx.visited) (hover : ctx.deadline.check? = none) :
    e.traverse sources ctx entry =
      ⟨.error (ctx.expanded + 1), ⟨entry :: ctx.visited, ctx.deadline⟩, e⟩ :=
  explore_stop (mem_fresh.2 ⟨.inl rfl, h⟩) hover

theorem order_eq_nil_of_over (hover : ctx.deadline = .after 0)
    (h : ctx.deadline.Lasts (e.order sources ctx entry).length) :
    e.order sources ctx entry = [] := by
  rw [hover] at h
  exact List.length_eq_zero_iff.1 (Nat.le_zero.1 h)

/-- A traversal that fails leaves no time for another check. -/
theorem explore_over (fresh stack : List Text) (reached : TextSet) (ctx : Context) (e : Engine)
    {expanded : Nat} (h : (explore sources fresh stack reached ctx e).outcome = .error expanded) :
    (explore sources fresh stack reached ctx e).context.deadline = .after 0 := by
  induction fresh, stack, reached, ctx, e using explore.induct sources with
  | case1 fresh reached ctx e =>
    rw [explore] at h
    cases h
  | case2 fresh reached ctx e file stack hfile ctx' hcheck =>
    have hcheck : ctx.deadline.check? = none := hcheck
    rw [explore_stop hfile hcheck]
    cases hdeadline : ctx.deadline with
    | never => simp [hdeadline, Deadline.check?] at hcheck
    | after n =>
      cases n with
      | zero => rfl
      | succ n => simp [hdeadline, Deadline.check?] at hcheck
  | case3 fresh reached ctx e file stack hfile ctx' deadline hcheck targets e' htargets ih =>
    have hcheck : ctx.deadline.check? = some deadline := hcheck
    rw [explore_expand hfile hcheck, next, htargets] at h ⊢
    exact ih h
  | case4 fresh reached ctx e file stack hfile ih =>
    rw [explore_skip hfile] at h ⊢
    exact ih h

theorem call_over {expanded : Nat} (h : (e.call sources ctx entry).outcome = .error expanded) :
    (e.call sources ctx entry).after.deadline = .after 0 :=
  explore_over _ _ _ _ _ h

theorem entry_mem_order (h : entry ∉ ctx.visited) : entry ∈ e.order sources ctx entry := by
  apply mem_depthFirst.2
  exact ⟨entry, List.mem_singleton_self entry, mem_fresh.2 ⟨.inl rfl, h⟩, .refl⟩

/-! ## What every call keeps -/

/-- What holds of a context after the calls in `history`: all that a file which is marked and not
lost reaches was told, and either no file is lost and the context holds what its files import, or
the time is over. -/
structure Keeps (e : Engine) (sources : Sources) (history : List Call) (ctx : Context) : Prop where
  whole : ∀ file ∈ ctx.visited, ¬Lost history file →
    ∀ target, TransGen (e.Imports sources) file target →
    target ∈ told history
  closed_or_over : (e.Closed sources ctx ∧ ∀ file, ¬Lost history file) ∨ ctx.deadline = .after 0

theorem Keeps.nil (e : Engine) (sources : Sources) (deadline : Deadline) :
    e.Keeps sources [] { deadline } where
  whole _ hfile := absurd hfile List.not_mem_nil
  closed_or_over := .inl ⟨closed_fresh e sources deadline, by simp [Lost]⟩

theorem Keeps.call_ok (h : e.Keeps sources history ctx)
    (hlasts : ctx.deadline.Lasts (e.order sources ctx entry).length) :
    e.Keeps sources (history ++ [e.call sources ctx entry]) (e.call sources ctx entry).after := by
  have hcall := call_of_lasts hlasts
  have hlost : ∀ file, Lost (history ++ [e.call sources ctx entry]) file ↔ Lost history file := by
    intro file
    rw [lost_append, lost_singleton, hcall]
    simp
  have htold : told (history ++ [e.call sources ctx entry]) =
      told history ++ e.found sources ctx entry := by
    rw [told_append, hcall, told_of_ok rfl]
  obtain ⟨hwhole, ⟨hclosed, hnone⟩ | hover⟩ := h
  · constructor
    · intro file hfile _ target hpath
      rw [htold, List.mem_append]
      rw [hcall, Context.mem_visited_expand] at hfile
      rcases hfile with horder | hfile
      · obtain ⟨last, hlast, himports⟩ := TransGen.tail'_iff.1 hpath
        -- the last file on the way was expanded by an earlier call or is expanded by this one
        by_cases hvisited : last ∈ ctx.visited
        · exact .inl (hwhole last hvisited (hnone last) target (.single himports))
        · have hentry := ((mem_order hclosed).1 horder).1
          exact .inr (mem_found.2 ⟨last, (mem_order hclosed).2 ⟨hentry.trans hlast, hvisited⟩,
            himports⟩)
      · exact .inl (hwhole file hfile (hnone file) target hpath)
    · left
      refine ⟨?_, fun file => (hlost file).not.2 (hnone file)⟩
      rw [hcall]
      exact hclosed.traverse entry
  · have hnil := order_eq_nil_of_over hover hlasts
    have hafter : (e.call sources ctx entry).after = ctx := by
      rw [hcall, hnil]
      simp [Context.expand]
    rw [hafter]
    refine ⟨fun file hfile hnot target hpath => ?_, .inr hover⟩
    rw [htold]
    exact List.mem_append_left _ (hwhole file hfile ((hlost file).not.1 hnot) target hpath)

theorem Keeps.call_error (h : e.Keeps sources history ctx) {expanded : Nat}
    (herror : (e.call sources ctx entry).outcome = .error expanded) :
    e.Keeps sources (history ++ [e.call sources ctx entry]) (e.call sources ctx entry).after where
  whole file hfile hnot target hpath := by
    rw [lost_append, lost_singleton, not_or] at hnot
    have hbefore : file ∈ ctx.visited := by
      by_contra hnew
      exact hnot.2 ⟨⟨expanded, herror⟩, hfile, hnew⟩
    rw [told_append]
    exact List.mem_append_left _ (h.whole file hbefore hnot.1 target hpath)
  closed_or_over := .inr (call_over herror)

/-- **Every call keeps it**, whether it succeeds or fails. -/
theorem Keeps.call (h : e.Keeps sources history ctx) (entry : Text) :
    e.Keeps sources (history ++ [e.call sources ctx entry]) (e.call sources ctx entry).after := by
  by_cases hlasts : ctx.deadline.Lasts (e.order sources ctx entry).length
  · exact h.call_ok hlasts
  · obtain ⟨expanded, herror⟩ := traverse_of_not_lasts hlasts
    exact h.call_error herror

theorem Keeps.honest (h : e.Keeps sources history ctx) (hentry : ¬Lost history entry) :
    e.Honest sources history (e.call sources ctx entry) := by
  intro reached hok target hpath
  have hlasts : ctx.deadline.Lasts (e.order sources ctx entry).length := by
    by_contra hnot
    obtain ⟨expanded, herror⟩ := traverse_of_not_lasts hnot
    have heq : Except.error expanded = Except.ok reached := herror.symm.trans hok
    cases heq
  have hcall := call_of_lasts hlasts
  have hmarked : entry ∈ (e.call sources ctx entry).after.visited := by
    rw [hcall, Context.mem_visited_expand]
    by_cases hvisited : entry ∈ ctx.visited
    · exact .inr hvisited
    · exact .inl (entry_mem_order hvisited)
  have hnot : ¬Lost (history ++ [e.call sources ctx entry]) entry := by
    rw [lost_append, lost_singleton, hok]
    simpa using hentry
  have htold := (h.call entry).whole entry hmarked hnot target hpath
  rw [told_append, told_of_ok hok, List.mem_append] at htold
  exact htold.symm

/-! ## All calls -/

theorem Keeps.congr (h : e.Keeps sources history ctx)
    (heq : e'.Imports sources = e.Imports sources) : e'.Keeps sources history ctx := by
  obtain ⟨hwhole, hclosed⟩ := h
  constructor
  · rwa [heq]
  · unfold Closed at hclosed ⊢
    rwa [heq]

theorem Keeps.calls {entries : List Text} {earlier later : List Call} {c : Call}
    (h : e.Keeps sources history ctx) (hgrows : Grows sources e e')
    (hcalls : e'.calls sources ctx entries = earlier ++ c :: later)
    (hentry : ¬Lost (history ++ earlier) c.entry) : e.Honest sources (history ++ earlier) c := by
  induction entries generalizing history ctx e' earlier with
  | nil => simp [Engine.calls] at hcalls
  | cons entry entries ih =>
    have hkeeps := h.congr hgrows.imports_eq
    rw [Engine.calls] at hcalls
    rcases List.cons_eq_append_iff.1 hcalls with ⟨rfl, hc⟩ | ⟨rest, rfl, hrest⟩
    · obtain ⟨rfl, -⟩ := List.cons_eq_cons.1 hc
      rw [List.append_nil] at hentry ⊢
      have hhonest := hkeeps.honest hentry
      unfold Honest at hhonest ⊢
      rwa [hgrows.imports_eq] at hhonest
    · have hnext : e.Keeps sources (history ++ [e'.call sources ctx entry])
          (e'.call sources ctx entry).after :=
        (hkeeps.call entry).congr hgrows.imports_eq.symm
      rw [List.append_cons] at hentry ⊢
      exact ih hnext (hgrows.trans (grows_traverse e' sources ctx entry)) hrest hentry

/-- **A call that succeeds is honest** for every deadline and every history of calls on its context,
failed ones among them, if its entry was not marked by a call that failed. -/
theorem calls_honest (e : Engine) (sources : Sources) (deadline : Deadline) (entries : List Text)
    {earlier later : List Call} {c : Call}
    (h : e.calls sources { deadline } entries = earlier ++ c :: later)
    (hentry : ¬Lost earlier c.entry) : e.Honest sources earlier c :=
  (Keeps.nil e sources deadline).calls (.refl sources e) h hentry

/-! ### Calls on a project of two files -/

/-- A call on `a.ts` after calls on it and on another file, the second of which finds the deadline
passed. -/
def pairCalls : List Call :=
  [⟨"/a.ts".toList, { deadline := .after 2 }, .ok ["/b.ts".toList],
      ⟨["/b.ts".toList, "/a.ts".toList], .after 0⟩⟩,
    ⟨"/c.ts".toList, ⟨["/b.ts".toList, "/a.ts".toList], .after 0⟩, .error 3,
      ⟨["/c.ts".toList, "/b.ts".toList, "/a.ts".toList], .after 0⟩⟩]

def pairCall : Call :=
  ⟨"/a.ts".toList, ⟨["/c.ts".toList, "/b.ts".toList, "/a.ts".toList], .after 0⟩, .ok [],
    ⟨["/c.ts".toList, "/b.ts".toList, "/a.ts".toList], .after 0⟩⟩

theorem depthFirst_pair {next : Text → List Text} {a b : Text} (hne : a ≠ b) (ha : next a = [b])
    (hb : next b = []) : depthFirst next [a, b] [a] = [a, b] := by
  simp [depthFirst, ha, hb, hne]

theorem calls_honest_pairCall :
    pairEngine.calls pairSources { deadline := .after 2 }
        ["/a.ts".toList, "/c.ts".toList, "/a.ts".toList] =
        pairCalls ++ pairCall :: [] ∧
      ¬Lost pairCalls pairCall.entry ∧ pairEngine.Honest pairSources pairCalls pairCall := by
  have hfresh : pairEngine.fresh { deadline := .after 2 } "/a.ts".toList =
      ["/a.ts".toList, "/b.ts".toList] := by decide +kernel
  have hsecond : pairEngine.next pairSources "/b.ts".toList = [] := by decide +kernel
  have horder : pairEngine.order pairSources { deadline := .after 2 } "/a.ts".toList =
      ["/a.ts".toList, "/b.ts".toList] := by
    rw [order, hfresh]
    exact depthFirst_pair (by decide) next_pairEngine hsecond
  have hlasts : Deadline.Lasts (.after 2)
      (pairEngine.order pairSources { deadline := .after 2 } "/a.ts".toList).length := by
    rw [horder]
    exact Nat.le_refl 2
  have hcalls : pairEngine.calls pairSources { deadline := .after 2 }
      ["/a.ts".toList, "/c.ts".toList, "/a.ts".toList] = pairCalls ++ pairCall :: [] := by
    simp only [calls, call]
    rw [traverse_of_lasts hlasts, found, horder, List.flatMap_cons, List.flatMap_cons,
      next_pairEngine, hsecond, traverse_of_over (by decide) rfl, traverse_of_visited (by decide)]
    rfl
  have hentry : ¬Lost pairCalls pairCall.entry := by
    simp [Lost, pairCalls, pairCall, Call.Marks]
  exact ⟨hcalls, hentry, calls_honest pairEngine pairSources (.after 2) _ hcalls hentry⟩

/-- A call leaves out what its entry reaches after an earlier one has failed: with the deadline
passed, the first call on `a.ts` fails and still marks it as expanded, so the second answers that it
reaches nothing. -/
theorem calls_dishonest :
    ∃ earlier c,
      pairEngine.calls pairSources { deadline := .after 0 } ["/a.ts".toList, "/a.ts".toList] =
        earlier ++ [c] ∧ c.outcome = .ok [] ∧ told earlier = [] ∧
      TransGen (Imports pairEngine pairSources) c.entry "/b.ts".toList ∧
        ¬pairEngine.Honest pairSources earlier c := by
  have hcalls : pairEngine.calls pairSources { deadline := .after 0 }
      ["/a.ts".toList, "/a.ts".toList] =
      [⟨"/a.ts".toList, { deadline := .after 0 }, .error 1, ⟨["/a.ts".toList], .after 0⟩⟩,
        ⟨"/a.ts".toList, ⟨["/a.ts".toList], .after 0⟩, .ok [], ⟨["/a.ts".toList], .after 0⟩⟩] := by
    simp only [calls, call]
    rw [traverse_of_over List.not_mem_nil rfl, traverse_of_visited (List.mem_singleton_self _)]
    rfl
  have hpath : TransGen (Imports pairEngine pairSources) "/a.ts".toList "/b.ts".toList :=
    .single imports_pairEngine
  refine ⟨[_], _, hcalls, rfl, rfl, hpath, fun h => ?_⟩
  rcases h [] rfl _ hpath with hmem | hmem
  · cases hmem
  · cases hmem

end Engine

end Unreached

import Mathlib.Data.Finset.Card
import Unreached.Proofs.Union

/-!
# What an engine sees of files that change

Files may change while an engine is in use. It answers as if each file had always been as it was
when its imports were first asked for.

* `Project.reply` : the answer of an engine without memory, with the files whose imports it asks
  for;
* `Request`, `Engine.serve` : operations one after the other, each with the files as they are at its
  time;
* `Log`, `Project.log` : what was found of each file whose imports were asked for, and the files as
  they were first found (`Log.snapshot`);
* `Engine.Remembers` : the memory of an engine is what a log tells, which every operation keeps;
* `Engine.serve_snapshot` : an engine answers all requests as one without memory does on a single
  snapshot, and the files that it has read are those whose imports were asked for.
-/

namespace Unreached

set_option autoImplicit false

open Engine (Operation)

/-! ## Engines without memory -/

/-- A traversal without memory: its outcome, the context afterwards, and the files whose imports it
asks for, in order. -/
structure Course where
  outcome : Except Nat TextSet
  context : Context
  asked : List Text

/-- What is answered to an operation. -/
inductive Reply where
  | imports (specs : List Text)
  | target (target? : Option Text)
  | traversal (outcome : Except Nat TextSet) (context : Context)
  | reached (outcome : Except Nat TextSet)

namespace Project
variable (p : Project) (sources : Sources)

/-- Expands the files on the stack, and then those that they import, as far as they are `fresh`.
Each file is read when it is expanded. -/
def explore (fresh stack : List Text) (reached : TextSet) (ctx : Context) : Course :=
  match stack with
  | [] => ⟨.ok reached, ctx, []⟩
  | file :: stack =>
    if file ∈ fresh then
      let ctx := { ctx with visited := file :: ctx.visited }
      match ctx.deadline.check? with
      | none => ⟨.error ctx.expanded, ctx, []⟩
      | some deadline =>
        let targets := p.targets sources file
        let rest := explore (fresh.erase file) (targets.reverse ++ stack)
          (reached.insertAll targets) { ctx with deadline }
        { rest with asked := file :: rest.asked }
    else explore fresh stack reached ctx
termination_by (fresh.length, stack.length)
decreasing_by
  · have := List.length_erase_of_mem ‹file ∈ fresh›
    have := List.length_pos_of_mem ‹file ∈ fresh›
    exact Prod.Lex.left _ _ (by omega)
  · exact Prod.Lex.right _ (by simp)

/-- The files reachable from an entry. -/
def traverse (ctx : Context) (entry : Text) : Course :=
  p.explore sources ((Engine.new p).fresh ctx entry) [entry] [] ctx

/-- The files reachable from several entries beyond those in `reached`, with the files whose imports
are asked for. What a traversal leaves of its context goes through `renew` to the next. -/
def reachableFrom (renew : Context → Context) :
    TextSet → Context → List Text → Except Nat TextSet × List Text
  | reached, _, [] => (.ok reached, [])
  | reached, ctx, entry :: entries =>
    let c := p.traverse sources ctx entry
    match c.outcome with
    | .error n => (.error n, c.asked)
    | .ok more =>
      let rest := reachableFrom renew (reached.insertAll more) (renew c.context) entries
      (rest.1, c.asked ++ rest.2)

/-- The answer to an operation, with the files whose imports are asked for. -/
def reply : Operation → Reply × List Text
  | .imports file => (.imports (p.imports sources file), [file])
  | .resolve importer spec => (.target (p.resolve? importer spec), [])
  | .traverse ctx entry =>
    let c := p.traverse sources ctx entry
    (.traversal c.outcome c.context, c.asked)
  | .reachable deadline entries =>
    let r := p.reachableFrom sources id [] { deadline } entries
    (.reached r.1, r.2)
  | .reachableApart deadline entries =>
    let r := p.reachableFrom sources (fun ctx => { deadline := ctx.deadline }) []
      { deadline } entries
    (.reached r.1, r.2)

end Project

/-! ## Requests -/

/-- An operation, with the files as they are at its time. -/
structure Request where
  sources : Sources
  operation : Operation

namespace Engine

/-- The answer to an operation. -/
def reply (e : Engine) (sources : Sources) : Operation → Reply
  | .imports file => .imports (e.imports sources file).1
  | .resolve importer spec => .target (e.resolve? importer spec).1
  | .traverse ctx entry =>
    let t := e.traverse sources ctx entry
    .traversal t.outcome t.context
  | .reachable deadline entries => .reached (e.reachable sources deadline entries).1
  | .reachableApart deadline entries => .reached (e.reachableApart sources deadline entries).1

/-- The answers to requests one after the other, and the engine after them. -/
def serve (e : Engine) : List Request → List Reply × Engine
  | [] => ([], e)
  | r :: requests =>
    let rest := (e.perform r.sources r.operation).serve requests
    (e.reply r.sources r.operation :: rest.1, rest.2)

end Engine

/-- What was found of files whose imports were asked for, in the order of the questions. Nothing is
found of a file that cannot be read. -/
abbrev Log := List (Text × Option Text)

/-- The files as they were when their imports were first asked for. The others are as `rest` has
them. -/
def Log.snapshot (log : Log) (rest : Sources) : Sources :=
  fun file => (log.lookup file).getD (rest file)

/-- The log with the files whose imports are asked for at a time. -/
def Log.extend (log : Log) (sources : Sources) (files : List Text) : Log :=
  log ++ files.map fun file => (file, sources file)

/-- The log after requests. -/
def Project.logFrom (p : Project) : Log → List Request → Log
  | log, [] => log
  | log, r :: requests =>
    p.logFrom (log.extend r.sources (p.reply (log.snapshot r.sources) r.operation).2) requests

/-- The log of requests to an engine that has not been asked before. -/
def Project.log (p : Project) (requests : List Request) : Log := p.logFrom [] requests

/-! ## Logs -/

section
variable {log : Log} {sources sources' rest : Sources} {files : List Text} {file : Text}

theorem Log.snapshot_extend (h : file ∈ files) (more : Log) :
    Log.snapshot (log.extend sources files ++ more) rest file = log.snapshot sources file := by
  have hlookup : (files.map fun f => (f, sources f)).lookup file = some (sources file) := by
    induction files with
    | nil => cases h
    | cons f files ih =>
      rw [List.map_cons, List.lookup_cons]
      by_cases heq : file = f
      · simp [heq]
      · rw [beq_false_of_ne heq]
        exact ih ((List.mem_cons.1 h).resolve_left heq)
  unfold Log.snapshot Log.extend
  rw [List.lookup_append, List.lookup_append, hlookup]
  cases log.lookup file with
  | none => rfl
  | some content => rfl

theorem Project.exists_logFrom_eq (p : Project) (log : Log) (requests : List Request) :
    ∃ more, p.logFrom log requests = log ++ more := by
  induction requests generalizing log with
  | nil => exact ⟨[], (List.append_nil log).symm⟩
  | cons r requests ih =>
    obtain ⟨more, hmore⟩ :=
      ih (log.extend r.sources (p.reply (log.snapshot r.sources) r.operation).2)
    rw [Project.logFrom, hmore, Log.extend, List.append_assoc]
    exact ⟨_, rfl⟩

end

/-! ## Answers depend on the files asked for only -/

namespace Project
variable {p : Project} {sources sources' : Sources} {fresh stack : List Text} {reached : TextSet}
  {ctx : Context} {file : Text}

theorem imports_congr (h : sources' file = sources file) :
    p.imports sources' file = p.imports sources file := by
  unfold imports
  rw [h]

theorem targets_congr (h : sources' file = sources file) :
    p.targets sources' file = p.targets sources file := by
  unfold targets
  rw [imports_congr h]

theorem explore_skip (h : file ∉ fresh) :
    p.explore sources fresh (file :: stack) reached ctx =
      p.explore sources fresh stack reached ctx := by
  rw [explore, if_neg h]

theorem explore_stop (h : file ∈ fresh) (hcheck : ctx.deadline.check? = none) :
    p.explore sources fresh (file :: stack) reached ctx =
      ⟨.error (ctx.expanded + 1), ⟨file :: ctx.visited, ctx.deadline⟩, []⟩ := by
  rw [explore, if_pos h]
  simp only [hcheck]
  rfl

/-- The traversal after a file has been expanded. -/
def explored (p : Project) (sources : Sources) (fresh stack : List Text) (reached : TextSet)
    (ctx : Context) (file : Text) (deadline : Deadline) : Course :=
  p.explore sources (fresh.erase file) ((p.targets sources file).reverse ++ stack)
    (reached.insertAll (p.targets sources file)) ⟨file :: ctx.visited, deadline⟩

theorem explore_expand {deadline : Deadline} (h : file ∈ fresh)
    (hcheck : ctx.deadline.check? = some deadline) :
    p.explore sources fresh (file :: stack) reached ctx =
      { p.explored sources fresh stack reached ctx file deadline with
        asked := file :: (p.explored sources fresh stack reached ctx file deadline).asked } := by
  rw [explore, if_pos h]
  simp only [hcheck]
  rfl

theorem explore_congr
    (h : ∀ file ∈ (p.explore sources fresh stack reached ctx).asked, sources' file = sources file) :
    p.explore sources' fresh stack reached ctx = p.explore sources fresh stack reached ctx := by
  induction fresh, stack, reached, ctx using explore.induct p sources with
  | case1 fresh reached ctx => rw [explore, explore]
  | case2 fresh reached ctx file stack hfile ctx' hcheck =>
    have hcheck : ctx.deadline.check? = none := hcheck
    rw [explore_stop hfile hcheck, explore_stop hfile hcheck]
  | case3 fresh reached ctx file stack hfile ctx' deadline hcheck targets ih =>
    have hcheck : ctx.deadline.check? = some deadline := hcheck
    rw [explore_expand hfile hcheck] at h
    obtain ⟨hfirst, hrest⟩ := List.forall_mem_cons.1 h
    have hexplored : p.explored sources' fresh stack reached ctx file deadline =
        p.explored sources fresh stack reached ctx file deadline := by
      unfold explored
      rw [targets_congr hfirst]
      exact ih hrest
    rw [explore_expand hfile hcheck, explore_expand hfile hcheck, hexplored]
  | case4 fresh reached ctx file stack hfile ih =>
    rw [explore_skip hfile] at h
    rw [explore_skip hfile, explore_skip hfile, ih h]

theorem traverse_congr {entry : Text}
    (h : ∀ file ∈ (p.traverse sources ctx entry).asked, sources' file = sources file) :
    p.traverse sources' ctx entry = p.traverse sources ctx entry :=
  explore_congr h

theorem reachableFrom_error {renew : Context → Context} {entry : Text} {entries : List Text}
    {n : Nat} (h : (p.traverse sources ctx entry).outcome = .error n) :
    p.reachableFrom sources renew reached ctx (entry :: entries) =
      (.error n, (p.traverse sources ctx entry).asked) := by
  rw [reachableFrom]
  simp only [h]

theorem reachableFrom_ok {renew : Context → Context} {entry : Text} {entries : List Text}
    {more : TextSet} (h : (p.traverse sources ctx entry).outcome = .ok more) :
    p.reachableFrom sources renew reached ctx (entry :: entries) =
      ((p.reachableFrom sources renew (reached.insertAll more)
          (renew (p.traverse sources ctx entry).context) entries).1,
        (p.traverse sources ctx entry).asked ++
          (p.reachableFrom sources renew (reached.insertAll more)
            (renew (p.traverse sources ctx entry).context) entries).2) := by
  rw [reachableFrom]
  simp only [h]

theorem reachableFrom_congr {renew : Context → Context} {entries : List Text}
    (h : ∀ file ∈ (p.reachableFrom sources renew reached ctx entries).2,
      sources' file = sources file) :
    p.reachableFrom sources' renew reached ctx entries =
      p.reachableFrom sources renew reached ctx entries := by
  induction entries generalizing reached ctx with
  | nil => rfl
  | cons entry entries ih =>
    cases houtcome : (p.traverse sources ctx entry).outcome with
    | error n =>
      rw [reachableFrom_error houtcome] at h ⊢
      have htraverse := traverse_congr h
      rw [reachableFrom_error (htraverse ▸ houtcome), htraverse]
    | ok more =>
      rw [reachableFrom_ok houtcome] at h ⊢
      obtain ⟨hfirst, hrest⟩ := List.forall_mem_append.1 h
      have htraverse := traverse_congr hfirst
      rw [reachableFrom_ok (htraverse ▸ houtcome), htraverse, ih hrest]

/-- **An engine without memory sees the files that it asks for and no others.** -/
theorem reply_congr {operation : Operation}
    (h : ∀ file ∈ (p.reply sources operation).2, sources' file = sources file) :
    p.reply sources' operation = p.reply sources operation := by
  cases operation with
  | imports file => rw [reply, reply, imports_congr (h file (List.mem_singleton_self file))]
  | resolve importer spec => rfl
  | traverse ctx entry => rw [reply, reply, traverse_congr h]
  | reachable deadline entries => rw [reply, reply, reachableFrom_congr h]
  | reachableApart deadline entries => rw [reply, reply, reachableFrom_congr h]

end Project

/-! ## The memory of an engine -/

namespace Engine
variable {p : Project} {e : Engine} {sources seen : Sources} {fresh stack : List Text}
  {reached : TextSet} {ctx : Context} {file entry : Text} {entries : List Text} {log : Log}

theorem explore_eq (fresh stack : List Text) (reached : TextSet) (ctx : Context) (e : Engine)
    (hnext : e.next sources = p.targets seen) :
    explore sources fresh stack reached ctx e =
      ⟨(p.explore seen fresh stack reached ctx).outcome,
        (p.explore seen fresh stack reached ctx).context,
        e.after sources (p.explore seen fresh stack reached ctx).asked⟩ := by
  induction fresh, stack, reached, ctx, e using explore.induct sources with
  | case1 fresh reached ctx e =>
    rw [explore, Project.explore]
    rfl
  | case2 fresh reached ctx e file stack hfile ctx' hcheck =>
    have hcheck : ctx.deadline.check? = none := hcheck
    rw [explore_stop hfile hcheck, Project.explore_stop hfile hcheck]
    rfl
  | case3 fresh reached ctx e file stack hfile ctx' deadline hcheck targets e' htargets ih =>
    have hcheck : ctx.deadline.check? = some deadline := hcheck
    have hgrows := grows_targets e sources file
    have hfirst : targets = p.targets seen file := by
      rw [← hnext, next, htargets]
    rw [explore_expand hfile hcheck, Project.explore_expand hfile hcheck, hnext]
    rw [htargets] at hgrows ⊢
    rw [hfirst] at ih
    rw [ih (hgrows.next_eq.trans hnext), Project.explored]
    unfold after
    rw [List.foldl_cons, htargets]
  | case4 fresh reached ctx e file stack hfile ih =>
    rw [explore_skip hfile, Project.explore_skip hfile, ih hnext]

theorem traverse_eq (hproject : e.project = p) (hnext : e.next sources = p.targets seen) :
    e.traverse sources ctx entry =
      ⟨(p.traverse seen ctx entry).outcome, (p.traverse seen ctx entry).context,
        e.after sources (p.traverse seen ctx entry).asked⟩ := by
  subst hproject
  exact explore_eq _ _ _ _ _ hnext

theorem reachableFrom_eq (hproject : e.project = p) (hnext : e.next sources = p.targets seen) :
    reachableFrom sources reached ctx e entries =
      ((p.reachableFrom seen id reached ctx entries).1,
        e.after sources (p.reachableFrom seen id reached ctx entries).2) := by
  induction entries generalizing reached ctx e with
  | nil => rfl
  | cons entry entries ih =>
    have hgrows := grows_after e sources (p.traverse seen ctx entry).asked
    rw [reachableFrom, traverse_eq hproject hnext]
    cases houtcome : (p.traverse seen ctx entry).outcome with
    | error n => rw [Project.reachableFrom_error houtcome]
    | ok more =>
      rw [Project.reachableFrom_ok houtcome, after_append]
      exact ih (hgrows.project.trans hproject) (hgrows.next_eq.trans hnext)

theorem reachableApartFrom_eq {deadline : Deadline} (hproject : e.project = p)
    (hnext : e.next sources = p.targets seen) :
    reachableApartFrom sources reached deadline e entries =
      ((p.reachableFrom seen (fun ctx => { deadline := ctx.deadline }) reached
          { deadline } entries).1,
        e.after sources
          (p.reachableFrom seen (fun ctx => { deadline := ctx.deadline }) reached
            { deadline } entries).2) := by
  induction entries generalizing reached deadline e with
  | nil => rfl
  | cons entry entries ih =>
    have hgrows := grows_after e sources (p.traverse seen { deadline } entry).asked
    rw [reachableApartFrom, traverse_eq hproject hnext]
    cases houtcome : (p.traverse seen { deadline } entry).outcome with
    | error n => rw [Project.reachableFrom_error houtcome]
    | ok more =>
      rw [Project.reachableFrom_ok houtcome, after_append]
      exact ih (hgrows.project.trans hproject) (hgrows.next_eq.trans hnext)

/-- The memory of an engine holds what the files of a log import, as they were first found. -/
structure Remembers (p : Project) (log : Log) (e : Engine) : Prop where
  project : e.project = p
  lookup : ∀ file, e.importMemory.lookup file =
    (log.lookup file).map fun content => p.imports (fun _ => content) file

theorem Remembers.new (p : Project) : Remembers p [] (Engine.new p) := ⟨rfl, fun _ => rfl⟩

theorem Remembers.imports_fst (h : Remembers p log e) (sources : Sources) (file : Text) :
    (e.imports sources file).1 = p.imports (log.snapshot sources) file := by
  rw [Engine.imports_fst, h.lookup, h.project]
  cases hlog : log.lookup file with
  | none =>
    have hnow : log.snapshot sources file = sources file := by simp [Log.snapshot, hlog]
    exact (Project.imports_congr hnow).symm
  | some content =>
    have hfound : log.snapshot sources file = content := by simp [Log.snapshot, hlog]
    show p.imports (fun _ => content) file = _
    unfold Project.imports
    rw [hfound]

theorem Remembers.next_eq (h : Remembers p log e) (sources : Sources) :
    e.next sources = p.targets (log.snapshot sources) := by
  funext file
  rw [next, targets_fst, h.imports_fst, h.project]
  rfl

theorem Remembers.of_eq {e' : Engine} (h : Remembers p log e) (hproject : e'.project = e.project)
    (hmemory : e'.importMemory = e.importMemory) : Remembers p log e' :=
  ⟨hproject.trans h.project, fun file => hmemory ▸ h.lookup file⟩

theorem Remembers.imports (h : Remembers p log e) (sources : Sources) (file : Text) :
    Remembers p (log.extend sources [file]) (e.imports sources file).2 := by
  have hextend : ∀ other, (log.extend sources [file]).lookup other =
      (log.lookup other).or (if other = file then some (sources file) else none) := by
    intro other
    unfold Log.extend
    rw [List.lookup_append]
    by_cases heq : other = file
    · simp [heq]
    · simp [List.lookup_cons, beq_false_of_ne heq, heq]
  rcases imports_cases e sources file with ⟨specs, hspecs, heq⟩ | ⟨hread, heq⟩
  · rw [heq]
    refine ⟨h.project, fun other => ?_⟩
    rw [h.lookup, hextend]
    -- a file that is remembered has been found before
    by_cases hother : other = file
    · rw [hother]
      rw [h.lookup] at hspecs
      cases hlog : log.lookup file with
      | none => simp [hlog] at hspecs
      | some content => rfl
    · simp [hother]
  · rw [heq]
    refine ⟨h.project, fun other => ?_⟩
    rw [hextend, read, List.lookup_cons]
    by_cases hother : other = file
    · have hlog : log.lookup file = none := by
        have hnone := h.lookup file
        rw [lookup_eq_none_iff.2 hread] at hnone
        simpa using hnone.symm
      subst hother
      rw [beq_self_eq_true, hlog, if_pos rfl, h.project]
      rfl
    · rw [beq_false_of_ne hother, h.lookup]
      simp [hother]

theorem Remembers.after (h : Remembers p log e) (sources : Sources) (files : List Text) :
    Remembers p (log.extend sources files) (e.after sources files) := by
  unfold Engine.after
  induction files generalizing log e with
  | nil => simpa [Log.extend] using h
  | cons file files ih =>
    have hproject : (e.targets sources file).2.project = (e.imports sources file).2.project :=
      (e.targets_project sources file).trans (grows_imports e sources file).project.symm
    have hfirst := (h.imports sources file).of_eq hproject (e.targets_importMemory sources file)
    have hrest := ih hfirst
    simpa [Log.extend] using hrest

/-- **An operation is answered as without memory** on the files as the log has them, and the memory
then holds what was found of the files whose imports it has asked for. -/
theorem Remembers.reply (h : Remembers p log e) (sources : Sources) (operation : Operation) :
    e.reply sources operation = (p.reply (log.snapshot sources) operation).1 ∧
      Remembers p (log.extend sources (p.reply (log.snapshot sources) operation).2)
        (e.perform sources operation) := by
  have hnext := h.next_eq sources
  cases operation with
  | imports file =>
    refine ⟨?_, h.imports sources file⟩
    rw [Engine.reply, h.imports_fst, Project.reply]
  | resolve importer spec =>
    refine ⟨?_, ?_⟩
    · rw [Engine.reply, resolve?_fst, h.project, Project.reply]
    · have hsame :=
        h.of_eq (resolve?_project e importer spec) (resolve?_importMemory e importer spec)
      show Remembers p (log.extend sources []) (e.resolve? importer spec).2
      rwa [Log.extend, List.map_nil, List.append_nil]
  | traverse ctx entry =>
    rw [Engine.reply, perform, traverse_eq h.project hnext]
    exact ⟨rfl, h.after sources _⟩
  | reachable deadline entries =>
    rw [Engine.reply, perform, reachable, reachableFrom_eq h.project hnext]
    exact ⟨rfl, h.after sources _⟩
  | reachableApart deadline entries =>
    rw [Engine.reply, perform, reachableApart, reachableApartFrom_eq h.project hnext]
    exact ⟨rfl, h.after sources _⟩

/-! ## All requests -/

theorem Remembers.serve (h : Remembers p log e) (requests : List Request) (rest : Sources) :
    (e.serve requests).1 =
        requests.map (fun r => (p.reply ((p.logFrom log requests).snapshot rest) r.operation).1) ∧
      Remembers p (p.logFrom log requests) (e.serve requests).2 := by
  induction requests generalizing log e with
  | nil => exact ⟨rfl, h⟩
  | cons r requests ih =>
    obtain ⟨hreply, hnext⟩ := h.reply r.sources r.operation
    obtain ⟨hreplies, hlast⟩ := ih hnext
    obtain ⟨more, hmore⟩ := p.exists_logFrom_eq
      (log.extend r.sources (p.reply (log.snapshot r.sources) r.operation).2) requests
    -- the whole log tells of the files asked for now what the log so far and the files of now tell
    have hwhole : p.reply ((p.logFrom log (r :: requests)).snapshot rest) r.operation =
        p.reply (log.snapshot r.sources) r.operation := by
      rw [Project.logFrom, hmore]
      exact Project.reply_congr fun file hfile => Log.snapshot_extend hfile more
    refine ⟨?_, hlast⟩
    rw [List.map_cons, hwhole, ← hreply]
    exact congrArg _ hreplies

theorem Remembers.filesRead (h : Remembers p log e) :
    e.filesRead = (log.map Prod.fst).toFinset.card := by
  have hmem : ∀ file, file ∈ e.readFiles ↔ file ∈ log.map Prod.fst := by
    intro file
    rw [← not_iff_not, ← lookup_eq_none_iff, h.lookup, Option.map_eq_none_iff,
      List.lookup_eq_none_iff]
    constructor
    · rintro h hmem
      obtain ⟨m, hm, rfl⟩ := List.mem_map.1 hmem
      simpa using h m hm
    · intro h m hm
      have hne : file ≠ m.1 := fun heq => h (heq ▸ List.mem_map_of_mem hm)
      simpa using hne
  rw [filesRead_eq, ← List.toFinset_card_of_nodup (nodup_readFiles e)]
  congr 1
  ext file
  rw [List.mem_toFinset, List.mem_toFinset, hmem]

/-- **An engine answers from one snapshot.** For every project and all requests, whatever happens to
the files between them, the answers are those of an engine without memory on the files as they were
when their imports were first asked for, and the number of files read is the number of files whose
imports have been asked for. Files that were never asked for do not matter. -/
theorem serve_snapshot (p : Project) (requests : List Request) (rest : Sources) :
    ((Engine.new p).serve requests).1 =
        requests.map (fun r => (p.reply ((p.log requests).snapshot rest) r.operation).1) ∧
      ((Engine.new p).serve requests).2.filesRead =
        ((p.log requests).map Prod.fst).toFinset.card := by
  obtain ⟨hreplies, hlast⟩ := (Remembers.new p).serve requests rest
  exact ⟨hreplies, hlast.filesRead⟩

end Engine

end Unreached

import Unreached.Graph.Project

/-!
# The reachability engine

An engine finds the files that are reachable from others in the import graph. It reads each file
once: what a file imports and what a specifier names is remembered and does not change later.

* `Engine.imports`, `Engine.resolve?` : the answers of the graph, from memory where it holds them;
* `Context` : the files that a traversal has expanded, and its deadline;
* `Engine.traverse` : the files reachable from one entry;
* `Engine.reachable`, `Engine.reachableApart` : those reachable from several, in one context or in
  one for each.

A traversal goes on with the file that was found last. It expands every file at most once, which is
why it ends (`Engine.explore`): the files that it may still expand are a finite list that shrinks.
-/

namespace Unreached

set_option autoImplicit false

/-! ## Deadlines and contexts -/

/-- A deadline, as the number of checks that find it not yet reached. -/
inductive Deadline where
  | never
  | after (checks : Nat)
deriving DecidableEq, Repr

/-- One check: what is left of the deadline, or nothing if it has passed. -/
def Deadline.check? : Deadline → Option Deadline
  | .never => some .never
  | .after 0 => none
  | .after (n + 1) => some (.after n)

/-- What a traversal keeps between entries. -/
structure Context where
  /-- The files that were expanded. -/
  visited : List Text := []
  deadline : Deadline := .never
deriving DecidableEq, Repr

/-- The number of files that were expanded. -/
def Context.expanded (ctx : Context) : Nat := ctx.visited.length

/-! ## Memory -/

/-- A project with what is remembered of its graph. A specifier is remembered with the file that it
names; what a file imports is remembered as it was read, and the file may have changed since. -/
structure Engine where
  project : Project
  /-- What files import. -/
  importMemory : List (Text × List Text) := []
  /-- What the specifiers of files name. -/
  targetMemory : List ((Text × Text) × Option Text) := []
  /-- No file is remembered twice. -/
  distinct : (importMemory.map Prod.fst).Nodup := by exact List.Pairwise.nil
  faithful : ∀ m ∈ targetMemory, m.2 = project.resolve? m.1.1 m.1.2 := by
    exact fun _ h => absurd h List.not_mem_nil

namespace Engine

/-- An engine that remembers nothing. -/
def new (project : Project) : Engine where
  project := project
  importMemory := []
  targetMemory := []
  distinct := List.Pairwise.nil
  faithful := fun _ h => absurd h List.not_mem_nil

/-- The number of files that were read. -/
def filesRead (e : Engine) : Nat := e.importMemory.length

/-- The files that were read, the last first. -/
def readFiles (e : Engine) : List Text := e.importMemory.map Prod.fst

theorem not_mem_readFiles_of_lookup {e : Engine} {file : Text}
    (h : e.importMemory.lookup file = none) : file ∉ e.readFiles := by
  intro hmem
  obtain ⟨m, hm, rfl⟩ := List.mem_map.1 hmem
  exact absurd (List.lookup_eq_none_iff.1 h m hm) (by simp)

/-- The engine after it has read a file that was not remembered. -/
def read (e : Engine) (sources : Sources) (file : Text) (h : file ∉ e.readFiles) : Engine where
  project := e.project
  importMemory := (file, e.project.imports sources file) :: e.importMemory
  targetMemory := e.targetMemory
  distinct := List.nodup_cons.2 ⟨h, e.distinct⟩
  faithful := e.faithful

/-- The engine with what a specifier of the file `importer` names remembered. -/
def remember (e : Engine) (importer spec : Text) : Engine where
  project := e.project
  importMemory := e.importMemory
  targetMemory := ((importer, spec), e.project.resolve? importer spec) :: e.targetMemory
  distinct := e.distinct
  faithful := List.forall_mem_cons.2 ⟨rfl, e.faithful⟩

/-- The local specifiers that a file imports. -/
def imports (e : Engine) (sources : Sources) (file : Text) : List Text × Engine :=
  match h : e.importMemory.lookup file with
  | some specs => (specs, e)
  | none => (e.project.imports sources file, e.read sources file (not_mem_readFiles_of_lookup h))

/-- The path of the file that a specifier of the file `importer` names. -/
def resolve? (e : Engine) (importer spec : Text) : Option Text × Engine :=
  match e.targetMemory.lookup (importer, spec) with
  | some target => (target, e)
  | none => (e.project.resolve? importer spec, e.remember importer spec)

/-- The files that the specifiers of the file `importer` name, but for those that are never
resolved. -/
def resolveAll (e : Engine) (importer : Text) : List Text → List Text × Engine
  | [] => ([], e)
  | spec :: specs =>
    if e.project.isSkipped spec then resolveAll e importer specs
    else
      let (target?, e) := e.resolve? importer spec
      let (targets, e) := resolveAll e importer specs
      (target?.toList ++ targets, e)

/-- The files that a file imports. -/
def targets (e : Engine) (sources : Sources) (file : Text) : List Text × Engine :=
  let (specs, e) := e.imports sources file
  e.resolveAll file specs

/-! ## Traversal -/

/-- The outcome of a traversal: the files that it reached, or the number of files that were expanded
when the deadline passed; and what there is afterwards. -/
structure Traversal where
  outcome : Except Nat TextSet
  context : Context
  engine : Engine

/-- Expands the files on the stack, and then those that they import, as far as they are `fresh`. -/
def explore (sources : Sources) (fresh stack : List Text) (reached : TextSet) (ctx : Context)
    (e : Engine) : Traversal :=
  match stack with
  | [] => ⟨.ok reached, ctx, e⟩
  | file :: stack =>
    if file ∈ fresh then
      let ctx := { ctx with visited := file :: ctx.visited }
      match ctx.deadline.check? with
      | none => ⟨.error ctx.expanded, ctx, e⟩
      | some deadline =>
        let (targets, e) := e.targets sources file
        explore sources (fresh.erase file) (targets.reverse ++ stack) (reached.insertAll targets)
          { ctx with deadline } e
    else explore sources fresh stack reached ctx e
termination_by (fresh.length, stack.length)
decreasing_by
  · have := List.length_erase_of_mem ‹file ∈ fresh›
    have := List.length_pos_of_mem ‹file ∈ fresh›
    exact Prod.Lex.left _ _ (by omega)
  · exact Prod.Lex.right _ (by simp)

/-- The files that a traversal in the context may still expand, the entry among them. -/
def fresh (e : Engine) (ctx : Context) (entry : Text) : List Text :=
  (e.project.inventory.paths.insert entry).filter (· ∉ ctx.visited)

/-- The files reachable from an entry, which is among them only if one of them imports it. An entry
that was expanded before gives none. -/
def traverse (e : Engine) (sources : Sources) (ctx : Context) (entry : Text) : Traversal :=
  e.explore sources (e.fresh ctx entry) [entry] [] ctx

/-! ## Several entries -/

/-- The files reachable from the entries beyond those in `reached`, with one context for all. -/
def reachableFrom (sources : Sources) :
    TextSet → Context → Engine → List Text → Except Nat TextSet × Engine
  | reached, _, e, [] => (.ok reached, e)
  | reached, ctx, e, entry :: entries =>
    let t := e.traverse sources ctx entry
    match t.outcome with
    | .error n => (.error n, t.engine)
    | .ok more => reachableFrom sources (reached.insertAll more) t.context t.engine entries

/-- The files reachable from the entries, with one context for all. -/
def reachable (e : Engine) (sources : Sources) (deadline : Deadline) (entries : List Text) :
    Except Nat TextSet × Engine :=
  reachableFrom sources [] { deadline } e entries

/-- The files reachable from the entries beyond those in `reached`, with a context of its own for
each. The deadline is the same for all. -/
def reachableApartFrom (sources : Sources) :
    TextSet → Deadline → Engine → List Text → Except Nat TextSet × Engine
  | reached, _, e, [] => (.ok reached, e)
  | reached, deadline, e, entry :: entries =>
    let t := e.traverse sources { deadline } entry
    match t.outcome with
    | .error n => (.error n, t.engine)
    | .ok more =>
      reachableApartFrom sources (reached.insertAll more) t.context.deadline t.engine entries

/-- The files reachable from the entries, with a context of its own for each. -/
def reachableApart (e : Engine) (sources : Sources) (deadline : Deadline) (entries : List Text) :
    Except Nat TextSet × Engine :=
  reachableApartFrom sources [] deadline e entries

end Engine

end Unreached

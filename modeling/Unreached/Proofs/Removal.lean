import Mathlib.Data.Finset.Card
import Unreached.Proofs.Check

/-!
# Taking unused files away

A file that is not used can go: what the others import stays as it was, though a specifier names the
first of the files that fit it.

* `Project.unused` : the files that are neither entries nor reached;
* `Project.imports_without_iff` : the files that are used import the same without files that are
  not;
* `Project.reachableApart_without` : so the same files are reached;
* `unused_removal_stable` : a check without some of the files that it reports reports the others,
  and one without all of them reports nothing.
-/

namespace Unreached

set_option autoImplicit false

open Relation (ReflTransGen TransGen)

/-- The inventory without the files of a list. -/
def Inventory.without (inv : Inventory) (removed : List SourceFile) : Inventory :=
  inv.filter (· ∉ removed)

theorem Inventory.filter_comm (inv : Inventory) (keep keep' : SourceFile → Bool) :
    (inv.filter keep).filter keep' = (inv.filter keep').filter keep := by
  have hfiles : (inv.files.filter keep).filter keep' = (inv.files.filter keep').filter keep := by
    rw [List.filter_filter, List.filter_filter]
    exact List.filter_congr fun f _ => Bool.and_comm _ _
  simp only [filter, hfiles]

/-- Whether the texts of all files but those of a list are the same. -/
def AgreeBut (removed : List SourceFile) (sources sources' : Sources) : Prop :=
  ∀ file, file ∉ removed.map (·.path) → sources' file = sources file

/-- Two relations lead to the same from `a` if they agree on a set that `a` is in and the one does
not lead out of. -/
theorem transGen_iff_of_closed {r r' : Text → Text → Prop} {used : Text → Prop} {a b : Text}
    (hclosed : ∀ x y, used x → r x y → used y) (hsame : ∀ x y, used x → (r' x y ↔ r x y))
    (ha : used a) : TransGen r' a b ↔ TransGen r a b := by
  constructor
  · intro h
    suffices hboth : TransGen r a b ∧ used b from hboth.1
    induction h with
    | single hstep =>
      have hstep := (hsame _ _ ha).1 hstep
      exact ⟨.single hstep, hclosed _ _ ha hstep⟩
    | tail _ hstep ih =>
      have hstep := (hsame _ _ ih.2).1 hstep
      exact ⟨ih.1.tail hstep, hclosed _ _ ih.2 hstep⟩
  · intro h
    suffices hboth : TransGen r' a b ∧ used b from hboth.1
    induction h with
    | single hstep => exact ⟨.single ((hsame _ _ ha).2 hstep), hclosed _ _ ha hstep⟩
    | tail _ hstep ih => exact ⟨ih.1.tail ((hsame _ _ ih.2).2 hstep), hclosed _ _ ih.2 hstep⟩

/-! ## Projects -/

namespace Project

/-- The project without the files of a list. -/
def without (p : Project) (removed : List SourceFile) : Project :=
  { p with inventory := p.inventory.without removed }

/-- The files that are neither entries nor reached. -/
def unused (p : Project) (entries : List Text) (reached : TextSet) : List SourceFile :=
  p.inventory.files.filter fun f => !entries.contains f.path && !reached.contains f.path

/-- Whether a file is an entry or imports lead to it from one. -/
def Used (p : Project) (sources : Sources) (entries : List Text) (file : Text) : Prop :=
  file ∈ entries ∨ ∃ entry ∈ entries, TransGen (p.Imports sources) entry file

variable {p : Project} {sources sources' : Sources} {entries : List Text} {reached : TextSet}
  {removed : List SourceFile} {file target importer spec : Text} {deadline : Deadline}

theorem Used.tail (h : p.Used sources entries file) (himports : p.Imports sources file target) :
    p.Used sources entries target := by
  rcases h with h | ⟨entry, hentry, hpath⟩
  · exact .inr ⟨file, h, .single himports⟩
  · exact .inr ⟨entry, hentry, hpath.tail himports⟩

theorem unused_without :
    (p.without removed).unused entries reached =
      (p.unused entries reached).filter (· ∉ removed) := by
  unfold unused without Inventory.without Inventory.filter
  rw [List.filter_filter, List.filter_filter]
  refine List.filter_congr fun f _ => ?_
  rw [Bool.and_comm]

/-- A specifier that names no file to be taken away names what it did before. -/
theorem resolve?_without
    (h : ∀ f, p.inventory.resolve? p.aliases spec importer = some f → f ∉ removed) :
    (p.without removed).resolve? importer spec = p.resolve? importer spec := by
  have hsurvives : Survives (· ∉ removed) (p.inventory.resolve? p.aliases spec importer)
      ((p.inventory.without removed).resolve? p.aliases spec importer) :=
    Inventory.survives_resolve? _
  have hresolve : (p.inventory.without removed).resolve? p.aliases spec importer =
      p.inventory.resolve? p.aliases spec importer := by
    cases hf : p.inventory.resolve? p.aliases spec importer with
    | none => exact hsurvives.missed hf
    | some f => exact hsurvives.kept f hf (by simpa using h f hf)
  exact congrArg (Option.map SourceFile.path) hresolve

theorem imports_without (h : sources' file = sources file) :
    (p.without removed).imports sources' file = p.imports sources file := by
  unfold imports
  rw [h]
  rfl

/-- **The files that are used import the same** without files that are not, whatever became of the
texts of these. -/
theorem imports_without_iff (hremoved : ∀ f ∈ removed, ¬p.Used sources entries f.path)
    (hsources : AgreeBut removed sources sources') (hfile : p.Used sources entries file) :
    (p.without removed).Imports sources' file target ↔ p.Imports sources file target := by
  have htext : sources' file = sources file := by
    refine hsources file fun hmem => ?_
    obtain ⟨f, hf, rfl⟩ := List.mem_map.1 hmem
    exact hremoved f hf hfile
  -- a specifier of a used file names a used file, which stays
  have hresolve : ∀ spec ∈ p.imports sources file, p.isSkipped spec = false →
      (p.without removed).resolve? file spec = p.resolve? file spec := by
    intro spec hspec hskip
    refine resolve?_without fun f hf hmem => hremoved f hmem (hfile.tail ⟨spec, hspec, hskip, ?_⟩)
    unfold resolve?
    rw [hf]
    rfl
  unfold Imports
  rw [imports_without htext]
  constructor
  · rintro ⟨spec, hspec, hskip, htarget⟩
    have hskip : p.isSkipped spec = false := hskip
    exact ⟨spec, hspec, hskip, hresolve spec hspec hskip ▸ htarget⟩
  · rintro ⟨spec, hspec, hskip, htarget⟩
    exact ⟨spec, hspec, hskip, (hresolve spec hspec hskip).trans htarget⟩

theorem transGen_without_iff (hremoved : ∀ f ∈ removed, ¬p.Used sources entries f.path)
    (hsources : AgreeBut removed sources sources') {entry : Text} (hentry : entry ∈ entries) :
    TransGen ((p.without removed).Imports sources') entry target ↔
      TransGen (p.Imports sources) entry target :=
  transGen_iff_of_closed (fun _ _ hx hstep => Used.tail hx hstep)
    (fun _ _ hx => imports_without_iff hremoved hsources hx) (.inl hentry)

/-! ## Traversals -/

/-- The traversals in contexts of their own end with all that is reached. -/
theorem reachableApart_ok
    (h : (Engine.reachableApart (.new p) sources deadline entries).1 = .ok reached) :
    deadline.Lasts (entries.flatMap ((Engine.new p).order sources {})).length ∧
      Ascending id reached ∧
      ∀ target, target ∈ reached ↔
        ∃ entry ∈ entries, TransGen (p.Imports sources) entry target := by
  by_cases hlasts : deadline.Lasts (entries.flatMap ((Engine.new p).order sources {})).length
  · have hrun : Engine.reachableApart (.new p) sources deadline entries = _ :=
      Engine.reachableApartFrom_of_lasts hlasts
    rw [hrun] at h
    cases h
    refine ⟨hlasts, TextSet.ascending_ofList _, fun target => ?_⟩
    rw [← Engine.imports_new]
    exact Engine.mem_ofList_found
  · obtain ⟨expanded, hrun⟩ : ∃ expanded,
        (Engine.reachableApart (.new p) sources deadline entries).1 =
        .error expanded := Engine.reachableApartFrom_of_not_lasts hlasts
    rw [hrun] at h
    cases h

theorem not_used_of_mem_unused
    (h : (Engine.reachableApart (.new p) sources deadline entries).1 = .ok reached) {f : SourceFile}
    (hf : f ∈ p.unused entries reached) : ¬p.Used sources entries f.path := by
  obtain ⟨-, hunused⟩ := List.mem_filter.1 hf
  simp only [Bool.and_eq_true, Bool.not_eq_true', List.contains_eq_mem,
    decide_eq_false_iff_not] at hunused
  rintro (hentry | hreached)
  · exact hunused.1 hentry
  · exact hunused.2 (((reachableApart_ok h).2.2 f.path).2 hreached)

theorem length_order_without (hremoved : ∀ f ∈ removed, ¬p.Used sources entries f.path)
    (hsources : AgreeBut removed sources sources') {entry : Text} (hentry : entry ∈ entries) :
    ((Engine.new (p.without removed)).order sources' {} entry).length =
      ((Engine.new p).order sources {} entry).length := by
  refine List.Perm.length_eq ((List.perm_ext_iff_of_nodup (Engine.nodup_order _ _ _ _)
    (Engine.nodup_order _ _ _ _)).2 fun file => ?_)
  rw [Engine.mem_order_fresh, Engine.mem_order_fresh, Engine.imports_new, Engine.imports_new,
    Relation.reflTransGen_iff_eq_or_transGen, Relation.reflTransGen_iff_eq_or_transGen,
    transGen_without_iff hremoved hsources hentry]

/-- **The same files are reached** without files that are not used, and before the same deadline. -/
theorem reachableApart_without
    (h : (Engine.reachableApart (.new p) sources deadline entries).1 = .ok reached)
    (hremoved : removed ⊆ p.unused entries reached) (hsources : AgreeBut removed sources sources') :
    (Engine.reachableApart (.new (p.without removed)) sources' deadline entries).1 =
      .ok reached := by
  obtain ⟨hlasts, hascending, hmem⟩ := reachableApart_ok h
  have hunused : ∀ f ∈ removed, ¬p.Used sources entries f.path :=
    fun f hf => not_used_of_mem_unused h (hremoved hf)
  have hlength : (entries.flatMap ((Engine.new (p.without removed)).order sources' {})).length =
      (entries.flatMap ((Engine.new p).order sources {})).length := by
    rw [List.length_flatMap, List.length_flatMap]
    refine congrArg List.sum (List.map_congr_left fun entry hentry => ?_)
    exact length_order_without hunused hsources hentry
  rw [← hlength] at hlasts
  have hrun : Engine.reachableApart (.new (p.without removed)) sources' deadline entries = _ :=
    Engine.reachableApartFrom_of_lasts hlasts
  rw [hrun]
  refine congrArg Except.ok ((TextSet.ascending_ofList _).ext hascending fun target => ?_)
  rw [hmem target]
  refine Engine.mem_ofList_found.trans ?_
  rw [Engine.imports_new]
  constructor
  · rintro ⟨entry, hentry, hpath⟩
    exact ⟨entry, hentry, (transGen_without_iff hunused hsources hentry).1 hpath⟩
  · rintro ⟨entry, hentry, hpath⟩
    exact ⟨entry, hentry, (transGen_without_iff hunused hsources hentry).2 hpath⟩

end Project

/-! ## Checks -/

namespace Settings
variable {s : Settings} {inventory : Inventory} {sources sources' : Sources} {deadline : Deadline}
  {root : Text} {removed : List SourceFile} {reached : TextSet} {r : CheckResult}

theorem project_without :
    s.project (inventory.without removed) = (s.project inventory).without removed := by
  have hcandidates : (inventory.without removed).candidates =
      inventory.candidates.without removed :=
    inventory.filter_comm _ _
  unfold project Project.without
  rw [hcandidates]

/-- The files that a check reports are the unused files of its project. -/
theorem unusedFiles_eq :
    unusedFiles inventory.candidates s.markers reached =
      (s.project inventory).unused (s.entryPaths inventory) reached := by
  unfold unusedFiles Project.unused
  refine List.filter_congr fun f hf => ?_
  have hmem : f ∈ inventory.files := List.mem_of_mem_filter hf
  have hentry : isEntryPoint s.markers f.path = (s.entryPaths inventory).contains f.path := by
    rw [Bool.eq_iff_iff, List.contains_iff_mem]
    constructor
    · exact mem_entryPaths (List.mem_map_of_mem hmem)
    · intro hpath
      obtain ⟨g, hg, hpath⟩ := List.mem_map.1 hpath
      rw [← hpath]
      exact (List.mem_filter.1 hg).2
  rw [hentry]

theorem entryPoints_without (h : ∀ f ∈ removed, isEntryPoint s.markers f.path = false) :
    (inventory.without removed).entryPoints s.markers = inventory.entryPoints s.markers := by
  unfold Inventory.entryPoints Inventory.without Inventory.filter
  rw [List.filter_filter]
  refine List.filter_congr fun f _ => ?_
  by_cases hf : f ∈ removed
  · rw [h f hf]
    rfl
  · simp [hf]

theorem checkInventory_without (h : s.checkInventory root inventory sources deadline = .ok r)
    (hremoved : removed ⊆ r.unused) (hsources : AgreeBut removed sources sources') :
    s.checkInventory root (inventory.without removed) sources' deadline =
      .ok { r with
        unused := r.unused.filter (· ∉ removed)
        inventorySize := (inventory.without removed).size } := by
  obtain ⟨hrun, hr⟩ := checkInventory_ok h
  have hexact := exact_of_checkInventory h
  have hunused : r.unused = (s.project inventory).unused (s.entryPaths inventory)
      (s.reached inventory sources) := by
    rw [hr]
    exact unusedFiles_eq
  have hentries : (inventory.without removed).entryPoints s.markers =
      inventory.entryPoints s.markers := by
    refine entryPoints_without fun f hf => ?_
    have hmem := hremoved hf
    rw [hr] at hmem
    have hfilter := (List.mem_filter.1 hmem).2
    simp only [Bool.and_eq_true, Bool.not_eq_true'] at hfilter
    exact hfilter.1
  have hpaths : s.entryPaths (inventory.without removed) = s.entryPaths inventory := by
    unfold entryPaths
    rw [hentries]
  have hrun' : (Engine.reachableApart (s.engine (inventory.without removed)) sources' deadline
      (s.entryPaths (inventory.without removed))).1 = .ok (s.reached inventory sources) := by
    rw [hpaths, engine, project_without]
    refine Project.reachableApart_without ?_ (hunused ▸ hremoved) hsources
    exact congrArg Prod.fst hrun
  obtain ⟨r', hr'⟩ : ∃ r',
      s.checkInventory root (inventory.without removed) sources' deadline = .ok r' := by
    rw [checkInventory_eq, ← Prod.eta (Engine.reachableApart _ _ _ _), hrun']
    exact ⟨_, rfl⟩
  -- what is reached fixes all that the second check finds
  obtain ⟨hrun'', hr''⟩ := checkInventory_ok hr'
  have hreached : s.reached (inventory.without removed) sources' = s.reached inventory sources := by
    rw [hrun''] at hrun'
    exact Except.ok.inj hrun'
  have hread : (s.readEngine (inventory.without removed) sources').filesRead =
      (s.readEngine inventory sources).filesRead := by
    have hanalyzed := hexact.filesAnalyzed
    have hanalyzed' := (exact_of_checkInventory hr').filesAnalyzed
    rw [hr] at hanalyzed
    rw [hr'', hpaths, hreached] at hanalyzed'
    exact hanalyzed'.trans hanalyzed.symm
  have hleft : unusedFiles (inventory.without removed).candidates s.markers
      (s.reached inventory sources) =
      r.unused.filter (· ∉ removed) := by
    rw [unusedFiles_eq, hpaths, project_without, Project.unused_without, ← hunused]
  rw [hr', hr'', hentries, hreached, hread, hleft, hr]

end Settings

/-- **Unused files can be taken away.** For every project, every list of entries and every set of
its unused files, the same files are reached without these, and the unused files are the others,
whatever became of the texts of those that went. A check without some of the files that it reports
therefore differs in the number of files and reports the others, and one without all of them reports
nothing. -/
theorem unused_removal_stable :
    (∀ (p : Project) (sources sources' : Sources) (deadline : Deadline) (entries : List Text)
      (reached : TextSet) (removed : List SourceFile),
        (Engine.reachableApart (.new p) sources deadline entries).1 = .ok reached →
        removed ⊆ p.unused entries reached → AgreeBut removed sources sources' →
        (Engine.reachableApart (.new (p.without removed)) sources' deadline entries).1 =
          .ok reached ∧
          (p.without removed).unused entries reached =
            (p.unused entries reached).filter (· ∉ removed)) ∧
    ∀ (s : Settings) (root : Text) (inventory : Inventory) (sources sources' : Sources)
      (deadline : Deadline) (r : CheckResult) (removed : List SourceFile),
        s.checkInventory root inventory sources deadline = .ok r →
        removed ⊆ r.unused → AgreeBut removed sources sources' →
        ∃ r', s.checkInventory root (inventory.without removed) sources' deadline = .ok r' ∧
          r' = { r with
            unused := r.unused.filter (· ∉ removed)
            inventorySize := (inventory.without removed).size } ∧
          (r.unused ⊆ removed → r'.unused = []) := by
  constructor
  · intro p sources sources' deadline entries reached removed h hremoved hsources
    exact ⟨Project.reachableApart_without h hremoved hsources, Project.unused_without⟩
  · intro s root inventory sources sources' deadline r removed h hremoved hsources
    refine ⟨_, Settings.checkInventory_without h hremoved hsources, rfl, fun hall => ?_⟩
    rw [List.filter_eq_nil_iff]
    intro f hf
    simpa using hall hf

/-- Two files fit one import, which names the first of them. -/
def twinProject : Project where
  inventory := .ofPaths ["/a.ts".toList, "/lib/b.ts".toList, "/old/b.ts".toList]

/-- Without the twin that is not imported the other is still reached, and nothing is unused. -/
theorem unused_removal_stable_twin :
    (Engine.reachableApart (.new twinProject) Engine.pairSources .never ["/a.ts".toList]).1 =
      .ok ["/lib/b.ts".toList] ∧
      (Engine.reachableApart (.new (twinProject.without [.ofPath "/old/b.ts".toList]))
        Engine.pairSources .never ["/a.ts".toList]).1 = .ok ["/lib/b.ts".toList] ∧
      (twinProject.without [.ofPath "/old/b.ts".toList]).unused ["/a.ts".toList]
        ["/lib/b.ts".toList] = [] := by
  have hfirst : twinProject.targets Engine.pairSources "/a.ts".toList = ["/lib/b.ts".toList] := by
    decide +kernel
  have hsecond : twinProject.targets Engine.pairSources "/lib/b.ts".toList = [] := by decide +kernel
  have hreached : TextSet.ofList
      (["/a.ts".toList].flatMap ((Engine.new twinProject).found Engine.pairSources {})) =
      ["/lib/b.ts".toList] := by
    refine Engine.ofList_found_of_closed (List.pairwise_singleton _ _) ?_ ?_ ?_
    · exact List.forall_mem_singleton.2 (hfirst ▸ List.Subset.refl _)
    · exact List.forall_mem_singleton.2 (hsecond ▸ List.nil_subset _)
    · intro target htarget
      exact ⟨_, List.mem_singleton_self _, hfirst ▸ htarget⟩
  have hrun : (Engine.reachableApart (.new twinProject) Engine.pairSources .never
      ["/a.ts".toList]).1 = .ok ["/lib/b.ts".toList] := by
    have hapart : Engine.reachableApart (.new twinProject) Engine.pairSources .never
        ["/a.ts".toList] = _ := Engine.reachableApartFrom_of_lasts trivial
    rw [hapart, ← hreached]
    rfl
  have hunused : twinProject.unused ["/a.ts".toList] ["/lib/b.ts".toList] =
      [.ofPath "/old/b.ts".toList] := by decide
  have hstable :=
    unused_removal_stable.1 twinProject Engine.pairSources Engine.pairSources .never
      ["/a.ts".toList] ["/lib/b.ts".toList] [.ofPath "/old/b.ts".toList] hrun
      (hunused ▸ List.Subset.refl _) fun _ _ => rfl
  rw [hunused] at hstable
  exact ⟨hrun, hstable.1, hstable.2.trans (by decide)⟩

end Unreached

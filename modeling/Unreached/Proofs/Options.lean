import Unreached.Proofs.Check

/-!
# What options change in a check

More markers make more entry points, and more skipped leads cut more imports.

* `Settings.options` : settings with other markers and other skipped leads, which a check collects
  the same files for (`Surveyed.options`);
* `Settings.Wider` : settings under which there are more entry points and more imports. They reach
  more files (`Settings.Wider.reached`) and report fewer (`Settings.Wider.unused`);
* `check_monotone` : more markers report fewer files, and more skipped leads reach fewer files and
  report more.
-/

namespace Unreached

set_option autoImplicit false

open Relation (TransGen)

variable {host : Host} {tree : Tree} {settings s s' : Settings} {inventory inventory' : Inventory}
  {sources : Sources} {r r' : CheckResult}

/-- The settings with the given markers and skipped leads. -/
def Settings.options (s : Settings) (markers skippedLeads : List Text) : Settings :=
  { s with markers, skippedLeads }

/-- The course of a check that succeeds. -/
structure CheckRun (host : Host) (tree : Tree) (settings s : Settings) (inventory : Inventory)
    (deadline : Deadline) (r : CheckResult) : Prop where
  surveyed : Surveyed host tree settings s inventory
  timed : host.deadlineOf? s.timeout = some deadline
  checked : s.checkInventory (s.root.getD []) inventory (tree.sources host.cwd (s.root.getD []))
    deadline = .ok r

/-- Whether the traversals of a check that succeeds reach the files of the set `reached`. -/
def CheckReaches (host : Host) (tree : Tree) (settings : Settings) (r : CheckResult)
    (reached : TextSet) : Prop :=
  ∃ s inventory deadline, CheckRun host tree settings s inventory deadline r ∧
    r.reachable = reached.length ∧
    (Engine.reachableApart (.new (s.project inventory)) (tree.sources host.cwd (s.root.getD []))
      deadline ((inventory.entryPoints s.markers).map (·.path))).1 = .ok reached

/-! ## The same files -/

theorem Surveyed.options (h : Surveyed host tree settings s inventory)
    (markers skippedLeads : List Text) :
    Surveyed host tree (settings.options markers skippedLeads) (s.options markers skippedLeads)
      inventory := by
  obtain ⟨hinitialized, hcollected⟩ := h
  constructor
  · unfold Settings.initialize? at hinitialized ⊢
    obtain ⟨root, hroot, rfl⟩ := Option.map_eq_some_iff.1 hinitialized
    exact Option.map_eq_some_iff.2 ⟨root, hroot, rfl⟩
  · exact hcollected

theorem Surveyed.unique (h : Surveyed host tree settings s inventory)
    (h' : Surveyed host tree settings s' inventory') : s' = s ∧ inventory' = inventory := by
  have hs : s' = s := Option.some.inj (h'.initialized.symm.trans h.initialized)
  subst hs
  exact ⟨rfl, Except.ok.inj (h'.collected.symm.trans h.collected)⟩

/-- Two checks that differ in these options only and both succeed collect the same files. -/
theorem check_options {markers markers' leads leads' : List Text}
    (h : check host tree (settings.options markers leads) = .ok r)
    (h' : check host tree (settings.options markers' leads') = .ok r') :
    ∃ (s : Settings) (inventory : Inventory) (deadline : Deadline),
      CheckRun host tree (settings.options markers leads) (s.options markers leads)
        inventory deadline r ∧
      CheckRun host tree (settings.options markers' leads') (s.options markers' leads')
        inventory deadline r' := by
  obtain ⟨s, inventory, deadline, hs, hdeadline, hcheck⟩ := check_ok h
  obtain ⟨s', inventory', deadline', hs', hdeadline', hcheck'⟩ := check_ok h'
  have hsame : s.options markers leads = s := (hs.unique (hs.options markers leads)).1
  obtain ⟨rfl, rfl⟩ := (hs.options markers' leads').unique hs'
  obtain rfl : deadline' = deadline := Option.some.inj (hdeadline'.symm.trans hdeadline)
  refine ⟨s, inventory', deadline', ?_, ⟨hs', hdeadline', hcheck'⟩⟩
  rw [hsame]
  exact ⟨hs, hdeadline, hcheck⟩

theorem CheckRun.reaches {deadline : Deadline}
    (h : CheckRun host tree settings s inventory deadline r) :
    CheckReaches host tree settings r
      (s.reached inventory (tree.sources host.cwd (s.root.getD []))) := by
  obtain ⟨hrun, hr⟩ := Settings.checkInventory_ok h.checked
  refine ⟨s, inventory, deadline, h, ?_, ?_⟩
  · rw [hr]
  · exact congrArg Prod.fst hrun

/-! ## Wider settings -/

namespace Settings

/-- Settings `s'` are wider than `s` if they make every entry point of `s` one and count
every import that `s` counts. -/
structure Wider (s s' : Settings) : Prop where
  entries : ∀ path, isEntryPoint s.markers path = true → isEntryPoint s'.markers path = true
  imports : ∀ (inventory : Inventory) (sources : Sources) (file target : Text),
    (s.project inventory).Imports sources file target →
      (s'.project inventory).Imports sources file target

theorem Wider.reaches (h : Wider s s') {target : Text}
    (hreaches : s.Reaches inventory sources target) : s'.Reaches inventory sources target := by
  obtain ⟨entry, hentry, hpath⟩ := hreaches
  obtain ⟨hmem, hmarked⟩ := List.mem_filter.1 hentry
  refine ⟨entry, List.mem_filter.2 ⟨hmem, h.entries _ hmarked⟩, ?_⟩
  exact TransGen.mono (h.imports inventory sources) _ _ hpath

theorem Wider.reached (h : Wider s s') :
    s.reached inventory sources ⊆ s'.reached inventory sources := by
  intro target htarget
  exact mem_reached.2 (h.reaches (mem_reached.1 htarget))

theorem Wider.unused {root : Text} {deadline : Deadline} (h : Wider s s')
    (hr : s.checkInventory root inventory sources deadline = .ok r)
    (hr' : s'.checkInventory root inventory sources deadline = .ok r') : r'.unused ⊆ r.unused := by
  intro file hfile
  obtain ⟨-, rfl⟩ := checkInventory_ok hr
  obtain ⟨-, rfl⟩ := checkInventory_ok hr'
  obtain ⟨hcandidate, hentry, hreached⟩ := mem_unusedFiles.1 hfile
  have hmem : file ∈ inventory.files := List.mem_of_mem_filter hcandidate
  refine mem_unusedFiles.2 ⟨hcandidate, fun hentry' => hentry ?_,
    fun hreached' => hreached (h.reached hreached')⟩
  exact (mem_entryPoints hmem).2 (h.entries _ ((mem_entryPoints hmem).1 hentry'))

theorem wider_of_markers {markers markers' : List Text} (h : markers ⊆ markers') (s : Settings)
    (leads : List Text) : Wider (s.options markers leads) (s.options markers' leads) where
  entries path hpath := by
    simp only [options, isEntryPoint, Bool.or_eq_true] at hpath ⊢
    refine hpath.imp_right fun hmarker => ?_
    obtain ⟨m, hm, hincludes⟩ := List.any_eq_true.1 hmarker
    exact List.any_eq_true.2 ⟨m, h hm, hincludes⟩
  imports _ _ _ _ himports := himports

theorem wider_of_leads {leads leads' : List Text} (h : leads ⊆ leads') (s : Settings)
    (markers : List Text) : Wider (s.options markers leads') (s.options markers leads) where
  entries _ hpath := hpath
  imports inventory sources file target := by
    rintro ⟨spec, hspec, hskipped, hresolve⟩
    refine ⟨spec, hspec, ?_, hresolve⟩
    -- a lead that skips the specifier under the fewer leads does so under the more
    rw [Project.isSkipped, List.any_eq_false] at hskipped ⊢
    intro lead hlead
    apply hskipped lead
    exact (List.mem_append.1 hlead).elim (List.mem_append_left _) fun hmem =>
      List.mem_append_right _ (h hmem)

end Settings

/-- **More markers report fewer files, and more skipped leads reach fewer files and report more**,
for every project and all other settings the same, where both checks succeed. -/
theorem check_monotone (host : Host) (tree : Tree) (settings : Settings) :
    (∀ markers markers' r r', markers ⊆ markers' →
      check host tree { settings with markers := markers } = .ok r →
      check host tree { settings with markers := markers' } = .ok r' → r'.unused ⊆ r.unused) ∧
    ∀ leads leads' r r', leads ⊆ leads' →
      check host tree { settings with skippedLeads := leads } = .ok r →
      check host tree { settings with skippedLeads := leads' } = .ok r' →
      r.unused ⊆ r'.unused ∧ ∃ reached reached',
        CheckReaches host tree { settings with skippedLeads := leads } r reached ∧
        CheckReaches host tree { settings with skippedLeads := leads' } r' reached' ∧
        reached' ⊆ reached := by
  constructor
  · intro markers markers' r r' hsub hr hr'
    have hr : check host tree (settings.options markers settings.skippedLeads) = .ok r := hr
    have hr' : check host tree (settings.options markers' settings.skippedLeads) = .ok r' := hr'
    obtain ⟨s, inventory, deadline, hrun, hrun'⟩ := check_options hr hr'
    exact (Settings.wider_of_markers hsub s _).unused hrun.checked hrun'.checked
  · intro leads leads' r r' hsub hr hr'
    have hr : check host tree (settings.options settings.markers leads) = .ok r := hr
    have hr' : check host tree (settings.options settings.markers leads') = .ok r' := hr'
    obtain ⟨s, inventory, deadline, hrun, hrun'⟩ := check_options hr hr'
    have hwider := Settings.wider_of_leads hsub s settings.markers
    exact ⟨hwider.unused hrun'.checked hrun.checked, _, _, hrun.reaches, hrun'.reaches,
      hwider.reached⟩

/-! ### Two options -/

/-- A project at the root of a tree, with an entry point that imports a file and another file that
nothing imports. -/
def seedTree : Tree where
  entries := [
    (["index.ts".toList], .file (Text.bytes "import './gen'".toList)),
    (["gen.ts".toList], .file []),
    (["seed.ts".toList], .file [])]

def seedInventory : Inventory := .ofPaths ["/gen.ts".toList, "/index.ts".toList, "/seed.ts".toList]

/-- A result of a check of the project. -/
def seedResult (unused : List Text) (entries reachable filesAnalyzed : Nat) : CheckResult where
  root := ['/']
  unused := unused.map .ofPath
  entries
  inventorySize := 3
  reachable
  filesAnalyzed

theorem surveyed_seedTree :
    Surveyed { cwd := [] } seedTree { root := some ['/'] }
      { root := some ['/'] } seedInventory := by
  have h : seedTree.SettingsFree := by decide
  exact h.surveyed rfl rfl rfl rfl

/-- The settings of a check of the project. -/
def seedSettings (markers skippedLeads : List Text) : Settings :=
  { root := some ['/'], markers, skippedLeads }

/-- The files other than the entry point import nothing. -/
theorem targets_seedTree {file : Text} (h : file = "/gen.ts".toList ∨ file = "/seed.ts".toList)
    (p : Project) : p.targets (seedTree.sources [] ['/']) file = [] := by
  have hsource : seedTree.sources [] ['/'] file = some [] := by
    rcases h with rfl | rfl
    · exact Tree.sources_of_entry rfl rfl rfl (by decide : Tree.IsEntry "gen.ts".toList) rfl
    · exact Tree.sources_of_entry rfl rfl rfl (by decide : Tree.IsEntry "seed.ts".toList) rfl
  rw [Project.targets, Project.imports, hsource]
  rfl

/-- What the first file imports is all that is reached, also where the third is an entry point. -/
theorem reached_seedTree {markers leads others reached : List Text}
    (hentries : (seedSettings markers leads).entryPaths seedInventory =
      "/index.ts".toList :: others)
    (hothers : others ⊆ ["/seed.ts".toList]) (hreached : reached ⊆ ["/gen.ts".toList])
    (hascending : Ascending id reached)
    (htargets : ((seedSettings markers leads).project seedInventory).targets
      (fun _ => some "import './gen'".toList) "/index.ts".toList = reached) :
    (seedSettings markers leads).reached seedInventory (seedTree.sources [] ['/']) = reached := by
  have hindex : seedTree.sources [] ['/'] "/index.ts".toList = some "import './gen'".toList :=
    Tree.sources_of_entry rfl rfl rfl (by decide : Tree.IsEntry "index.ts".toList) rfl
  have hfirst : ((seedSettings markers leads).project seedInventory).targets
      (seedTree.sources [] ['/']) "/index.ts".toList = reached := by
    rw [Project.targets, Project.imports, hindex]
    exact htargets
  refine Engine.ofList_found_of_closed hascending ?_ (fun file hfile => ?_) fun target hmem => ?_
  · rw [hentries]
    refine List.forall_mem_cons.2 ⟨hfirst ▸ List.Subset.refl _, fun entry hentry => ?_⟩
    rw [targets_seedTree (.inr (List.mem_singleton.1 (hothers hentry)))]
    exact List.nil_subset _
  · rw [targets_seedTree (.inl (List.mem_singleton.1 (hreached hfile)))]
    exact List.nil_subset _
  · exact ⟨_, hentries ▸ List.mem_cons_self, hfirst ▸ hmem⟩

theorem check_seedTree {markers leads reached : List Text}
    (hentries : (seedInventory.entryPoints markers).isEmpty = false)
    (hreached : (seedSettings markers leads).reached seedInventory (seedTree.sources [] ['/']) =
      reached) :
    check { cwd := [] } seedTree (seedSettings markers leads) = .ok {
      root := ['/']
      unused := unusedFiles seedInventory.candidates markers reached
      entries := (seedInventory.entryPoints markers).length
      inventorySize := seedInventory.size
      reachable := reached.length
      filesAnalyzed := (((seedSettings markers leads).entryPaths seedInventory).toFinset ∪
        reached.toFinset).card } := by
  have hs : Surveyed _ _ (seedSettings markers leads) (seedSettings markers leads) _ :=
    surveyed_seedTree.options markers leads
  rw [hs.check_eq]
  have hmarkers : (seedSettings markers leads).markers = markers := rfl
  rw [hmarkers, hentries, ← hreached]
  exact Settings.checkInventory_never

theorem check_monotone_seedTree :
    (([] : List Text) ⊆ ["seed".toList] ∧
      check { cwd := [] } seedTree (seedSettings [] []) =
        .ok (seedResult ["/seed.ts".toList] 1 1 2) ∧
      check { cwd := [] } seedTree (seedSettings ["seed".toList] []) = .ok (seedResult [] 2 1 3) ∧
      (seedResult [] 2 1 3).unused ⊆ (seedResult ["/seed.ts".toList] 1 1 2).unused) ∧
    (([] : List Text) ⊆ ["./gen".toList] ∧
      check { cwd := [] } seedTree (seedSettings [] ["./gen".toList]) =
        .ok (seedResult ["/gen.ts".toList, "/seed.ts".toList] 1 0 1) ∧
      (seedResult ["/seed.ts".toList] 1 1 2).unused ⊆
        (seedResult ["/gen.ts".toList, "/seed.ts".toList] 1 0 1).unused ∧
      ∃ reached reached',
        CheckReaches { cwd := [] } seedTree (seedSettings [] [])
          (seedResult ["/seed.ts".toList] 1 1 2) reached ∧
        CheckReaches { cwd := [] } seedTree (seedSettings [] ["./gen".toList])
          (seedResult ["/gen.ts".toList, "/seed.ts".toList] 1 0 1) reached' ∧
        reached' ⊆ reached) := by
  have hplain : check { cwd := [] } seedTree (seedSettings [] []) =
      .ok (seedResult ["/seed.ts".toList] 1 1 2) :=
    check_seedTree rfl (reached_seedTree rfl (List.nil_subset _) (List.Subset.refl _)
      (List.pairwise_singleton _ _) (by decide +kernel))
  have hmarked : check { cwd := [] } seedTree (seedSettings ["seed".toList] []) =
      .ok (seedResult [] 2 1 3) :=
    check_seedTree rfl (reached_seedTree rfl (List.Subset.refl _) (List.Subset.refl _)
      (List.pairwise_singleton _ _) (by decide +kernel))
  have hskipped : check { cwd := [] } seedTree (seedSettings [] ["./gen".toList]) =
      .ok (seedResult ["/gen.ts".toList, "/seed.ts".toList] 1 0 1) :=
    check_seedTree rfl (reached_seedTree rfl (List.nil_subset _) (List.nil_subset _) .nil
      (by decide +kernel))
  obtain ⟨hmarkers, hleads⟩ := check_monotone { cwd := [] } seedTree (seedSettings [] [])
  exact ⟨⟨List.nil_subset _, hplain, hmarked, hmarkers _ _ _ _ (List.nil_subset _) hplain hmarked⟩,
    List.nil_subset _, hskipped, hleads _ _ _ _ (List.nil_subset _) hplain hskipped⟩

end Unreached

import Mathlib.Data.Finset.Card
import Unreached.Check
import Unreached.Proofs.Bytes
import Unreached.Proofs.Union
import Unreached.Proofs.Walk

/-!
# What the check finds

* `Surveyed` : the settings of a check with the root found, and the files that it collects;
* `check_ok`, `check_noEntries_iff` : the ways in which a check ends;
* `Settings.Reaches` : the files that imports lead to from the entry points, where only files that
  can be reported are named;
* `check_exact` : a check that succeeds reports what is neither an entry point nor reached, and
  reads what is one or the other;
* `Settings.checkInventory_never` : a check without a deadline succeeds;
* `check_spares_imported` : no reported file is imported from an entry point through files that are
  not excluded, also where specifiers name any file that was collected. Through excluded files it
  can be (`check_reports_imported_behind_excluded`);
* `Tree.SettingsFree.surveyed` : what is collected at the root of a tree that holds no settings.
-/

namespace Unreached

set_option autoImplicit false

open Relation (ReflTransGen TransGen)

/-! ## The course of a check -/

/-- A check has found its root and collected the files of an inventory. -/
structure Surveyed (host : Host) (tree : Tree) (settings s : Settings) (inventory : Inventory) :
    Prop where
  initialized : settings.initialize? tree host.cwd = some s
  collected : collect s.collection tree host.cwd (s.root.getD []) = .ok inventory

variable {host : Host} {tree : Tree} {settings s : Settings} {inventory : Inventory} {root : Text}
  {sources : Sources} {deadline : Deadline} {r : CheckResult}

theorem collect_eq {cwd base : Location} (c : Collection)
    (hlocate : tree.locate cwd root = .ok base) (hdir : tree.node? base = some .dir)
    (hroot : root ≠ ['-']) :
    collect c tree cwd root =
      .ok (.ofFiles (tree.entries.filterMap (c.file? base (c.scopes base tree cwd)))) := by
  unfold collect
  rw [hlocate]
  change (if tree.node? base ≠ some .dir then _ else _) = _
  rw [if_neg (not_not_intro hdir), if_neg hroot]

theorem Surveyed.check_eq (h : Surveyed host tree settings s inventory) :
    check host tree settings =
      if (inventory.entryPoints s.markers).isEmpty then .error (.noEntries (s.root.getD []))
      else match host.deadlineOf? s.timeout with
        | none => .error .clockOverflow
        | some deadline =>
          s.checkInventory (s.root.getD []) inventory
            (tree.sources host.cwd (s.root.getD [])) deadline := by
  unfold check
  rw [h.initialized]
  cases hdeadline : host.deadlineOf? s.timeout <;> simp only [h.collected, hdeadline]

/-- A check that does not get as far as its files fails for want of a root that can be listed. -/
theorem surveyed_or_unlisted (host : Host) (tree : Tree) (settings : Settings) :
    (∃ s inventory, Surveyed host tree settings s inventory) ∨
      check host tree settings = .error .noRepository ∨
      ∃ root fault, check host tree settings = .error (.rootUnreadable root fault) := by
  unfold check
  cases hs : settings.initialize? tree host.cwd with
  | none => exact .inr (.inl rfl)
  | some s =>
    cases hc : collect s.collection tree host.cwd (s.root.getD []) with
    | ok inventory => exact .inl ⟨s, inventory, hs, hc⟩
    | error fault =>
      simp only [hc]
      exact .inr (.inr ⟨_, _, rfl⟩)

/-- A check that succeeds has got as far as its traversals. -/
theorem check_ok (h : check host tree settings = .ok r) :
    ∃ s inventory deadline, Surveyed host tree settings s inventory ∧
      host.deadlineOf? s.timeout = some deadline ∧
      s.checkInventory (s.root.getD []) inventory
        (tree.sources host.cwd (s.root.getD [])) deadline = .ok r := by
  rcases surveyed_or_unlisted host tree settings with ⟨s, inventory, hs⟩ | hfail |
    ⟨root, fault, hfail⟩
  · rw [hs.check_eq] at h
    split at h
    · cases h
    · split at h
      · cases h
      · next deadline hdeadline => exact ⟨s, inventory, deadline, hs, hdeadline, h⟩
  · rw [hfail] at h
    cases h
  · rw [hfail] at h
    cases h

theorem Settings.checkInventory_ne_noEntries {root' : Text} :
    s.checkInventory root inventory sources deadline ≠ .error (.noEntries root') := by
  unfold checkInventory
  intro h
  dsimp only at h
  split at h <;> cases h

/-- A check fails for want of entry points if none of the files that it collects is one. -/
theorem check_noEntries_iff :
    check host tree settings = .error (.noEntries root) ↔
      ∃ s inventory, Surveyed host tree settings s inventory ∧ s.root.getD [] = root ∧
        inventory.entryPoints s.markers = [] := by
  constructor
  · intro h
    rcases surveyed_or_unlisted host tree settings with ⟨s, inventory, hs⟩ | hfail |
      ⟨root', fault, hfail⟩
    · rw [hs.check_eq] at h
      split at h
      · next hempty =>
        cases h
        exact ⟨s, inventory, hs, rfl, List.isEmpty_iff.1 hempty⟩
      · split at h
        · cases h
        · exact absurd h Settings.checkInventory_ne_noEntries
    · rw [hfail] at h
      cases h
    · rw [hfail] at h
      cases h
  · rintro ⟨s, inventory, hs, rfl, hempty⟩
    rw [hs.check_eq, hempty]
    rfl

/-! ## What is reached and what is read -/

namespace Settings

/-- The paths of the entry points. -/
def entryPaths (s : Settings) (inventory : Inventory) : List Text :=
  (inventory.entryPoints s.markers).map (·.path)

/-- Whether chains of imports lead from an entry point to a file, where specifiers name files that
can be reported. -/
def Reaches (s : Settings) (inventory : Inventory) (sources : Sources) (target : Text) : Prop :=
  ∃ entry ∈ inventory.entryPoints s.markers,
    TransGen ((s.project inventory).Imports sources) entry.path target

/-- The engine of a check before it has read a file. -/
def engine (s : Settings) (inventory : Inventory) : Engine := .new (s.project inventory)

/-- The files that the entry points reach. -/
def reached (s : Settings) (inventory : Inventory) (sources : Sources) : TextSet :=
  TextSet.ofList ((s.entryPaths inventory).flatMap ((s.engine inventory).found sources {}))

/-- The engine of a check when all entry points were traversed. -/
def readEngine (s : Settings) (inventory : Inventory) (sources : Sources) : Engine :=
  (s.engine inventory).after sources
    ((s.entryPaths inventory).flatMap ((s.engine inventory).order sources {}))

variable {target file : Text}

theorem imports_engine :
    (s.engine inventory).Imports sources = (s.project inventory).Imports sources :=
  Engine.imports_new _

theorem reaches_iff :
    s.Reaches inventory sources target ↔
      ∃ entry ∈ s.entryPaths inventory,
        TransGen ((s.engine inventory).Imports sources) entry target := by
  unfold Reaches entryPaths
  rw [imports_engine]
  simp

theorem mem_reached :
    target ∈ s.reached inventory sources ↔ s.Reaches inventory sources target := by
  unfold reached TextSet.ofList
  rw [TextSet.mem_insertAll, Engine.mem_flatMap_found, reaches_iff]
  simp

theorem Reaches.mem_paths (h : s.Reaches inventory sources target) :
    target ∈ inventory.candidates.paths := by
  obtain ⟨entry, -, hpath⟩ := reaches_iff.1 h
  obtain ⟨file, -, himports⟩ := TransGen.tail'_iff.1 hpath
  exact himports.mem_paths

/-- **What a check reads**: the entry points and the files that they reach. -/
theorem mem_readFiles_readEngine :
    file ∈ (s.readEngine inventory sources).readFiles ↔
      file ∈ s.entryPaths inventory ∨ s.Reaches inventory sources file := by
  unfold readEngine
  rw [Engine.mem_readFiles_after, List.mem_flatMap, reaches_iff]
  simp only [Engine.mem_order_fresh, Relation.reflTransGen_iff_eq_or_transGen, and_or_left,
    exists_or]
  simp [Engine.readFiles, engine, Engine.new]

theorem nodup_entryPaths (s : Settings) (inventory : Inventory) : (s.entryPaths inventory).Nodup :=
  Ascending.nodup_keys (inventory.ascending.filter _)

theorem checkInventory_eq :
    s.checkInventory root inventory sources deadline =
      match Engine.reachableApart (s.engine inventory) sources deadline
        (s.entryPaths inventory) with
      | (.error expanded, _) => .error (.deadlineExceeded expanded)
      | (.ok reached, engine) => .ok {
          root
          unused := unusedFiles inventory.candidates s.markers reached
          entries := (inventory.entryPoints s.markers).length
          inventorySize := inventory.size
          reachable := reached.length
          filesAnalyzed := engine.filesRead } :=
  rfl

/-- The traversals of a check that succeeds, and its result. -/
theorem checkInventory_ok (h : s.checkInventory root inventory sources deadline = .ok r) :
    Engine.reachableApart (s.engine inventory) sources deadline (s.entryPaths inventory) =
        (.ok (s.reached inventory sources), s.readEngine inventory sources) ∧
      r = { root
            unused := unusedFiles inventory.candidates s.markers (s.reached inventory sources)
            entries := (inventory.entryPoints s.markers).length
            inventorySize := inventory.size
            reachable := (s.reached inventory sources).length
            filesAnalyzed := (s.readEngine inventory sources).filesRead } := by
  by_cases hlasts : deadline.Lasts
    ((s.entryPaths inventory).flatMap ((s.engine inventory).order sources {})).length
  · have hrun : Engine.reachableApart (s.engine inventory) sources deadline
        (s.entryPaths inventory) =
        (.ok (s.reached inventory sources), s.readEngine inventory sources) :=
      Engine.reachableApartFrom_of_lasts hlasts
    rw [checkInventory_eq, hrun] at h
    exact ⟨hrun, (Except.ok.inj h).symm⟩
  · obtain ⟨expanded, hrun⟩ : ∃ expanded,
        (Engine.reachableApart (s.engine inventory) sources deadline (s.entryPaths inventory)).1 =
          .error expanded :=
      Engine.reachableApartFrom_of_not_lasts hlasts
    rw [checkInventory_eq, ← Prod.eta (Engine.reachableApart _ _ _ _), hrun] at h
    cases h

/-! ## Exactness -/

/-- What a check finds, where `reached` is the set of files that its entry points reach. -/
structure Exact (s : Settings) (inventory : Inventory) (sources : Sources) (deadline : Deadline)
    (reached : Finset Text) (r : CheckResult) : Prop where
  mem_reached : ∀ target, target ∈ reached ↔ s.Reaches inventory sources target
  reached_subset : reached ⊆ inventory.candidates.paths.toFinset
  ascending : Ascending SourceFile.path r.unused
  mem_unused : ∀ file, file ∈ r.unused ↔
    file ∈ inventory.candidates.files ∧ file ∉ inventory.entryPoints s.markers ∧ file.path ∉ reached
  entries : r.entries = (s.entryPaths inventory).toFinset.card
  inventorySize : r.inventorySize = inventory.paths.toFinset.card
  reachable : r.reachable = reached.card
  filesAnalyzed : r.filesAnalyzed = ((s.entryPaths inventory).toFinset ∪ reached).card
  /-- The files that the traversals read, each once. -/
  readFiles : (Engine.reachableApart (s.engine inventory) sources deadline
    (s.entryPaths inventory)).2.readFiles.Perm ((s.entryPaths inventory).toFinset ∪ reached).toList

theorem mem_entryPoints {f : SourceFile} (h : f ∈ inventory.files) :
    f ∈ inventory.entryPoints s.markers ↔ isEntryPoint s.markers f.path = true := by
  unfold Inventory.entryPoints
  rw [List.mem_filter]
  exact and_iff_right h

theorem mem_unusedFiles {f : SourceFile} :
    f ∈ unusedFiles inventory.candidates s.markers (s.reached inventory sources) ↔
      f ∈ inventory.candidates.files ∧ f ∉ inventory.entryPoints s.markers ∧
        f.path ∉ s.reached inventory sources := by
  unfold unusedFiles
  rw [List.mem_filter, Bool.and_eq_true, Bool.not_eq_true', Bool.not_eq_true', List.contains_eq_mem,
    decide_eq_false_iff_not]
  refine and_congr_right fun hf => and_congr_left fun _ => ?_
  rw [mem_entryPoints (List.mem_of_mem_filter hf), Bool.not_eq_true]

theorem exact_of_checkInventory (h : s.checkInventory root inventory sources deadline = .ok r) :
    s.Exact inventory sources deadline (s.reached inventory sources).toFinset r := by
  obtain ⟨hrun, rfl⟩ := checkInventory_ok h
  have hreached : (s.reached inventory sources).Nodup := (TextSet.ascending_ofList _).nodup
  have hread : (s.readEngine inventory sources).readFiles.Perm
      ((s.entryPaths inventory).toFinset ∪ (s.reached inventory sources).toFinset).toList := by
    refine (List.perm_ext_iff_of_nodup (Engine.nodup_readFiles _) (Finset.nodup_toList _)).2
      fun file => ?_
    rw [mem_readFiles_readEngine, Finset.mem_toList, Finset.mem_union, List.mem_toFinset,
      List.mem_toFinset, mem_reached]
  constructor
  · intro target
    rw [List.mem_toFinset, mem_reached]
  · intro target htarget
    rw [List.mem_toFinset, mem_reached] at htarget
    exact List.mem_toFinset.2 htarget.mem_paths
  · exact inventory.candidates.ascending.filter _
  · intro file
    rw [List.mem_toFinset]
    exact mem_unusedFiles
  · rw [List.toFinset_card_of_nodup (nodup_entryPaths s inventory), entryPaths, List.length_map]
  · rw [List.toFinset_card_of_nodup inventory.nodup_paths, Inventory.size, Inventory.paths,
      List.length_map]
  · rw [List.toFinset_card_of_nodup hreached]
  · rw [Engine.filesRead_eq, hread.length_eq, Finset.length_toList]
  · rw [hrun]
    exact hread

/-- A check without a deadline succeeds. -/
theorem checkInventory_never :
    s.checkInventory root inventory sources .never = .ok {
      root
      unused := unusedFiles inventory.candidates s.markers (s.reached inventory sources)
      entries := (inventory.entryPoints s.markers).length
      inventorySize := inventory.size
      reachable := (s.reached inventory sources).length
      filesAnalyzed := ((s.entryPaths inventory).toFinset ∪
        (s.reached inventory sources).toFinset).card } := by
  have hrun : Engine.reachableApart (s.engine inventory) sources .never (s.entryPaths inventory) =
      (.ok (s.reached inventory sources), s.readEngine inventory sources) :=
    Engine.reachableApartFrom_of_lasts trivial
  obtain ⟨r, hcheck⟩ : ∃ r, s.checkInventory root inventory sources .never = .ok r :=
    ⟨_, by rw [checkInventory_eq, hrun]⟩
  obtain ⟨-, rfl⟩ := checkInventory_ok hcheck
  rw [hcheck, ← (exact_of_checkInventory hcheck).filesAnalyzed]

end Settings

/-- **The check is exact.** A check that succeeds has collected an inventory and reports, in the
order of their paths, the files that can be reported and are neither entry points nor reached from
one; it counts entry points, collected and reached files, and reads each entry point and each
reached file once and nothing else. It fails for want of entry points exactly if it has collected
files and none of them is one. -/
theorem check_exact (host : Host) (tree : Tree) (settings : Settings) :
    (∀ r, check host tree settings = .ok r → ∃ s inventory deadline reached,
      Surveyed host tree settings s inventory ∧ host.deadlineOf? s.timeout = some deadline ∧
        s.Exact inventory (tree.sources host.cwd (s.root.getD [])) deadline reached r) ∧
    ∀ root, check host tree settings = .error (.noEntries root) ↔
      ∃ s inventory, Surveyed host tree settings s inventory ∧ s.root.getD [] = root ∧
        inventory.entryPoints s.markers = [] := by
  refine ⟨fun r h => ?_, fun root => check_noEntries_iff⟩
  obtain ⟨s, inventory, deadline, hs, hdeadline, hcheck⟩ := check_ok h
  exact ⟨s, inventory, deadline, _, hs, hdeadline, Settings.exact_of_checkInventory hcheck⟩

/-! ## Imports of any collected file -/

namespace Settings

/-- The project of a check if specifiers could name any file that was collected. -/
def wholeProject (s : Settings) (inventory : Inventory) : Project :=
  { s.project inventory with inventory }

/-- No reported file is imported in a chain that starts at an entry point and passes only through
files for which `through` holds, where specifiers name any file that was collected. -/
def Spares (s : Settings) (inventory : Inventory) (sources : Sources) (through : Text → Prop)
    (r : CheckResult) : Prop :=
  ∀ entry ∈ inventory.entryPoints s.markers, ∀ file ∈ r.unused, ∀ chain : List Text,
    (∀ f ∈ chain, through f) →
    ¬List.IsChain ((s.wholeProject inventory).Imports sources)
      (entry.path :: (chain ++ [file.path]))

/-- Whether a file is an entry point or reached from one. -/
def Uses (s : Settings) (inventory : Inventory) (sources : Sources) (file : Text) : Prop :=
  file ∈ s.entryPaths inventory ∨ s.Reaches inventory sources file

variable {file target : Text}

theorem mem_entryPaths (h : file ∈ inventory.paths) (hentry : isEntryPoint s.markers file = true) :
    file ∈ s.entryPaths inventory := by
  obtain ⟨f, hf, rfl⟩ := List.mem_map.1 h
  exact List.mem_map_of_mem ((mem_entryPoints hf).2 hentry)

/-- An import that names a file which can be reported does so as well where only such files are
named. -/
theorem imports_of_wholeProject (h : (s.wholeProject inventory).Imports sources file target)
    (htarget : target ∈ inventory.candidates.paths) :
    (s.project inventory).Imports sources file target := by
  obtain ⟨spec, hspec, hskip, hresolve⟩ := h
  obtain ⟨f, hf, rfl⟩ := Option.map_eq_some_iff.1 hresolve
  obtain ⟨g, hg, hpath⟩ := List.mem_map.1 htarget
  obtain ⟨hmem, hkeep⟩ := List.mem_filter.1 hg
  have heq : g = f :=
    List.inj_on_of_nodup_map inventory.nodup_paths hmem (Inventory.mem_of_resolve? hf) hpath
  subst heq
  refine ⟨spec, hspec, hskip, ?_⟩
  unfold Project.resolve?
  exact Option.map_eq_some_iff.2 ⟨g, (Inventory.survives_resolve? _).kept g hf hkeep, rfl⟩

theorem Uses.step (h : s.Uses inventory sources file)
    (himports : (s.wholeProject inventory).Imports sources file target)
    (htarget : target ∈ inventory.candidates.paths ∨ isEntryPoint s.markers target = true) :
    s.Uses inventory sources target := by
  rcases htarget with htarget | hentry
  · have hstep := imports_of_wholeProject himports htarget
    rcases h with hfile | ⟨entry, hentry, hpath⟩
    · obtain ⟨entry, hentry, rfl⟩ := List.mem_map.1 hfile
      exact .inr ⟨entry, hentry, .single hstep⟩
    · exact .inr ⟨entry, hentry, hpath.tail hstep⟩
  · obtain ⟨spec, -, -, hresolve⟩ := himports
    exact .inl (mem_entryPaths (Project.mem_paths_of_resolve? hresolve) hentry)

theorem Uses.chain {chain : List Text} (h : s.Uses inventory sources file)
    (hthrough : ∀ f ∈ chain, f ∈ inventory.candidates.paths ∨ isEntryPoint s.markers f = true)
    (htarget : target ∈ inventory.candidates.paths)
    (hchain : List.IsChain ((s.wholeProject inventory).Imports sources)
      (file :: (chain ++ [target]))) :
    s.Uses inventory sources target := by
  induction chain generalizing file with
  | nil => exact h.step (List.isChain_pair.1 hchain) (.inl htarget)
  | cons f chain ih =>
    obtain ⟨himports, hchain⟩ := List.isChain_cons_cons.1 hchain
    obtain ⟨hf, hthrough⟩ := List.forall_mem_cons.1 hthrough
    exact ih (h.step himports hf) hthrough hchain

theorem Exact.spares {reached : Finset Text} (h : s.Exact inventory sources deadline reached r) :
    s.Spares inventory sources
      (fun f => f ∈ inventory.candidates.paths ∨ isEntryPoint s.markers f = true) r := by
  intro entry hentry file hfile chain hthrough hchain
  obtain ⟨hcandidate, hnotEntry, hnotReached⟩ := (h.mem_unused file).1 hfile
  have hmem : file ∈ inventory.files := List.mem_of_mem_filter hcandidate
  have huses : s.Uses inventory sources entry.path := .inl (List.mem_map_of_mem hentry)
  rcases huses.chain hthrough (List.mem_map_of_mem hcandidate) hchain with hpath | hreaches
  · obtain ⟨f, hf, hpath⟩ := List.mem_map.1 hpath
    have heq : f = file :=
      List.inj_on_of_nodup_map inventory.nodup_paths (List.mem_of_mem_filter hf) hmem hpath
    exact hnotEntry (heq ▸ hf)
  · exact hnotReached ((h.mem_reached file.path).2 hreaches)

end Settings

/-- **No reported file is imported from an entry point**, where specifiers name any file that was
collected, unless the chain of imports passes through an excluded file that is no entry point. -/
theorem check_spares_imported (h : check host tree settings = .ok r) :
    ∃ s inventory, Surveyed host tree settings s inventory ∧
      s.Spares inventory (tree.sources host.cwd (s.root.getD []))
        (fun f => f ∈ inventory.candidates.paths ∨ isEntryPoint s.markers f = true) r := by
  obtain ⟨s, inventory, deadline, hs, -, hcheck⟩ := check_ok h
  exact ⟨s, inventory, hs, (Settings.exact_of_checkInventory hcheck).spares⟩

/-! ## Projects without settings -/

namespace Tree

/-- The names under which the root of a tree holds settings of a project there. -/
def settingNames : List Text :=
  ["tsconfig.json", ".ignore", ".gitignore", ".git", ".jj"].map String.toList

/-- Whether the root of a tree holds no settings. -/
def SettingsFree (tree : Tree) : Prop := ∀ name ∈ settingNames, tree.node? [name] = none

instance : DecidablePred SettingsFree :=
  fun tree => inferInstanceAs (Decidable (∀ name ∈ settingNames, tree.node? [name] = none))

variable {cwd : Location} {name : Text}

namespace SettingsFree
variable {path : Text} {segs : List Text} (h : tree.SettingsFree)
include h

theorem stat_eq (hname : name ∈ settingNames) (hcheck : checkPath path = .ok ())
    (habsolute : Path.isAbsolute path = true) (hsteps : steps path = name :: segs) :
    tree.stat cwd path = .error .notFound := by
  have hentry : ∀ name ∈ settingNames, IsEntry name := by decide
  exact stat_of_missing hcheck habsolute hsteps (hentry name hname) (h name hname)

theorem rulesAt_eq (hname : name ∈ settingNames) (hcheck : checkPath path = .ok ())
    (habsolute : Path.isAbsolute path = true) (hsteps : steps path = name :: segs) :
    Ignore.rulesAt tree cwd path = [] := by
  unfold Ignore.rulesAt read
  rw [h.stat_eq hname hcheck habsolute hsteps]
  rfl

theorem load_eq : Alias.Table.load tree cwd ['/'] none = {} := by
  have hstat : tree.stat cwd (Path.join ['/'] Alias.tsconfigName) = .error .notFound :=
    h.stat_eq (by decide : "tsconfig.json".toList ∈ settingNames) rfl rfl rfl
  have hread : tree.readText cwd (Path.join ['/'] Alias.tsconfigName) = .error .notFound := by
    unfold readText read
    rw [hstat]
    rfl
  unfold Alias.Table.load Alias.Table.ofFile
  rw [Option.getD_none, hread]

theorem ofDir_eq (respect : Bool) :
    Ignore.Scope.ofDir tree cwd respect [] = { dir := [] } := by
  have hignore : Ignore.rulesAt tree cwd (Path.join (Location.path []) ".ignore".toList) = [] :=
    h.rulesAt_eq (by decide : ".ignore".toList ∈ settingNames) rfl rfl rfl
  have hgitignore :
      Ignore.rulesAt tree cwd (Path.join (Location.path []) ".gitignore".toList) = [] :=
    h.rulesAt_eq (by decide : ".gitignore".toList ∈ settingNames) rfl rfl rfl
  have hgit : tree.stat cwd (Path.join (Location.path []) ".git".toList) = .error .notFound :=
    h.stat_eq (by decide : ".git".toList ∈ settingNames) rfl rfl rfl
  have hjj : tree.stat cwd (Path.join (Location.path []) ".jj".toList) = .error .notFound :=
    h.stat_eq (by decide : ".jj".toList ∈ settingNames) rfl rfl rfl
  have hexclude : Ignore.rulesAt tree cwd
      (Path.join (Path.join (Location.path []) ".git".toList) "info/exclude".toList) = [] :=
    h.rulesAt_eq (by decide : ".git".toList ∈ settingNames) rfl rfl rfl
  unfold Ignore.Scope.ofDir Ignore.repositoryDir? Ignore.startsRepository exists?
  simp only [hignore, hgitignore, hgit, hjj, hexclude, ite_self]
  rfl

/-- The check of a project in the root of a tree, where there are no settings and no other
directories. -/
theorem surveyed (hdirs : Collection.directories [] tree = [[]]) (hroot : s.root = some ['/'])
    (htsconfig : s.tsconfig = none) (haliases : s.aliases = {}) :
    Surveyed host tree s s
      (.ofFiles (tree.entries.filterMap (s.collection.file? [] [{ dir := [] }]))) := by
  constructor
  · have hload : Alias.Table.load tree host.cwd ['/'] s.tsconfig = s.aliases := by
      rw [htsconfig, haliases, h.load_eq]
    unfold Settings.initialize?
    simp only [hroot, canonical, locate_root]
    change some { s with
      root := some ['/'], aliases := Alias.Table.load tree host.cwd ['/'] s.tsconfig } = some s
    rw [hload, ← hroot]
  · rw [hroot, Option.getD_some, collect_eq _ locate_root rfl (by decide), Collection.scopes, hdirs,
      List.map_singleton, h.ofDir_eq]

end SettingsFree

/-- The source of a file in the root of a tree is the text that is written there. -/
theorem sources_of_entry {file t : Text} (hcheck : checkPath (Path.below root file) = .ok ())
    (habsolute : Path.isAbsolute (Path.below root file) = true)
    (hsteps : steps (Path.below root file) = [name]) (hname : IsEntry name)
    (hnode : tree.node? [name] = some (.file t.bytes)) : tree.sources cwd root file = some t := by
  unfold sources readText read
  rw [stat_of_entry hcheck habsolute hsteps hname hnode (by simp)]
  simp only [bind, Except.bind, Bytes.text?_eq_some_iff.2 rfl]
  rfl

end Tree

/-! ### An import behind an excluded file -/

/-- A project at the root of a tree. Its entry point imports a file that is loaded by convention,
and that one imports another. -/
def headTree : Tree where
  entries := [
    (["index.ts".toList], .file (Text.bytes "import './router-head'".toList)),
    (["router-head.tsx".toList], .file (Text.bytes "import './used'".toList)),
    (["used.ts".toList], .file [])]

def headSettings : Settings := { root := some ['/'] }

def headInventory : Inventory :=
  .ofPaths ["/index.ts".toList, "/router-head.tsx".toList, "/used.ts".toList]

def headResult : CheckResult where
  root := ['/']
  unused := [.ofPath "/used.ts".toList]
  entries := 1
  inventorySize := 3
  reachable := 0
  filesAnalyzed := 1

theorem surveyed_headTree :
    Surveyed { cwd := [] } headTree headSettings headSettings headInventory := by
  have h : headTree.SettingsFree := by decide
  exact h.surveyed rfl rfl rfl rfl

theorem entryPoints_headInventory :
    headInventory.entryPoints headSettings.markers = [.ofPath "/index.ts".toList] := by
  decide

theorem sources_headTree_index :
    headTree.sources [] ['/'] "/index.ts".toList = some "import './router-head'".toList :=
  Tree.sources_of_entry rfl rfl rfl (by decide : Tree.IsEntry "index.ts".toList) rfl

theorem check_headTree : check { cwd := [] } headTree headSettings = .ok headResult := by
  have htargets : (headSettings.project headInventory).targets (headTree.sources [] ['/'])
      "/index.ts".toList ⊆ [] := by
    rw [Project.targets, Project.imports, sources_headTree_index]
    decide +kernel
  have hreached : headSettings.reached headInventory (headTree.sources [] ['/']) = [] :=
    Engine.ofList_found_of_closed .nil (List.forall_mem_singleton.2 htargets) (by simp) (by simp)
  have hrun : headSettings.checkInventory ['/'] headInventory (headTree.sources [] ['/']) .never =
      .ok headResult := by
    rw [Settings.checkInventory_never, hreached]
    decide
  rw [surveyed_headTree.check_eq]
  exact hrun

theorem check_spares_imported_headTree :
    check { cwd := [] } headTree headSettings = .ok headResult ∧
      ∃ s inventory, Surveyed { cwd := [] } headTree headSettings s inventory ∧
        s.Spares inventory (headTree.sources [] (s.root.getD []))
          (fun f => f ∈ inventory.candidates.paths ∨ isEntryPoint s.markers f = true) headResult :=
  ⟨check_headTree, check_spares_imported check_headTree⟩

/-- Through any file the check does not spare what is imported: the last file is reported, but the
chain that leads to it passes through an excluded file, which no specifier names in the check. -/
theorem check_reports_imported_behind_excluded :
    check { cwd := [] } headTree headSettings = .ok headResult ∧
      Surveyed { cwd := [] } headTree headSettings headSettings headInventory ∧
      ¬headSettings.Spares headInventory (headTree.sources [] ['/'])
        (fun _ => True) headResult := by
  have hfirst : (headSettings.wholeProject headInventory).targets (headTree.sources [] ['/'])
      "/index.ts".toList = ["/router-head.tsx".toList] := by
    rw [Project.targets, Project.imports, sources_headTree_index]
    decide +kernel
  have hhead : headTree.sources [] ['/'] "/router-head.tsx".toList =
      some "import './used'".toList :=
    Tree.sources_of_entry rfl rfl rfl (by decide : Tree.IsEntry "router-head.tsx".toList) rfl
  have hsecond : (headSettings.wholeProject headInventory).targets (headTree.sources [] ['/'])
      "/router-head.tsx".toList = ["/used.ts".toList] := by
    rw [Project.targets, Project.imports, hhead]
    decide +kernel
  refine ⟨check_headTree, surveyed_headTree, fun h => ?_⟩
  refine h (.ofPath "/index.ts".toList) (by simp [entryPoints_headInventory])
    (.ofPath "/used.ts".toList) (List.mem_singleton_self _) ["/router-head.tsx".toList]
    (fun _ _ => trivial)
    (List.isChain_cons_cons.2 ⟨?_, List.isChain_pair.2 ?_⟩)
  · exact Project.mem_targets.1 (hfirst ▸ List.mem_singleton_self _)
  · exact Project.mem_targets.1 (hsecond ▸ List.mem_singleton_self _)

end Unreached

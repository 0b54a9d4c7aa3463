import Unreached.Proofs.MovedFiles
import Unreached.Proofs.PathsBelow
import Unreached.Proofs.Variants

/-!
# What is collected

* `IsListed` : the files that are to be listed, by the names that lead to them;
* `Collection.drops_eq` : the rules that count for a place are those of the directories around it;
* `Collection.takes_iff` : a file is taken if it is to be listed and no rule drops it or a directory
  on the way;
* `IsExcluded` : the places that the exclusions of a repository drop;
* `collect_exact` : where ignore files do not count, the files that are to be listed are collected,
  and no others, apart from those that the exclusions of a repository drop.

The exclusions that a repository keeps for itself count also where ignore files do not
(`collect_drops_excluded`).
-/

namespace Unreached

set_option autoImplicit false

/-! ## Names -/

/-- Whether a name has the extension of a source file and is not that of a declaration file. -/
def IsSource (name : Text) : Prop :=
  (∃ base ext, name = base ++ '.' :: ext ∧ base ≠ [] ∧ ext ∈ sourceExtensions) ∧
    ¬declarationSuffix <:+ name

/-- Whether a directory of this name is to be entered. -/
structure IsOpenDir (excluded : List Text) (name : Text) : Prop where
  undotted : '.' ∉ name
  own : name ≠ "node_modules".toList
  wanted : name ∉ excluded

/-- Whether a file is to be listed that names lead to from the root, its own first. -/
structure IsListed (excluded : List Text) (front : Location) : Prop where
  source : ∃ name ∈ front.head?, IsSource name
  entered : ∀ name ∈ front.tail, IsOpenDir excluded name

theorem isSourceName_iff (name : Text) : isSourceName name = true ↔ IsSource name := by
  have hsplit : (Path.splitName name).2.any sourceExtensions.contains = true ↔
      ∃ base ext, name = base ++ '.' :: ext ∧ base ≠ [] ∧ ext ∈ sourceExtensions := by
    constructor
    · intro h
      obtain ⟨ext, hext, hmem⟩ := (Option.any_eq_true _ _).1 h
      have hsource : ext ∈ sourceExtensions := by simpa using hmem
      have hname :=
        Path.eq_of_splitName (Prod.ext rfl hext : Path.splitName name =
          ((Path.splitName name).1, some ext))
      refine ⟨_, ext, hname, fun hnil => ?_, hsource⟩
      rw [hnil] at hname
      rw [hname, Path.splitName_append [] (dot_not_mem_sourceExtensions hsource)] at hext
      cases hext
    · rintro ⟨base, ext, rfl, hne, hsource⟩
      rw [Path.splitName_append base (dot_not_mem_sourceExtensions hsource), if_neg hne]
      simpa using hsource
  unfold isSourceName IsSource Text.endsWith
  rw [Bool.and_eq_true, hsplit, Bool.not_eq_true', ← List.isSuffixOf_iff_suffix, Bool.not_eq_true,
    and_comm]

theorem isSkippedDir_eq_false_iff (excluded : List Text) (name : Text) :
    isSkippedDir excluded name = false ↔ IsOpenDir excluded name := by
  have hdependency : dependencyDirs.contains name = false ↔ name ≠ "node_modules".toList := by
    simp [dependencyDirs]
  unfold isSkippedDir
  rw [Bool.or_eq_false_iff, Bool.or_eq_false_iff, hdependency]
  constructor
  · rintro ⟨⟨hdot, hown⟩, hwanted⟩
    exact ⟨by simpa using hdot, hown, by simpa using hwanted⟩
  · rintro ⟨hdot, hown, hwanted⟩
    exact ⟨⟨by simpa using hdot, hown⟩, by simpa using hwanted⟩

/-! ## The rules around a place -/

namespace Collection

variable {c : Collection} {tree : Tree} {cwd root loc dir : Location} {node : Node}

theorem mem_directories (hdir : tree.node? dir = some .dir) (h : dir <:+ root ∨ root <:+ dir) :
    dir ∈ directories root tree := by
  unfold directories
  by_cases habove : dir <:+ root
  · exact List.mem_append_left _ (Location.mem_upward.2 habove)
  · have hbelow : root <:+ dir := h.resolve_left habove
    have hne : dir ≠ [] := fun hnil => habove (hnil ▸ List.nil_suffix)
    have hroot : dir ≠ root := fun heq => habove (heq ▸ List.suffix_refl _)
    refine List.mem_append_right _
      (List.mem_filterMap.2 ⟨(dir, .dir), Tree.mem_of_node? hne hdir, ?_⟩)
    simp [Location.within_iff.2 hbelow, hroot]

theorem find?_scopes (h : dir ∈ directories root tree) :
    (c.scopes root tree cwd).find? (·.dir = dir) =
      some (Ignore.Scope.ofDir tree cwd c.respect dir) := by
  have hcomp :
      (fun scope : Ignore.Scope => decide (scope.dir = dir)) ∘
          Ignore.Scope.ofDir tree cwd c.respect =
        fun other => decide (other = dir) := rfl
  rw [scopes, List.find?_map, hcomp]
  obtain ⟨found, hfound⟩ : ∃ found,
      (directories root tree).find? (fun other => decide (other = dir)) = some found :=
    Option.isSome_iff_exists.1 (List.find?_isSome.2 ⟨dir, h, decide_eq_true rfl⟩)
  have heq : found = dir := by simpa using List.find?_some hfound
  rw [hfound, heq]
  rfl

/-- **The rules that count for a place are those of the directories around it.** -/
theorem drops_eq (hwf : tree.WellFormed) (hnode : tree.node? loc = some node)
    (hbelow : root <:+ loc.tail) (isDir : Bool) :
    c.drops root (c.scopes root tree cwd) loc isDir =
      Ignore.isIgnored ((c.chain root loc.tail).map (Ignore.Scope.ofDir tree cwd c.respect))
        loc isDir := by
  unfold drops
  congr 1
  rw [← List.filterMap_eq_map]
  refine List.filterMap_congr fun dir hdir => ?_
  have hsuffix : dir <:+ loc.tail := Location.mem_upward.1 (List.mem_of_mem_filter hdir)
  have hisDir := hwf.isDir_of_suffix_tail hnode hsuffix
  exact find?_scopes (mem_directories hisDir (List.suffix_or_suffix_of_suffix hsuffix hbelow))

/-! ## What is taken -/

section
variable {table : List Ignore.Scope} {name : Text} {dirs front : Location}

theorem mem_way {d : Location} :
    (d ∈ (Location.upward (dirs ++ root)).filter fun d => d.within root && d ≠ root) ↔
      ∃ part, part <:+ dirs ∧ part ≠ [] ∧ d = part ++ root := by
  rw [List.mem_filter, Location.mem_upward, Bool.and_eq_true, Location.within_iff,
    decide_eq_true_iff]
  constructor
  · rintro ⟨hsuffix, ⟨part, rfl⟩, hne⟩
    exact ⟨part, List.suffix_append_self_iff.1 hsuffix,
      fun hnil => hne (by rw [hnil, List.nil_append]), rfl⟩
  · rintro ⟨part, hpart, hne, rfl⟩
    exact ⟨List.suffix_append_self_iff.2 hpart, List.suffix_append _ _,
      fun heq => hne (by simpa using heq)⟩

theorem ne_cons_of_suffix {part : Location} (h : part <:+ dirs) (name : Text) :
    part ≠ name :: dirs := by
  rintro rfl
  exact Nat.not_succ_le_self _ h.length_le

theorem enters_iff {part : Location} (hne : part ≠ []) :
    c.enters root table (part ++ root) = true ↔
      (∀ name ∈ part.head?, IsOpenDir c.excludedDirs name) ∧
        c.drops root table (part ++ root) true = false := by
  obtain ⟨name, part, rfl⟩ := List.exists_cons_of_ne_nil hne
  unfold enters
  rw [Bool.and_eq_true, Bool.not_eq_true', Bool.not_eq_true', List.cons_append, List.headD_cons,
    isSkippedDir_eq_false_iff]
  simp

/-- **A file is taken if it is to be listed and no rule drops it** or a directory on the way. -/
theorem takes_iff (hfront : front ≠ []) :
    c.takes root table (front ++ root) = true ↔
      IsListed c.excludedDirs front ∧
        ∀ part, part <:+ front → part ≠ [] →
          c.drops root table (part ++ root) (part ≠ front) = false := by
  obtain ⟨name, dirs, rfl⟩ := List.exists_cons_of_ne_nil hfront
  unfold takes
  rw [Bool.and_eq_true, Bool.and_eq_true, Bool.not_eq_true', List.cons_append, List.headD_cons,
    List.tail_cons, isSourceName_iff, List.all_eq_true]
  constructor
  · rintro ⟨⟨hsource, hall⟩, hdrops⟩
    have henters : ∀ part, part <:+ dirs → part ≠ [] → _ :=
      fun part hpart hne =>
        (enters_iff hne).1 (hall (part ++ root) (mem_way.2 ⟨part, hpart, hne, rfl⟩))
    refine ⟨⟨⟨name, rfl, hsource⟩, fun other hother => ?_⟩, fun part hpart hne => ?_⟩
    · obtain ⟨after, before, rfl⟩ := List.append_of_mem hother
      exact (henters (other :: before) (List.suffix_append _ _) (List.cons_ne_nil _ _)).1 other rfl
    · rcases List.suffix_cons_iff.1 hpart with rfl | hpart
      · simpa using hdrops
      · rw [decide_eq_true (ne_cons_of_suffix hpart name)]
        exact (henters part hpart hne).2
  · rintro ⟨⟨⟨other, hother, hsource⟩, hentered⟩, hdrops⟩
    cases hother
    refine ⟨⟨hsource, fun d hd => ?_⟩, ?_⟩
    · obtain ⟨part, hpart, hne, rfl⟩ := mem_way.1 hd
      have hkept := hdrops part (hpart.trans (List.suffix_cons _ _)) hne
      rw [decide_eq_true (ne_cons_of_suffix hpart name)] at hkept
      exact (enters_iff hne).2
        ⟨fun dir hdir => hentered dir (hpart.subset (List.mem_of_head? hdir)), hkept⟩
    · simpa using hdrops (name :: dirs) (List.suffix_refl _) (List.cons_ne_nil _ _)

end

end Collection

/-! ## Where ignore files do not count -/

/-- Whether the exclusions of a repository at or below the root drop a place. -/
def IsExcluded (tree : Tree) (cwd root loc : Location) (isDir : Bool) : Prop :=
  Ignore.isIgnored (((Location.upward loc.tail).filter (·.within root)).map
    (Ignore.Scope.ofDir tree cwd false)) loc isDir = true

/-- Whether no exclusion drops the file that names lead to from the root, or a directory on the
way. -/
def IsSpared (tree : Tree) (cwd root front : Location) : Prop :=
  ∀ part, part <:+ front → part ≠ [] → ¬IsExcluded tree cwd root (part ++ root) (part ≠ front)

/-- Whether no directory at or below the root has exclusions. -/
def ExcludesNothing (tree : Tree) (cwd root : Location) : Prop :=
  ∀ dir, root <:+ dir → tree.node? dir = some .dir →
    (Ignore.Scope.ofDir tree cwd false dir).exclude = []

/-- Whether an inventory has the files below the place `base` that are wanted, by the names that
lead to them, and no others, each with a path that leads to its place from `root`. -/
structure Inventory.Lists (tree : Tree) (cwd : Location) (root : Text) (base : Location)
    (Wanted : Location → Prop) (inventory : Inventory) : Prop where
  files : ∀ file, file ∈ inventory.files ↔
    ∃ front content, tree.node? (front ++ base) = some (.file content) ∧
    Wanted front ∧ file = .ofPath (Path.ofSegments front.reverse)
  places : ∀ front content, tree.node? (front ++ base) = some (.file content) →
    .ofPath (Path.ofSegments front.reverse) ∈ inventory.files →
    tree.LeadsTo cwd (Path.below root (Path.ofSegments front.reverse)) (front ++ base)

section
variable {tree : Tree} {cwd base front : Location} {root : Text} {content : Bytes}
  {file : SourceFile}

theorem Ignore.innermostRepository_subset (scopes : List Ignore.Scope) :
    Ignore.innermostRepository scopes ⊆ scopes := by
  fun_induction Ignore.innermostRepository scopes with
  | case1 => exact List.Subset.refl _
  | case2 s scopes _ => simp
  | case3 s scopes _ ih => exact List.cons_subset_cons s ih

theorem Ignore.isIgnored_eq_false {scopes : List Ignore.Scope} {loc : Location} {isDir : Bool}
    (h : ∀ s ∈ scopes, s.ignore = [] ∧ s.gitignore = [] ∧ s.exclude = []) :
    Ignore.isIgnored scopes loc isDir = false := by
  have hnone : ∀ (kind : Ignore.Scope → List Ignore.Rule) (counting : List Ignore.Scope),
      (∀ s ∈ counting, kind s = []) →
        counting.findSome? (Ignore.Scope.verdict? kind loc isDir) = none := by
    intro kind counting hkind
    refine List.findSome?_eq_none_iff.2 fun s hs => ?_
    rw [Ignore.Scope.verdict?, hkind s hs]
    rfl
  have hcounting :
      ∀ s ∈ (if scopes.any (·.isRepository) then Ignore.innermostRepository scopes else []),
        s ∈ scopes := by
    intro s hs
    split at hs
    · exact Ignore.innermostRepository_subset scopes hs
    · cases hs
  unfold Ignore.isIgnored
  dsimp only
  rw [hnone Ignore.Scope.ignore scopes fun s hs => (h s hs).1,
    hnone Ignore.Scope.gitignore _ fun s hs => (h s (hcounting s hs)).2.1,
    hnone Ignore.Scope.exclude _ fun s hs => (h s (hcounting s hs)).2.2]
  rfl

theorem IsSpared.of_excludesNothing (h : ExcludesNothing tree cwd base) (hwf : tree.WellFormed)
    (hnode : tree.node? (front ++ base) = some (.file content)) : IsSpared tree cwd base front := by
  intro part hpart _
  unfold IsExcluded
  rw [Bool.not_eq_true]
  refine Ignore.isIgnored_eq_false fun s hs => ?_
  obtain ⟨dir, hdir, rfl⟩ := List.mem_map.1 hs
  obtain ⟨hupward, hwithin⟩ := List.mem_filter.1 hdir
  have hsuffix : dir <:+ (front ++ base).tail :=
    (Location.mem_upward.1 hupward).trans
      (Location.tail_suffix_tail (List.suffix_append_self_iff.2 hpart))
  exact ⟨rfl, rfl, h dir (Location.within_iff.1 hwithin) (hwf.isDir_of_suffix_tail hnode hsuffix)⟩

theorem Inventory.mem_arrange_of_ofPath {files : List SourceFile}
    (h : ∀ f ∈ files, f = .ofPath f.path) : file ∈ Inventory.arrange files ↔ file ∈ files := by
  constructor
  · intro hfile
    exact List.mem_of_find?_eq_some (mem_arrange.1 hfile)
  · intro hfile
    obtain ⟨found, hmem, hfind, hpath⟩ := exists_find?_path hfile
    have heq : found = file := by rw [h found hmem, hpath, ← h file hfile]
    exact mem_arrange.2 (heq ▸ hfind)

theorem Collection.drops_eq_false_iff {c : Collection} {loc : Location} {node : Node} {isDir : Bool}
    (hc : c.respect = false) (hwf : tree.WellFormed) (hnode : tree.node? loc = some node)
    (hbelow : base <:+ loc.tail) :
    c.drops base (c.scopes base tree cwd) loc isDir = false ↔
      ¬IsExcluded tree cwd base loc isDir := by
  unfold IsExcluded
  rw [c.drops_eq hwf hnode hbelow, Bool.not_eq_true, Collection.chain, hc]
  rfl

theorem Collection.takes_iff_isListed {c : Collection} (hc : c.respect = false)
    (hwf : tree.WellFormed) (hnode : tree.node? (front ++ base) = some (.file content))
    (hdir : tree.node? base = some .dir) :
    c.takes base (c.scopes base tree cwd) (front ++ base) = true ↔
      IsListed c.excludedDirs front ∧ IsSpared tree cwd base front := by
  have hne : front ≠ [] := by
    rintro rfl
    rw [List.nil_append, hdir] at hnode
    cases hnode
  rw [takes_iff hne]
  refine and_congr_right fun _ => forall_congr' fun part => forall_congr' fun hpart =>
    forall_congr' fun hpartNe => ?_
  obtain ⟨node, hpartNode⟩ : ∃ node, tree.node? (part ++ base) = some node := by
    by_cases heq : part = front
    · exact ⟨_, heq ▸ hnode⟩
    · refine ⟨_,
        hwf.isDir_of_within hnode (Location.within_iff.2 (List.suffix_append_self_iff.2 hpart)) ?_⟩
      exact fun happend => heq (List.append_cancel_right happend).symm
  refine drops_eq_false_iff hc hwf hpartNode ?_
  rw [List.tail_append_of_ne_nil hpartNe]
  exact List.suffix_append _ _

theorem eq_ofPath_of_file? {c : Collection} {table : List Ignore.Scope} {entry : Location × Node}
    (h : c.file? base table entry = some file) : file = .ofPath file.path := by
  obtain ⟨loc, node⟩ := entry
  cases node with
  | dir => cases h
  | link target => cases h
  | file content =>
    rw [Collection.file?] at h
    split at h
    · cases h
      rfl
    · cases h

theorem mem_filterMap_file? {c : Collection} (hc : c.respect = false) (hwf : tree.WellFormed)
    (hdir : tree.node? base = some .dir) :
    file ∈ tree.entries.filterMap (c.file? base (c.scopes base tree cwd)) ↔
      ∃ front content, tree.node? (front ++ base) = some (.file content) ∧
        (IsListed c.excludedDirs front ∧ IsSpared tree cwd base front) ∧
        file = .ofPath (Path.ofSegments front.reverse) := by
  rw [List.mem_filterMap]
  constructor
  · rintro ⟨entry, hentry, hfile⟩
    have heq := eq_ofPath_of_file? hfile
    obtain ⟨front, content, rfl, htakes, hpath⟩ := of_file? hfile
    have hnode := hwf.node?_of_mem hentry
    exact ⟨front, content, hnode, (Collection.takes_iff_isListed hc hwf hnode hdir).1 htakes,
      hpath ▸ heq⟩
  · rintro ⟨front, content, hnode, hwanted, rfl⟩
    have htakes := (Collection.takes_iff_isListed hc hwf hnode hdir).2 hwanted
    have hne : front ++ base ≠ [] := by
      intro hnil
      rw [hnil] at hnode
      cases hnode
    refine ⟨_, Tree.mem_of_node? hne hnode, ?_⟩
    rw [Collection.file?, Location.within_append, htakes, Location.namesBelow_append]
    rfl

theorem leadsTo_below_ofSegments (hstorable : tree.Storable) (hroot : tree.LeadsTo cwd root base)
    (hdir : tree.node? base = some .dir)
    (hnode : tree.node? (front ++ base) = some (.file content)) :
    tree.LeadsTo cwd (Path.below root (Path.ofSegments front.reverse)) (front ++ base) := by
  have hnames : ∀ name ∈ front.reverse, name ∈ front ++ base :=
    fun name hname => List.mem_append_left _ (List.mem_reverse.1 hname)
  have hsegments : Path.segments (Path.ofSegments front.reverse) = front.reverse :=
    Path.segments_ofSegments fun name hname =>
      (hstorable.isName_of_mem hnode name (hnames name hname)).1
  have hne : front.reverse ≠ [] := by
    intro hnil
    rw [List.reverse_eq_nil_iff.1 hnil, List.nil_append, hdir] at hnode
    cases hnode
  have hentries : ∀ name ∈ front.reverse, Tree.IsEntry name :=
    fun name hname => (hstorable.name hnode (hnames name hname)).1
  rw [← hsegments] at hentries hne
  rw [← List.reverse_reverse front, ← hsegments] at hnode
  have hbelow := hroot.below hstorable.toWellFormed hdir hentries hne hnode (by simp)
  rwa [hsegments, List.reverse_reverse] at hbelow

theorem Inventory.Lists.congr {Wanted Wanted' : Location → Prop} {inventory : Inventory}
    (h : inventory.Lists tree cwd root base Wanted)
    (hwanted : ∀ front content, tree.node? (front ++ base) = some (.file content) →
      (Wanted front ↔ Wanted' front)) :
    inventory.Lists tree cwd root base Wanted' := by
  refine ⟨fun file => (h.files file).trans ?_, h.places⟩
  refine exists_congr fun front => exists_congr fun content => and_congr_right fun hnode => ?_
  rw [hwanted front content hnode]

theorem lists_ofFiles {c : Collection} (hc : c.respect = false) (hstorable : tree.Storable)
    (hroot : tree.LeadsTo cwd root base) (hdir : tree.node? base = some .dir) :
    (Inventory.ofFiles (tree.entries.filterMap (c.file? base (c.scopes base tree cwd)))).Lists
      tree cwd root base
      fun front => IsListed c.excludedDirs front ∧ IsSpared tree cwd base front := by
  constructor
  · intro file
    refine (Inventory.mem_arrange_of_ofPath fun f hf => ?_).trans
      (mem_filterMap_file? hc hstorable.toWellFormed hdir)
    obtain ⟨entry, -, hfile⟩ := List.mem_filterMap.1 hf
    exact eq_ofPath_of_file? hfile
  · intro front content hnode _
    exact leadsTo_below_ofSegments hstorable hroot hdir hnode

end

/-- **Where ignore files do not count, the collected files are those to be listed** below the root,
whatever ignore files there are, except for those that the exclusions of a repository drop. Each
path leads to its file from the root.
-/
theorem collect_exact (excluded : List Text) (tree : Tree) (cwd base : Location) (root : Text)
    (hstorable : tree.Storable) (hlocate : tree.locate cwd root = .ok base)
    (hdir : tree.node? base = some .dir) (hroot : root ≠ ['-']) :
    ∃ inventory, collect ⟨excluded, false⟩ tree cwd root = .ok inventory ∧
      inventory.Lists tree cwd root base
        (fun front => IsListed excluded front ∧ IsSpared tree cwd base front) ∧
      (ExcludesNothing tree cwd base → inventory.Lists tree cwd root base (IsListed excluded)) := by
  have hlists :=
    lists_ofFiles (c := ⟨excluded, false⟩) rfl hstorable (Tree.leadsTo_of_locate hlocate) hdir
  refine ⟨_, collect_eq _ hlocate hdir hroot, hlists,
    fun hnothing => hlists.congr fun front content hnode => ?_⟩
  exact and_iff_left (.of_excludesNothing hnothing hstorable.toWellFormed hnode)

/-! ### A repository with exclusions -/

/-- A repository at the root of a tree with the given exclusions, an ignore file, a link and
directories that are not entered. -/
def repositoryTree (exclusions : Bytes) : Tree where
  entries := [
    ([".git".toList], .dir),
    (["info".toList, ".git".toList], .dir),
    (["exclude".toList, "info".toList, ".git".toList], .file exclusions),
    ([".ignore".toList], .file (Text.bytes "a.ts".toList)),
    (["a.ts".toList], .file []),
    (["link.ts".toList], .link "a.ts".toList),
    (["src".toList], .dir),
    (["b.d.ts".toList, "src".toList], .file []),
    (["b.e.jsx".toList, "src".toList], .file []),
    (["node_modules".toList], .dir),
    (["a.ts".toList, "node_modules".toList], .file [])]

theorem ofDir_repositoryTree (exclusions : Bytes) :
    Ignore.Scope.ofDir (repositoryTree exclusions) [] false [] =
      { dir := [], exclude := Ignore.rulesOf exclusions, isRepository := true } := by
  cbv

theorem excludesNothing_repositoryTree : ExcludesNothing (repositoryTree []) [] [] := by
  intro dir _ hdir
  by_cases hne : dir = []
  · rw [hne, ofDir_repositoryTree]
    rfl
  · have hmem := Tree.mem_of_node? hne hdir
    simp only [repositoryTree, List.mem_cons, Prod.mk.injEq, reduceCtorEq, and_false, and_true,
      false_or, or_false, List.not_mem_nil] at hmem
    rcases hmem with rfl | rfl | rfl | rfl <;> cbv

theorem collect_exact_repositoryTree :
    (repositoryTree []).Storable ∧ (repositoryTree []).locate [] ['/'] = .ok [] ∧
      ∃ inventory, collect ⟨[], false⟩ (repositoryTree []) [] ['/'] = .ok inventory ∧
        inventory.Lists (repositoryTree []) [] ['/'] [] (IsListed []) := by
  have hstorable : (repositoryTree []).Storable := by decide
  have hlocate : (repositoryTree []).locate [] ['/'] = .ok [] := Tree.locate_root
  obtain ⟨inventory, hcollect, -, hlists⟩ :=
    collect_exact [] (repositoryTree []) [] [] ['/'] hstorable hlocate rfl (by decide)
  exact ⟨hstorable, hlocate, inventory, hcollect, hlists excludesNothing_repositoryTree⟩

theorem isExcluded_repositoryTree :
    IsExcluded (repositoryTree (Text.bytes "a.ts\n".toList)) [] [] ["a.ts".toList] false := by
  change Ignore.isIgnored
    [Ignore.Scope.ofDir (repositoryTree (Text.bytes "a.ts\n".toList)) [] false []] _ _ = true
  rw [ofDir_repositoryTree]
  decide +kernel

/-- A file that the exclusions of a repository name is not collected, although ignore files do not
count and the file is to be listed. -/
theorem collect_drops_excluded :
    (repositoryTree (Text.bytes "a.ts\n".toList)).Storable ∧
      ∃ inventory, collect ⟨[], false⟩ (repositoryTree (Text.bytes "a.ts\n".toList)) [] ['/'] =
        .ok inventory ∧
        ¬inventory.Lists (repositoryTree (Text.bytes "a.ts\n".toList)) [] ['/'] []
          (IsListed []) := by
  have hstorable : (repositoryTree (Text.bytes "a.ts\n".toList)).Storable := by decide
  have hlocate : (repositoryTree (Text.bytes "a.ts\n".toList)).locate [] ['/'] = .ok [] :=
    Tree.locate_root
  refine ⟨hstorable, _, collect_eq _ hlocate rfl (by decide), fun hlists => ?_⟩
  have hlisted : IsListed [] ["a.ts".toList] := by
    refine ⟨⟨_, rfl, ⟨['a'], "ts".toList, rfl, by decide, by decide⟩, by decide⟩, ?_⟩
    simp
  have hfile := (hlists.files (.ofPath "/a.ts".toList)).2 ⟨["a.ts".toList], [], rfl, hlisted, rfl⟩
  -- the path tells which file it is
  obtain ⟨front, content, hnode, ⟨-, hspared⟩, heq⟩ :=
    ((lists_ofFiles rfl hstorable (Tree.leadsTo_of_locate hlocate) rfl).files _).1 hfile
  have hfront : front = ["a.ts".toList] := by
    have hsegments := congrArg (Path.segments ·.path) heq
    dsimp only [SourceFile.ofPath] at hsegments
    rw [Path.segments_ofSegments] at hsegments
    · rw [← List.reverse_reverse front, ← hsegments]
      decide
    · intro name hname
      refine (hstorable.isName_of_mem hnode name ?_).1
      simpa using hname
  rw [hfront] at hspared
  exact hspared _ (List.suffix_refl _) (List.cons_ne_nil _ _) isExcluded_repositoryTree

end Unreached

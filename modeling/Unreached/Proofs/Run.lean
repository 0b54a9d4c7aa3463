import Unreached.Proofs.Arguments
import Unreached.Proofs.MovedFiles
import Unreached.Run

/-!
# What a run of the command may do

* `Consents` : the first clear answer of an input accepts;
* `Permits` : the arguments and the input permit that files are moved;
* `run_cases` : a run fails, finds nothing, or moves what it finds;
* `run_contract` : files are moved with permission only, and a run succeeds exactly if no unused
  file is left.
-/

namespace Unreached

set_option autoImplicit false

/-- What a line of the input answers, unless it is not UTF-8. -/
def Bytes.answer? (line : Bytes) : Option Answer := line.text?.map Answer.ofLine

/-- Whether the first of the lines that is not unclear accepts. -/
def Accepts (lines : List Bytes) : Prop :=
  ∃ before line after, lines = before ++ line :: after ∧ (∀ l ∈ before, l.answer? = some .unclear) ∧
    line.answer? = some .accept

/-- Whether the first clear answer of an input accepts. -/
def Consents (input : Bytes) : Prop := Accepts input.lines

/-- Whether the arguments and the input permit that files are moved. -/
structure Permits (args : List Text) (input : Bytes) : Prop where
  words : ¬Opt.json.Given args
  moves : ¬Opt.noMove.Given args
  consent : Opt.yes.Given args ∨ Consents input

/-! ## Consent -/

theorem not_accepts_nil : ¬Accepts [] := by
  rintro ⟨before, line, after, h, -⟩
  cases before <;> cases h

theorem accepts_cons {line : Bytes} {lines : List Bytes} :
    Accepts (line :: lines) ↔
      line.answer? = some .accept ∨ (line.answer? = some .unclear ∧ Accepts lines) := by
  constructor
  · rintro ⟨before, line', after, h, hbefore, haccept⟩
    cases before with
    | nil =>
      cases h
      exact .inl haccept
    | cons first before =>
      cases h
      obtain ⟨hfirst, hbefore⟩ := List.forall_mem_cons.1 hbefore
      exact .inr ⟨hfirst, before, line', after, rfl, hbefore, haccept⟩
  · rintro (haccept | ⟨hunclear, before, line', after, rfl, hbefore, haccept⟩)
    · exact ⟨[], line, lines, rfl, List.forall_mem_nil _, haccept⟩
    · exact ⟨line :: before, line', after, rfl, List.forall_mem_cons.2 ⟨hunclear, hbefore⟩, haccept⟩

theorem ask_accepted (lines : List Bytes) : (ask lines).accepted? = some true ↔ Accepts lines := by
  induction lines with
  | nil => simp [ask, not_accepts_nil]
  | cons line lines ih =>
    rw [accepts_cons, ask, Bytes.answer?]
    cases line.text? with
    | none => simp
    | some t => cases hanswer : Answer.ofLine t <;> simp [hanswer, ih]

/-- Whether files are moved where some are unused. -/
structure Arguments.Moves (a : Arguments) (input : Bytes) : Prop where
  words : a.json = false
  moves : a.noMove = false
  consent : a.yes = true ∨ (confirm input).accepted? = some true

theorem permits_iff {args : List Text} {a : Arguments} {input : Bytes}
    (h : Arguments.ofCommandLine args = .ok a) : Permits args input ↔ a.Moves input := by
  have hflag : ∀ o : Opt, o.takesValue = false → (a.flag o = true ↔ o.Given args) :=
    fun o ho => Arguments.flag_ofCommandLine h ho
  have hjson : a.json = false ↔ ¬Opt.json.Given args := by
    rw [← hflag .json rfl, Bool.not_eq_true, Arguments.flag]
  have hnoMove : a.noMove = false ↔ ¬Opt.noMove.Given args := by
    rw [← hflag .noMove rfl, Bool.not_eq_true, Arguments.flag]
  have hconsent : a.yes = true ∨ (confirm input).accepted? = some true ↔
      Opt.yes.Given args ∨ Consents input :=
    or_congr (hflag .yes rfl) (ask_accepted input.lines)
  constructor
  · rintro ⟨hwords, hmoves, hconsents⟩
    exact ⟨hjson.2 hwords, hnoMove.2 hmoves, hconsent.2 hconsents⟩
  · rintro ⟨hwords, hmoves, hconsents⟩
    exact ⟨hjson.1 hwords, hnoMove.1 hmoves, hconsent.1 hconsents⟩

/-! ## The ways in which a run ends -/

/-- Whether a run has left the files as they were. -/
structure RunResult.Leaves (result : RunResult) (tree : Tree) : Prop where
  tree_eq : result.tree = tree
  moves_eq : result.moves = []

section
variable {host : Host} {tree : Tree} {args : List Text} {a : Arguments} {r : CheckResult}
  {output moveDir : Text} {relocation : Relocation}

theorem runUnused_cases (host : Host) (tree : Tree) (input : Bytes) (r : CheckResult)
    (hjson : a.json = false) :
    (a.Moves input ∧
      ∃ output, runUnused host tree a input r = runMove host tree output a.settings.moveDir r) ∨
    (¬a.Moves input ∧ (runUnused host tree a input r).Leaves tree ∧
      (runUnused host tree a input r).exit = failureExit) := by
  unfold runUnused
  dsimp only
  split
  · next hnoMove =>
    refine .inr ⟨fun h => ?_, ⟨rfl, rfl⟩, rfl⟩
    rw [h.moves] at hnoMove
    cases hnoMove
  · next hnoMove =>
    rw [Bool.not_eq_true] at hnoMove
    split
    · next hyes => exact .inl ⟨⟨hjson, hnoMove, .inl hyes⟩, _, rfl⟩
    · next hyes =>
      have hanswer : ∀ answer?, (confirm input).accepted? = answer? → answer? ≠ some true →
          ¬a.Moves input := by
        rintro answer? rfl hrefused hmoves
        exact hmoves.consent.elim hyes hrefused
      split
      · next haccepted => exact .inr ⟨hanswer _ haccepted (by decide), ⟨rfl, rfl⟩, rfl⟩
      · next haccepted => exact .inr ⟨hanswer _ haccepted (by decide), ⟨rfl, rfl⟩, rfl⟩
      · next haccepted => exact .inl ⟨⟨hjson, hnoMove, .inr haccepted⟩, _, rfl⟩

theorem runReport_cases (host : Host) (tree : Tree) (a : Arguments) (input : Bytes)
    (r : CheckResult) :
    (r.unused = [] ∧ (runReport host tree a input r).Leaves tree ∧
      (runReport host tree a input r).exit = 0) ∨
    (r.unused ≠ [] ∧ a.Moves input ∧
      ∃ output, runReport host tree a input r = runMove host tree output a.settings.moveDir r) ∨
    (r.unused ≠ [] ∧ ¬a.Moves input ∧ (runReport host tree a input r).Leaves tree ∧
      (runReport host tree a input r).exit = failureExit) := by
  unfold runReport
  by_cases hunused : r.unused = []
  · refine .inl ⟨hunused, ?_⟩
    have hempty : r.unused.isEmpty = true := List.isEmpty_iff.2 hunused
    split <;> exact ⟨⟨rfl, rfl⟩, rfl⟩
  · right
    have hempty : ¬r.unused.isEmpty = true := mt List.isEmpty_iff.1 hunused
    split
    · next hjson =>
      refine .inr ⟨hunused, fun h => ?_, ⟨rfl, rfl⟩, rfl⟩
      rw [h.words] at hjson
      cases hjson
    · next hjson =>
      exact (runUnused_cases host tree input r (Bool.not_eq_true _ ▸ hjson)).imp (⟨hunused, ·⟩)
        (⟨hunused, ·⟩)

/-- A run fails and leaves the files, or finds nothing and leaves them, or has permission and moves
what it finds. -/
theorem run_cases (host : Host) (tree : Tree) (input : Bytes)
    (h : Arguments.ofCommandLine args = .ok a) :
    ((∀ r, check host tree a.settings = .ok r → r.unused ≠ [] ∧ ¬Permits args input) ∧
      (run host tree args input).Leaves tree ∧ (run host tree args input).exit ≠ 0) ∨
    (∃ r, check host tree a.settings = .ok r ∧ r.unused = [] ∧
      (run host tree args input).Leaves tree ∧ (run host tree args input).exit = 0) ∨
    (∃ r output, check host tree a.settings = .ok r ∧ r.unused ≠ [] ∧ Permits args input ∧
      run host tree args input = runMove host tree output a.settings.moveDir r) := by
  have hrun : run host tree args input =
      conclude host tree a input (check host tree a.settings) := by
    unfold run
    rw [h]
  rw [permits_iff h, hrun]
  cases check host tree a.settings with
  | error e =>
    refine .inl ⟨nofun, ?_⟩
    cases e <;> exact ⟨⟨rfl, rfl⟩, Nat.noConfusion⟩
  | ok r =>
    rw [conclude]
    rcases runReport_cases host tree a input r with
      ⟨hunused, hleaves, hexit⟩ | ⟨hunused, hmoves, output, heq⟩ | ⟨hunused, hmoves, hleaves, hexit⟩
    · exact .inr (.inl ⟨r, rfl, hunused, hleaves, hexit⟩)
    · exact .inr (.inr ⟨r, output, rfl, hunused, hmoves, heq⟩)
    · refine .inl ⟨?_, hleaves, hexit ▸ Nat.one_ne_zero⟩
      rintro r' heq
      cases heq
      exact ⟨hunused, hmoves⟩

/-! ## Moving what was found -/

theorem failed_eq_nil_iff {cwd : Location} {root dir : Text} {files : List SourceFile}
    (hnodup : (files.map (·.path)).Nodup)
    (h : (relocate tree cwd root files dir).2 = .ok relocation) :
    relocation.failed = [] ↔ ∀ f ∈ files, f.path ∈ relocation.moved := by
  obtain ⟨hperm, -, hfailed⟩ := relocate_complete h
  constructor
  · intro hnil f hf
    rw [hnil, List.map_nil, List.append_nil] at hperm
    exact hperm.mem_iff.2 (List.mem_map_of_mem hf)
  · intro hmoved
    refine List.eq_nil_iff_forall_not_mem.2 fun failure hfailure => ?_
    have hpath : failure.1 ∈ relocation.failed.map Prod.fst := List.mem_map_of_mem hfailure
    obtain ⟨f, hf, heq⟩ := List.mem_map.1 (hfailed.subset hpath)
    -- no record is told twice
    have hdisjoint := List.disjoint_of_nodup_append (hperm.nodup_iff.2 hnodup)
    exact hdisjoint (heq ▸ hmoved f hf) hpath

theorem runMove_exit :
    (runMove host tree output moveDir r).exit = 0 ↔
      ∃ relocation, (relocate tree host.cwd r.root r.unused moveDir).2 = .ok relocation ∧
        relocation.failed = [] := by
  unfold runMove
  rcases relocate tree host.cwd r.root r.unused moveDir with ⟨tree', fault | relocation⟩
  · simp [failureExit]
  · simp [failureExit]

theorem runMove_tree :
    (runMove host tree output moveDir r).tree =
      (relocate tree host.cwd r.root r.unused moveDir).1 := by
  unfold runMove
  rcases relocate tree host.cwd r.root r.unused moveDir with ⟨tree', fault | relocation⟩ <;> rfl

theorem runMove_moves
    (h : (relocate tree host.cwd r.root r.unused moveDir).2 = .ok relocation) :
    (runMove host tree output moveDir r).moves = relocation.moves r.root := by
  unfold runMove
  rw [← Prod.eta (relocate _ _ _ _ _), h]

theorem nodup_unused {settings : Settings} (h : check host tree settings = .ok r) :
    (r.unused.map (·.path)).Nodup := by
  obtain ⟨s, inventory, deadline, -, -, hcheck⟩ := check_ok h
  exact Ascending.nodup_keys (Settings.exact_of_checkInventory hcheck).ascending

/-- What holds of a run with the given settings. -/
structure RunContract (host : Host) (tree : Tree) (args : List Text) (settings : Settings)
    (input : Bytes) : Prop where
  /-- Without unused files that were found, or without permission, nothing changes. -/
  unchanged : (¬∃ r, check host tree settings = .ok r ∧ r.unused ≠ [] ∧ Permits args input) →
    (run host tree args input).Leaves tree
  /-- With both, the unused files are moved. -/
  relocated : ∀ r, check host tree settings = .ok r → r.unused ≠ [] → Permits args input →
    (run host tree args input).tree = (relocate tree host.cwd r.root r.unused settings.moveDir).1 ∧
      ∀ relocation, (relocate tree host.cwd r.root r.unused settings.moveDir).2 = .ok relocation →
        (run host tree args input).moves = relocation.moves r.root
  /-- A run succeeds exactly if it finds no unused file, or has permission and moves each of
  them. -/
  exit_eq_zero : (run host tree args input).exit = 0 ↔
    ∃ r, check host tree settings = .ok r ∧
      (r.unused = [] ∨ (Permits args input ∧ ∃ relocation,
        (relocate tree host.cwd r.root r.unused settings.moveDir).2 = .ok relocation ∧
          ∀ f ∈ r.unused, f.path ∈ relocation.moved))

/-- **Files are moved with permission only, and a run succeeds exactly if no unused file is left in
place.** -/
theorem run_contract (host : Host) (tree : Tree) (input : Bytes)
    (h : Arguments.ofCommandLine args = .ok a) : RunContract host tree args a.settings input := by
  rcases run_cases host tree input h with
    ⟨hnone, hleaves, hexit⟩ | ⟨r, hcheck, hunused, hleaves, hexit⟩ |
      ⟨r, output, hcheck, hunused, hpermits, heq⟩
  · constructor
    · exact fun _ => hleaves
    · intro r hcheck _ hpermits
      exact absurd hpermits (hnone r hcheck).2
    · refine iff_of_false hexit ?_
      rintro ⟨r, hcheck, hunused | ⟨hpermits, -⟩⟩
      · exact (hnone r hcheck).1 hunused
      · exact (hnone r hcheck).2 hpermits
  · constructor
    · exact fun _ => hleaves
    · intro r' hcheck' hunused'
      cases hcheck.symm.trans hcheck'
      exact absurd hunused hunused'
    · exact iff_of_true hexit ⟨r, hcheck, .inl hunused⟩
  · have hsame : ∀ r', check host tree a.settings = .ok r' → r' = r := by
      intro r' hcheck'
      exact Except.ok.inj (hcheck'.symm.trans hcheck)
    constructor
    · intro hnone
      exact absurd ⟨r, hcheck, hunused, hpermits⟩ hnone
    · intro r' hcheck' _ _
      rw [hsame r' hcheck', heq]
      exact ⟨runMove_tree, fun relocation => runMove_moves⟩
    · rw [heq, runMove_exit]
      constructor
      · rintro ⟨relocation, hrelocation, hfailed⟩
        have hmoved := (failed_eq_nil_iff (nodup_unused hcheck) hrelocation).1 hfailed
        exact ⟨r, hcheck, .inr ⟨hpermits, relocation, hrelocation, hmoved⟩⟩
      · rintro ⟨r', hcheck', hr'⟩
        rw [hsame r' hcheck'] at hr'
        obtain ⟨-, relocation, hrelocation, hmoved⟩ := hr'.resolve_left hunused
        exact ⟨relocation, hrelocation,
          (failed_eq_nil_iff (nodup_unused hcheck) hrelocation).2 hmoved⟩

end

/-! ### Consent at the second question -/

def orphanArgs : List Text := ["unused-files".toList, "--root".toList, ['/']]

def hesitantInput : Bytes := Text.bytes "maybe\ny\n".toList

def orphanResult : CheckResult where
  root := ['/']
  unused := [.ofPath "/orphan.ts".toList]
  entries := 1
  inventorySize := 2
  reachable := 0
  filesAnalyzed := 1

theorem check_orphanTree :
    check { cwd := [] } orphanTree (orphanSettings defaultMoveDir) = .ok orphanResult := by
  have h : orphanTree.SettingsFree := by decide
  have hsurveyed : Surveyed { cwd := [] } orphanTree (orphanSettings defaultMoveDir)
      (orphanSettings defaultMoveDir) (.ofPaths ["/index.ts".toList, "/orphan.ts".toList]) :=
    h.surveyed rfl rfl rfl rfl
  have hindex : orphanTree.sources [] ['/'] "/index.ts".toList = some [] :=
    Tree.sources_of_entry rfl rfl rfl (by decide : Tree.IsEntry "index.ts".toList) rfl
  have htargets : ((orphanSettings defaultMoveDir).project
      (.ofPaths ["/index.ts".toList, "/orphan.ts".toList])).targets (orphanTree.sources [] ['/'])
      "/index.ts".toList ⊆ [] := by
    rw [Project.targets, Project.imports, hindex]
    exact List.nil_subset _
  have hreached : (orphanSettings defaultMoveDir).reached
      (.ofPaths ["/index.ts".toList, "/orphan.ts".toList]) (orphanTree.sources [] ['/']) = [] :=
    Engine.ofList_found_of_closed .nil (List.forall_mem_singleton.2 htargets) (by simp) (by simp)
  have hrun : (orphanSettings defaultMoveDir).checkInventory ['/']
      (.ofPaths ["/index.ts".toList, "/orphan.ts".toList]) (orphanTree.sources [] ['/']) .never =
        .ok orphanResult := by
    rw [Settings.checkInventory_never, hreached]
    decide
  rw [hsurveyed.check_eq]
  exact hrun

theorem permits_hesitantInput : Permits orphanArgs hesitantInput where
  words := by decide
  moves := by decide
  consent := by
    have hlines : hesitantInput.lines = [Text.bytes "maybe\n".toList, Text.bytes "y\n".toList] := by
      decide
    have hunclear : (Text.bytes "maybe\n".toList).answer? = some .unclear := by
      decide +kernel
    have haccept : (Text.bytes "y\n".toList).answer? = some .accept := by
      decide +kernel
    exact .inr ⟨[Text.bytes "maybe\n".toList], _, [], hlines, List.forall_mem_singleton.2 hunclear,
      haccept⟩

theorem run_contract_orphanTree :
    Arguments.ofCommandLine orphanArgs = .ok { settings := orphanSettings defaultMoveDir } ∧
      RunContract { cwd := [] } orphanTree orphanArgs (orphanSettings defaultMoveDir)
        hesitantInput ∧
      (run { cwd := [] } orphanTree orphanArgs hesitantInput).tree =
        orphanTreeIn [[defaultMoveDir]] ∧
      (run { cwd := [] } orphanTree orphanArgs hesitantInput).exit = 0 := by
  have hargs : Arguments.ofCommandLine orphanArgs =
      .ok { settings := orphanSettings defaultMoveDir } := by decide
  have hrelocate : relocate orphanTree [] ['/'] orphanResult.unused defaultMoveDir =
      (orphanTreeIn [[defaultMoveDir]],
        .ok { destination := "/unusedFile".toList, moved := ["/orphan.ts".toList] }) := by
    cbv
  have hcontract : RunContract { cwd := [] } orphanTree orphanArgs (orphanSettings defaultMoveDir)
      hesitantInput :=
    run_contract { cwd := [] } orphanTree hesitantInput hargs
  refine ⟨hargs, hcontract, ?_, hcontract.exit_eq_zero.2 ⟨orphanResult, check_orphanTree, .inr ?_⟩⟩
  · rw [(hcontract.relocated orphanResult check_orphanTree
      (List.cons_ne_nil _ _) permits_hesitantInput).1]
    exact congrArg Prod.fst hrelocate
  · exact ⟨permits_hesitantInput, _, congrArg Prod.snd hrelocate, by decide⟩

end Unreached

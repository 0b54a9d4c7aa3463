import Mathlib.Logic.Relation
import Unreached.Proofs.Declarations
import Unreached.Proofs.Memory

/-!
# Re-exports beside imports

A re-export that no quote or semicolon ends takes in the lines after it, and imports may be among
these.

* `Draft.HidesImport` : a re-export that has taken in an import whose specifier it does not pass on;
* `Aligned` : how the open declarations of two scans stand to each other, of which one counts
  re-exports. Every line keeps it (`Aligned.step`) unless it completes a re-export that hides an
  import;
* `reexports_keep_imports` : where no re-export hides an import, a scan that counts re-exports finds
  all the imports.
-/

namespace Unreached.Import

set_option autoImplicit false

variable {text line : Text} {d e : Draft} {isLocal : Text → Bool} {open? open?' : Option Draft}
  {lines : List Text}

namespace Draft

/-- Whether a line after the first starts an import. -/
def AbsorbsImport (d : Draft) : Prop :=
  ∃ line ∈ (d.text.splitOn '\n').tail, Kind.ofLine? false line = some .importing

/-- Whether a re-export has taken in an import and does not pass its specifier on: it has no `from`,
or a back quote, or it ends at the limit of its lines. -/
def HidesImport (d : Draft) : Prop :=
  d.kind = .reexporting ∧ d.AbsorbsImport ∧ d.isComplete ∧
    (¬d.text.includes "from".toList ∨ backQuote ∈ d.text ∨ ¬d.isClosed)

instance : DecidablePred AbsorbsImport := fun d =>
  inferInstanceAs
    (Decidable (∃ line ∈ (d.text.splitOn '\n').tail, Kind.ofLine? false line = some .importing))

instance : DecidablePred HidesImport := fun d =>
  inferInstanceAs (Decidable (d.kind = .reexporting ∧ d.AbsorbsImport ∧ d.isComplete ∧
    (¬d.text.includes "from".toList ∨ backQuote ∈ d.text ∨ ¬d.isClosed)))

theorem AbsorbsImport.extend (h : d.AbsorbsImport) (line : Text) :
    (d.extend line).AbsorbsImport := by
  obtain ⟨first, rest, hsplit⟩ := List.exists_cons_of_ne_nil (List.splitOn_ne_nil '\n' d.text)
  obtain ⟨start, hmem, hstart⟩ := h
  refine ⟨start, ?_, hstart⟩
  rw [hsplit] at hmem
  simp only [Draft.extend, List.splitOn_append_cons_self, hsplit, List.cons_append,
    List.tail_cons] at hmem ⊢
  exact List.mem_append_left _ hmem

theorem absorbsImport_extend (d : Draft) (hline : '\n' ∉ line)
    (h : Kind.ofLine? false line = some .importing) : (d.extend line).AbsorbsImport := by
  obtain ⟨first, rest, hsplit⟩ := List.exists_cons_of_ne_nil (List.splitOn_ne_nil '\n' d.text)
  refine ⟨line, ?_, h⟩
  simp [Draft.extend, List.splitOn_append_cons_self, List.splitOn_eq_singleton hline, hsplit]

/-- A re-export that has taken in an import, after lines of its own that nothing closes. -/
structure Holds (e d : Draft) : Prop where
  reexporting : e.kind = .reexporting
  importing : d.kind = .importing
  absorbs : e.AbsorbsImport
  text : ∃ front, e.text = front ++ '\n' :: d.text ∧ ∀ c ∈ front, closes c = false
  room : e.room ≤ d.room

theorem Holds.extend (h : e.Holds d) (line : Text) : (e.extend line).Holds (d.extend line) where
  reexporting := h.reexporting
  importing := h.importing
  absorbs := h.absorbs.extend line
  text := by
    obtain ⟨front, htext, hfront⟩ := h.text
    exact ⟨front, by simp [Draft.extend, htext], hfront⟩
  room := Nat.sub_le_sub_right h.room 1

theorem Holds.isClosed_eq (h : e.Holds d) : e.isClosed = d.isClosed := by
  obtain ⟨front, htext, hfront⟩ := h.text
  have hnone : front.any closes = false := List.any_eq_false.2 fun c hc => by simp [hfront c hc]
  simp [isClosed, htext, hnone, closes]

theorem Holds.specifier?_eq (h : e.Holds d) (hcomplete : e.isComplete) (hshows : ¬e.HidesImport) :
    e.specifier? isLocal = d.specifier? isLocal := by
  have hpasses : ¬(¬e.text.includes "from".toList ∨ backQuote ∈ e.text ∨ ¬e.isClosed) :=
    fun hhides => hshows ⟨h.reexporting, h.absorbs, hcomplete, hhides⟩
  simp only [not_or, not_not] at hpasses
  obtain ⟨hfrom, hquote, -⟩ := hpasses
  obtain ⟨front, htext, hfront⟩ := h.text
  have hliterals : literals e.text = literals d.text := by
    rw [htext]
    refine literals_append_line (fun c hc => ?_) d.text
    exact opensLiteral_of_closes (hfront c hc) fun heq => hquote (by simp [htext, ← heq, hc])
  unfold specifier?
  rw [hliterals, hfrom, h.importing]
  simp

end Draft

theorem Kind.ofLine?_cases (line : Text) :
    (Kind.ofLine? false line = some .importing ∧ Kind.ofLine? true line = some .importing) ∨
      (Kind.ofLine? false line = none ∧
        (Kind.ofLine? true line = none ∨ Kind.ofLine? true line = some .reexporting)) := by
  unfold Kind.ofLine?
  dsimp only
  split
  · exact .inl ⟨rfl, rfl⟩
  · refine .inr ⟨rfl, ?_⟩
    split
    · exact .inr rfl
    · exact .inl rfl

/-! ## Two scans side by side -/

/-- The open declarations of a scan without re-exports and of one with them, after the same lines:
they are the same, or only a re-export is open, or the re-export has taken in the import. -/
inductive Aligned : Option Draft → Option Draft → Prop
  | same (open? : Option Draft) : Aligned open? open?
  | apart {e : Draft} (kind : e.kind = .reexporting) (unclosed : e.isClosed = false)
    (room : e.room ≤ maxContinuation) : Aligned none (some e)
  | within {e d : Draft} (holds : e.Holds d) (unclosed : d.isClosed = false) :
    Aligned (some d) (some e)

/-- What a line does in two scans leaves them aligned, and the one finds what the other does. -/
structure Keeps (isLocal : Text → Bool) (off on : List Draft × Option Draft) : Prop where
  aligned : Aligned off.2 on.2
  specifiers : (off.1.filterMap (Draft.specifier? isLocal)).Sublist
    (on.1.filterMap (Draft.specifier? isLocal))

theorem Keeps.refl (r : List Draft × Option Draft) : Keeps isLocal r r :=
  ⟨.same _, List.Sublist.refl _⟩

theorem keeps_settle (hkind : e.kind = .reexporting) (hroom : e.room ≤ maxContinuation) :
    Keeps isLocal ([], none) e.settle := by
  unfold Draft.settle
  split
  · exact ⟨.same none, List.nil_sublist _⟩
  · next hcomplete =>
    rw [Draft.isComplete_iff, not_or] at hcomplete
    exact ⟨.apart hkind (Bool.eq_false_iff.2 hcomplete.1) hroom, List.nil_sublist _⟩

theorem Draft.Holds.keeps_settle (h : e.Holds d) (hshows : ∀ e' ∈ e.settle.1, ¬e'.HidesImport) :
    Keeps isLocal d.settle e.settle := by
  by_cases hcomplete : e.isComplete
  · have hsettle : e.settle = ([e], none) := if_pos hcomplete
    rw [hsettle] at hshows ⊢
    have hshows : ¬e.HidesImport := hshows e (List.mem_singleton_self e)
    -- the re-export does not end at the limit, so the quote or semicolon that ends it ends the
    -- import
    have hclosed : e.isClosed := by
      refine Classical.not_not.1 fun hclosed => hshows ?_
      exact ⟨h.reexporting, h.absorbs, hcomplete, .inr (.inr hclosed)⟩
    have hd : d.settle = ([d], none) :=
      if_pos (Draft.isComplete_iff.2 (.inl (h.isClosed_eq ▸ hclosed)))
    rw [hd]
    refine ⟨.same none, ?_⟩
    simp [List.filterMap_cons, h.specifier?_eq hcomplete hshows]
  · have hsettle : e.settle = ([], some e) := if_neg hcomplete
    rw [Draft.isComplete_iff, not_or, h.isClosed_eq] at hcomplete
    have hroom : d.room ≠ 0 := fun hzero => hcomplete.2 (Nat.le_zero.1 (hzero ▸ h.room))
    have hd : d.settle = ([], some d) := if_neg (by simp [Draft.isComplete_iff, hcomplete.1, hroom])
    rw [hsettle, hd]
    exact ⟨.within h (Bool.eq_false_iff.2 hcomplete.1), List.Sublist.refl _⟩

/-- **A line keeps two scans aligned** unless it completes a re-export that hides an import. -/
theorem Aligned.step (h : Aligned open? open?') (hline : '\n' ∉ line)
    (hshows : ∀ e ∈ (step true open?' line).1, ¬e.HidesImport) :
    Keeps isLocal (step false open? line) (step true open?' line) := by
  cases h with
  | same open? =>
    cases open? with
    | some d => exact .refl _
    | none =>
      rcases Kind.ofLine?_cases line with ⟨hoff, hon⟩ | ⟨hoff, hon | hon⟩
      · simp only [Import.step, Draft.ofLine?, hoff, hon]
        exact .refl _
      · simp only [Import.step, Draft.ofLine?, hoff, hon]
        exact .refl _
      · simp only [Import.step, Draft.ofLine?, hoff, hon]
        exact keeps_settle rfl (Nat.le_refl _)
  | @apart e hkind hunclosed hroom =>
    rcases Kind.ofLine?_cases line with ⟨hoff, -⟩ | ⟨hoff, -⟩
    · have hholds : (e.extend line).Holds ⟨.importing, line, maxContinuation⟩ :=
        { reexporting := hkind
          importing := rfl
          absorbs := e.absorbsImport_extend hline hoff
          text := ⟨e.text, rfl, Draft.isClosed_eq_false_iff.1 hunclosed⟩
          room := Nat.le_trans (Nat.sub_le _ _) hroom }
      simp only [Import.step, Draft.ofLine?, hoff]
      exact hholds.keeps_settle hshows
    · simp only [Import.step, Draft.ofLine?, hoff]
      exact keeps_settle hkind (Nat.le_trans (Nat.sub_le _ _) hroom)
  | within hholds _ => exact (hholds.extend line).keeps_settle hshows

theorem Aligned.declarationsFrom (h : Aligned open? open?') (hlines : ∀ line ∈ lines, '\n' ∉ line)
    (hshows : ∀ e ∈ declarationsFrom true open?' lines, ¬e.HidesImport) :
    ((declarationsFrom false open? lines).filterMap (Draft.specifier? isLocal)).Sublist
      ((declarationsFrom true open?' lines).filterMap (Draft.specifier? isLocal)) := by
  induction lines generalizing open? open?' with
  | nil =>
    cases h with
    | same => exact List.Sublist.refl _
    | apart => exact List.nil_sublist _
    | @within e d _ hunclosed =>
      have hnone : [d].filterMap (Draft.specifier? isLocal) = [] := by
        simp [Draft.specifier?_of_not_isClosed hunclosed]
      rw [Import.declarationsFrom, Option.toList_some, hnone]
      exact List.nil_sublist _
  | cons line lines ih =>
    obtain ⟨hline, hlines⟩ := List.forall_mem_cons.1 hlines
    rw [Import.declarationsFrom] at hshows
    obtain ⟨hfirst, hrest⟩ := List.forall_mem_append.1 hshows
    obtain ⟨haligned, hspecifiers⟩ : Keeps isLocal _ _ := h.step hline hfirst
    rw [Import.declarationsFrom, Import.declarationsFrom, List.filterMap_append,
      List.filterMap_append]
    exact hspecifiers.append (ih haligned hlines hrest)

/-! ## Texts and projects -/

theorem scan_sublist {source : Text} (h : ∀ d ∈ declarations true source, ¬d.HidesImport) :
    (scan false isLocal source).Sublist (scan true isLocal source) := by
  rw [scan_eq, scan_eq]
  exact (Aligned.same none).declarationsFrom (fun line hline => Text.not_mem_of_mem_lines hline) h

theorem imports_reexports {p : Project} {sources : Sources}
    (h : ∀ file source, sources file = some source → ∀ d ∈ declarations true source, ¬d.HidesImport)
    {file target : Text}
    (himports : Project.Imports { p with reexports := false } sources file target) :
    Project.Imports { p with reexports := true } sources file target := by
  obtain ⟨spec, hspec, hskipped, hresolve⟩ := himports
  refine ⟨spec, ?_, hskipped, hresolve⟩
  unfold Project.imports at hspec ⊢
  cases hsource : sources file with
  | none => simp [hsource] at hspec
  | some source =>
    rw [hsource] at hspec
    exact (scan_sublist (h file source hsource)).subset hspec

/-- **Counting re-exports loses no import**, for every text and every condition on specifiers, as
long as no re-export of the text hides one: all that is found without re-exports is found with them,
in the same order. So no fewer files are reached from a file with this text, in every project where
the other files hide no imports either. -/
theorem reexports_keep_imports (isLocal : Text → Bool) (source : Text)
    (hshows : ∀ d ∈ declarations true source, ¬d.HidesImport) :
    (scan false isLocal source).Sublist (scan true isLocal source) ∧
      ∀ (p : Project) (sources : Sources) (file : Text), sources file = some source →
        (∀ other text, other ≠ file → sources other = some text →
          ∀ d ∈ declarations true text, ¬d.HidesImport) →
        ∀ target,
          Relation.TransGen (Project.Imports { p with reexports := false } sources) file target →
          Relation.TransGen (Project.Imports { p with reexports := true } sources) file target := by
  refine ⟨scan_sublist hshows, fun p sources file hsource hothers target hpath => ?_⟩
  have hall : ∀ other text, sources other = some text →
      ∀ d ∈ declarations true text, ¬d.HidesImport := by
    intro other text htext
    by_cases heq : other = file
    · rw [heq, hsource] at htext
      cases htext
      exact hshows
    · exact hothers other text heq htext
  exact Relation.TransGen.mono (fun _ _ => imports_reexports hall) _ _ hpath

/-! ### Exports without a semicolon -/

/-- Whether a specifier starts with a mark of the project itself. -/
def isMarked (spec : Text) : Bool := spec.head?.any localMarkers.contains

/-- The first export takes in the import after it, and passes its specifier on. -/
def passingSource : Text :=
  "export \x7b a \x7d\nimport \x7b b \x7d from './b'\nexport * from './c';\nimport './d'\n".toList

/-- The export takes in the import after it, and has no `from`. -/
def hidingSource : Text := "export \x7b a \x7d\nimport './b'\n".toList

def passingProject : Project where
  inventory := .ofPaths ["/a.ts".toList, "/b.ts".toList, "/c.ts".toList, "/d.ts".toList]

theorem reexports_keep_imports_passingSource :
    (∀ d ∈ declarations true passingSource, ¬d.HidesImport) ∧
      scan false isMarked passingSource = ["./b".toList, "./d".toList] ∧
      scan true isMarked passingSource = ["./b".toList, "./c".toList, "./d".toList] ∧
      (scan false isMarked passingSource).Sublist (scan true isMarked passingSource) ∧
      Relation.TransGen (Project.Imports { passingProject with reexports := true }
        fun file => if file = "/a.ts".toList then some passingSource else none)
        "/a.ts".toList "/d.ts".toList := by
  have hshows : ∀ d ∈ declarations true passingSource, ¬d.HidesImport := by decide +kernel
  have himports : Project.Imports { passingProject with reexports := false }
      (fun file => if file = "/a.ts".toList then some passingSource else none)
      "/a.ts".toList "/d.ts".toList :=
    ⟨"./d".toList, by decide +kernel, by decide +kernel, by decide +kernel⟩
  obtain ⟨hscan, hreached⟩ := reexports_keep_imports isMarked passingSource hshows
  refine ⟨hshows, by decide +kernel, by decide +kernel, hscan, ?_⟩
  refine hreached passingProject _ _ (if_pos rfl) (fun other text hother htext => ?_) _
    (.single himports)
  rw [if_neg hother] at htext
  cases htext

/-- An import after an export without a semicolon is lost when re-exports count. -/
theorem reexports_hide_import :
    ¬∀ (isLocal : Text → Bool) (source spec : Text),
      spec ∈ scan false isLocal source → spec ∈ scan true isLocal source := by
  intro h
  exact absurd (h isMarked hidingSource "./b".toList (by decide +kernel)) (by decide +kernel)

end Unreached.Import

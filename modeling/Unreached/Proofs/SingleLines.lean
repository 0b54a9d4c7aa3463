import Unreached.Proofs.Declarations

/-!
# Imports on a single line

A declaration that nothing has closed yet takes in the lines after it, and whole imports may be
among these.

* `scan_line` : what a line finds on its own;
* `Draft.Passes` : an open import without back quotes. It passes on the literals of every line that
  it takes in (`Draft.Passes.specifier?_extend`), and a line leaves no other import open
  (`passes_step`);
* `scan_lines_sublist` : a text finds what its lines find on their own, in their order;
* `import_line_found` : an import on a single line is found in every text without back quotes.
-/

namespace Unreached

set_option autoImplicit false

namespace Import

variable {line source : Text} {d : Draft} {open? : Option Draft} {lines : List Text}
  {isLocal : Text → Bool} {reexports : Bool}

/-! ## A line on its own -/

theorem lines_eq_singleton (hne : line ≠ []) (hline : '\n' ∉ line) : line.lines = [line] := by
  simp [Text.lines, List.splitOn_eq_singleton hline, hne]

/-- A line on its own finds what the declaration that it completes does. -/
theorem scan_line (hline : '\n' ∉ line) :
    scan reexports isLocal line = (step reexports none line).1.filterMap
      (Draft.specifier? isLocal) := by
  by_cases hne : line = []
  · subst hne
    cases reexports <;> rfl
  · rw [scan_eq, declarations, lines_eq_singleton hne hline, declarationsFrom, declarationsFrom,
      List.filterMap_append]
    cases hopen : (step reexports none line).2 with
    | none => simp
    | some d => simp [Draft.specifier?_of_not_isClosed (step_open_cases hopen).1]

/-! ## Open imports -/

/-- An open import that passes on the literals of the lines that it takes in. -/
structure Draft.Passes (d : Draft) : Prop where
  importing : d.kind = .importing
  unclosed : d.isClosed = false
  plain : backQuote ∉ d.text

theorem Draft.Passes.literals_extend (h : d.Passes) (line : Text) :
    literals (d.extend line).text = literals line := by
  refine literals_append_line (fun c hc => ?_) line
  exact opensLiteral_of_closes (isClosed_eq_false_iff.1 h.unclosed c hc) fun heq =>
    h.plain (heq ▸ hc)

theorem Draft.Passes.specifier?_extend (h : d.Passes) (line : Text) :
    (d.extend line).specifier? isLocal = (literals line).find? isLocal := by
  have hkind : (d.extend line).kind = .importing := h.importing
  unfold Draft.specifier?
  rw [h.literals_extend, hkind]
  simp

theorem importing_of_ofLine? {kind : Kind} (h : Kind.ofLine? false line = some kind) :
    kind = .importing := by
  cases kind with
  | importing => rfl
  | reexporting => exact absurd (reexports_of_ofLine? h) (by decide)

/-- A line that leaves an import open leaves one that passes on. -/
theorem passes_step (hopen : ∀ d ∈ open?, d.Passes) (hline : backQuote ∉ line) :
    ∀ d ∈ (step false open? line).2, d.Passes := by
  intro d hd
  obtain ⟨hunclosed, ⟨e, he, rfl⟩ | ⟨-, hstart⟩⟩ := step_open_cases hd
  · have hbreak : backQuote ≠ '\n' := by decide
    refine ⟨(hopen e he).importing, hunclosed, ?_⟩
    simp [Draft.extend, (hopen e he).plain, hbreak, hline]
  · obtain ⟨kind, hkind, rfl⟩ := Option.map_eq_some_iff.1 hstart
    exact ⟨importing_of_ofLine? hkind, hunclosed, hline⟩

/-! ## Lines in a text -/

/-- **A line finds in a text what it finds on its own**, whatever import has taken it in. -/
theorem step_sublist (hopen : ∀ d ∈ open?, d.Passes) (line : Text) :
    ((step false none line).1.filterMap (Draft.specifier? isLocal)).Sublist
      ((step false open? line).1.filterMap (Draft.specifier? isLocal)) := by
  cases open? with
  | none => exact List.Sublist.refl _
  | some d =>
    cases hkind : Kind.ofLine? false line with
    | none => simp [step, Draft.ofLine?, hkind]
    | some kind =>
      obtain rfl := importing_of_ofLine? hkind
      by_cases hclosed : line.any closes
      · -- the line ends the import that takes it in, as it ends its own
        have hstart : Draft.settle ⟨.importing, line, maxContinuation⟩ =
            ([⟨.importing, line, maxContinuation⟩], none) :=
          Draft.settle_of_isClosed hclosed
        have hsettle : (d.extend line).settle = ([d.extend line], none) :=
          Draft.settle_of_isClosed (by rw [Draft.isClosed_extend, hclosed, Bool.or_true])
        have hspecifier : Draft.specifier? isLocal ⟨.importing, line, maxContinuation⟩ =
            (d.extend line).specifier? isLocal := by
          rw [(hopen d rfl).specifier?_extend]
          simp [Draft.specifier?]
        simp [step, Draft.ofLine?, hkind, hstart, hsettle, List.filterMap_cons, hspecifier]
      · rw [step_start hkind (Bool.eq_false_iff.2 hclosed)]
        exact List.nil_sublist _

theorem declarationsFrom_sublist (hopen : ∀ d ∈ open?, d.Passes)
    (hlines : ∀ line ∈ lines, '\n' ∉ line ∧ backQuote ∉ line) :
    (lines.flatMap (scan false isLocal)).Sublist
      ((declarationsFrom false open? lines).filterMap (Draft.specifier? isLocal)) := by
  induction lines generalizing open? with
  | nil => exact List.nil_sublist _
  | cons line lines ih =>
    obtain ⟨⟨hbreak, hquote⟩, hlines⟩ := List.forall_mem_cons.1 hlines
    rw [List.flatMap_cons, declarationsFrom, List.filterMap_append, scan_line hbreak]
    exact (step_sublist hopen line).append (ih (passes_step hopen hquote) hlines)

/-- **A text without back quotes finds what its lines find on their own**, in the order of the
lines. -/
theorem scan_lines_sublist (hquote : backQuote ∉ source) :
    (source.lines.flatMap (scan false isLocal)).Sublist (scan false isLocal source) := by
  rw [scan_eq]
  refine declarationsFrom_sublist (by simp) fun line hline =>
    ⟨Text.not_mem_of_mem_lines hline, fun hmem => ?_⟩
  exact hquote (Text.mem_of_mem_lines hline hmem)

/-- **An import on a single line is found wherever it stands.** In a text without back quotes, where
re-exports do not count, all that a line finds on its own is found in the whole text, whatever the
lines before it have left open. -/
theorem import_line_found (isLocal : Text → Bool) (source line spec : Text)
    (hquote : backQuote ∉ source) (hline : line ∈ source.lines)
    (hspec : spec ∈ scan false isLocal line) : spec ∈ scan false isLocal source :=
  (scan_lines_sublist hquote).subset (List.mem_flatMap.2 ⟨line, hline, hspec⟩)

/-! ### An import after prose and an unfinished import -/

/-- The prose takes in the unfinished import and then the whole one. -/
def proseSource : Text :=
  "import maps are new\r\nimport \x7b a,\r\n  // more to come\r\nimport b from './b' // './c'\r\n".toList

theorem import_line_found_proseSource :
    "import b from './b' // './c'".toList ∈ proseSource.lines ∧
      scan false (fun _ => true) "import b from './b' // './c'".toList = ["./b".toList] ∧
      "./b".toList ∈ scan false (fun _ => true) proseSource := by
  have hline : "import b from './b' // './c'".toList ∈ proseSource.lines := by decide +kernel
  have hscan : scan false (fun _ => true) "import b from './b' // './c'".toList =
      ["./b".toList] := by decide +kernel
  have hspec : "./b".toList ∈ scan false (fun _ => true) "import b from './b' // './c'".toList := by
    rw [hscan]
    exact List.mem_singleton_self _
  exact ⟨hline, hscan, import_line_found _ proseSource _ _ (by decide +kernel) hline hspec⟩

end Import

end Unreached

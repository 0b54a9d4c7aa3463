import Mathlib.Data.List.Basic
import Unreached.Import.Scan

/-!
# The declarations of a source text

The scan reads declarations line by line and lists their specifiers.

* `step`, `declarations` : what one line does to the open declaration, and the declarations of a
  whole text. The scan lists their specifiers (`scan_eq`);
* `Draft.isClosed` : a quote or a semicolon ends the declaration, not the limit of its lines. One
  that is not closed has no specifier (`Draft.specifier?_of_not_isClosed`);
* `literals_append_line` : lines in which no literal opens hide none of the literals after them;
* `declarationsFrom_lines` : lines of which only the last closes the declaration make one;
* `openAfter` : the declaration that is open after some lines. It has taken the last of them in or
  starts on it (`step_open_cases`).
-/

namespace Unreached.Import

set_option autoImplicit false

variable {text line : Text} {mode : Mode} {d : Draft} {isLocal : Text → Bool} {reexports : Bool}

/-! ## Literals -/

/-- Whether a literal that is open in the mode counts for nothing, as a template does. -/
def Mode.IsSilent : Mode → Prop
  | .literal quote _ => quote = backQuote
  | _ => True

theorem literalsFrom_eq_nil (hmode : mode.IsSilent) (h : ∀ c ∈ text, c ≠ '"' ∧ c ≠ '\'') :
    literalsFrom mode text = [] := by
  fun_induction literalsFrom mode text with
  | case1 => rfl
  | case2 text ih => exact ih trivial fun c hc => h c (by simp [hc])
  | case3 c text _ ih =>
    obtain ⟨⟨hdouble, hsingle⟩, htext⟩ := List.forall_mem_cons.1 h
    refine ih ?_ htext
    by_cases hopens : opensLiteral c
    · rw [if_pos hopens]
      simpa [opensLiteral, hdouble, hsingle, Mode.IsSilent] using hopens
    · rw [if_neg hopens]
      trivial
  | case4 c text ih =>
    refine ih ?_ (List.forall_mem_cons.1 h).2
    split <;> trivial
  | case5 quote content c text ih => exact ih hmode fun c hc => h c (by simp [hc])
  | case6 content text _ ih => exact ih trivial (List.forall_mem_cons.1 h).2
  | case7 content c text _ hne ih => exact absurd hmode hne
  | case8 quote content c text _ _ ih => exact ih hmode (List.forall_mem_cons.1 h).2

theorem literalsFrom_append_line (hmode : mode = .code ∨ mode = .comment)
    (h : ∀ c ∈ text, opensLiteral c = false) (rest : Text) :
    literalsFrom mode (text ++ '\n' :: rest) = literals rest := by
  fun_induction literalsFrom mode text with
  | case1 mode =>
    rcases hmode with rfl | rfl
    · rfl
    · rfl
  | case2 text ih => exact ih (.inr rfl) fun c hc => h c (by simp [hc])
  | case3 c text hslash ih =>
    obtain ⟨hc, htext⟩ := List.forall_mem_cons.1 h
    rw [hc] at ih
    -- the line feed after the text cannot make two slashes of one
    have hstep : literalsFrom .code (c :: text ++ '\n' :: rest) =
        literalsFrom .code (text ++ '\n' :: rest) := by
      cases text with
      | nil => simp [literalsFrom, hc]
      | cons c' text =>
        rw [List.cons_append, List.cons_append, literalsFrom, hc]
        · rfl
        · intro text' hc' htext'
          cases htext'
          exact hslash _ hc' rfl
    rw [hstep]
    exact ih (.inl rfl) htext
  | case4 c text ih =>
    rw [List.cons_append, literalsFrom]
    refine ih ?_ (List.forall_mem_cons.1 h).2
    split <;> simp
  | case5 => simp at hmode
  | case6 => simp at hmode
  | case7 => simp at hmode
  | case8 => simp at hmode

/-- Lines in which no literal opens hide none of the literals after them. -/
theorem literals_append_line (h : ∀ c ∈ text, opensLiteral c = false) (rest : Text) :
    literals (text ++ '\n' :: rest) = literals rest :=
  literalsFrom_append_line (.inl rfl) h rest

/-! ## Closed declarations -/

/-- Whether a character ends a declaration. -/
def closes (c : Char) : Bool := c = '"' || c = '\'' || c = ';'

theorem ne_quote_of_closes {c : Char} (h : closes c = false) : c ≠ '"' ∧ c ≠ '\'' := by
  simp only [closes, Bool.or_eq_false_iff, decide_eq_false_iff_not] at h
  exact h.1

theorem opensLiteral_of_closes {c : Char} (h : closes c = false) (hc : c ≠ backQuote) :
    opensLiteral c = false := by
  obtain ⟨hdouble, hsingle⟩ := ne_quote_of_closes h
  simp [opensLiteral, hdouble, hsingle, hc]

namespace Draft

/-- Whether the declaration has a quote or a semicolon. -/
def isClosed (d : Draft) : Bool := d.text.any closes

theorem isComplete_iff : d.isComplete ↔ d.isClosed ∨ d.room = 0 := by
  simp [isComplete, isClosed, closes]

theorem isClosed_eq_false_iff : d.isClosed = false ↔ ∀ c ∈ d.text, closes c = false := by
  simp [isClosed]

theorem specifier?_of_not_isClosed (h : d.isClosed = false) : d.specifier? isLocal = none := by
  have hliterals : literals d.text = [] :=
    literalsFrom_eq_nil trivial fun c hc => ne_quote_of_closes (isClosed_eq_false_iff.1 h c hc)
  unfold specifier?
  rw [hliterals]
  simp

end Draft

/-! ## The scan as a run of steps -/

/-- A declaration after a line: complete, or still open. -/
def Draft.settle (d : Draft) : List Draft × Option Draft :=
  if d.isComplete then ([d], none) else ([], some d)

theorem Draft.settle_of_isClosed (h : d.isClosed) : d.settle = ([d], none) :=
  if_pos (isComplete_iff.2 (.inl h))

theorem Draft.settle_of_not_isClosed (h : d.isClosed = false) (hroom : 0 < d.room) :
    d.settle = ([], some d) := by
  refine if_neg fun hcomplete => ?_
  rcases isComplete_iff.1 hcomplete with hclosed | hfull
  · rw [h] at hclosed
    cases hclosed
  · omega

section
variable (reexports : Bool)

/-- The declarations that a line completes and the one that is open after it. -/
def step : Option Draft → Text → List Draft × Option Draft
  | none, line => ((Draft.ofLine? reexports line).map Draft.settle).getD ([], none)
  | some d, line => (d.extend line).settle

/-- The declarations in the given lines, the first of which continue the open declaration. -/
def declarationsFrom : Option Draft → List Text → List Draft
  | open?, [] => open?.toList
  | open?, line :: lines =>
    (step reexports open? line).1 ++ declarationsFrom (step reexports open? line).2 lines

/-- The declarations of a source text. -/
def declarations (source : Text) : List Draft := declarationsFrom reexports none source.lines

end

theorem scanLines_eq (open? : Option Draft) (lines : List Text) :
    scanLines reexports isLocal open? lines =
      (declarationsFrom reexports open? lines).filterMap (Draft.specifier? isLocal) := by
  induction lines generalizing open? with
  | nil =>
    cases open? with
    | none => rfl
    | some d => cases hspec : d.specifier? isLocal <;> simp [scanLines, declarationsFrom, hspec]
  | cons line lines ih =>
    have hsettle (d : Draft) :
        (if d.isComplete then
          (d.specifier? isLocal).toList ++ scanLines reexports isLocal none lines
          else scanLines reexports isLocal (some d) lines) =
        (d.settle.1 ++ declarationsFrom reexports d.settle.2 lines).filterMap
          (Draft.specifier? isLocal) := by
      unfold Draft.settle
      split
      · rw [ih none]
        cases hspec : d.specifier? isLocal <;> simp [hspec]
      · exact ih (some d)
    rw [declarationsFrom]
    cases open? with
    | none =>
      rw [scanLines, step]
      split
      · next hline => simpa [hline] using ih none
      · next d hline => simpa [hline] using hsettle d
    | some d => exact hsettle (d.extend line)

/-- **The scan lists the specifiers of the declarations.** -/
theorem scan_eq (source : Text) :
    scan reexports isLocal source = (declarations reexports source).filterMap
      (Draft.specifier? isLocal) :=
  scanLines_eq none source.lines

/-! ## Lines that leave a declaration open -/

namespace Draft

theorem isClosed_extend (d : Draft) (line : Text) :
    (d.extend line).isClosed = (d.isClosed || line.any closes) := by
  rw [isClosed, isClosed, extend, List.any_append, List.any_cons]
  rfl

theorem text_foldl_extend (d : Draft) (lines : List Text) :
    (lines.foldl extend d).text = d.text ++ lines.flatMap ('\n' :: ·) := by
  induction lines generalizing d with
  | nil => simp
  | cons line lines ih => simp [ih, extend]

theorem kind_foldl_extend (d : Draft) (lines : List Text) :
    (lines.foldl extend d).kind = d.kind := by
  induction lines generalizing d with
  | nil => rfl
  | cons line lines ih => exact ih (d.extend line)

end Draft

/-- A declaration takes in the lines that do not close it, as far as it has room. -/
theorem declarationsFrom_open {lines : List Text} (hd : d.isClosed = false)
    (hlines : ∀ line ∈ lines, line.any closes = false) (hroom : lines.length < d.room)
    (rest : List Text) :
    declarationsFrom reexports (some d) (lines ++ rest) =
      declarationsFrom reexports (some (lines.foldl Draft.extend d)) rest := by
  induction lines generalizing d with
  | nil => rfl
  | cons line lines ih =>
    obtain ⟨hline, hlines⟩ := List.forall_mem_cons.1 hlines
    have hclosed : (d.extend line).isClosed = false := by rw [d.isClosed_extend, hd, hline]; rfl
    have hroom' : lines.length < (d.extend line).room := Nat.lt_sub_of_add_lt hroom
    rw [List.cons_append, declarationsFrom, step, Draft.settle_of_not_isClosed hclosed (by omega),
      List.nil_append, ih hclosed hlines hroom']
    rfl

/-- A line that starts a declaration and does not close it leaves it open. -/
theorem step_start {kind : Kind} (hkind : Kind.ofLine? reexports line = some kind)
    (hline : line.any closes = false) :
    step reexports none line = ([], some ⟨kind, line, maxContinuation⟩) := by
  have hstart : Draft.isClosed ⟨kind, line, maxContinuation⟩ = false := hline
  rw [step, Draft.ofLine?, hkind, Option.map_some, Option.map_some, Option.getD_some,
    Draft.settle_of_not_isClosed hstart (show 0 < maxContinuation by decide)]

/-- A line that starts a declaration and closes it is one. -/
theorem declarationsFrom_line {kind : Kind} (hkind : Kind.ofLine? reexports line = some kind)
    (hline : line.any closes) (rest : List Text) :
    declarationsFrom reexports none (line :: rest) =
      ⟨kind, line, maxContinuation⟩ :: declarationsFrom reexports none rest := by
  have hclosed : Draft.isClosed ⟨kind, line, maxContinuation⟩ := hline
  rw [declarationsFrom, step, Draft.ofLine?, hkind, Option.map_some, Option.map_some,
    Option.getD_some, Draft.settle_of_isClosed hclosed]
  rfl

/-- Lines of which the first starts a declaration and only the last closes it are one, if it has
room for them. -/
theorem declarationsFrom_lines {kind : Kind} {first last : Text} {more : List Text}
    (hkind : Kind.ofLine? reexports first = some kind)
    (hopen : ∀ line ∈ first :: more, line.any closes = false)
    (hroom : more.length < maxContinuation) (hlast : last.any closes) (rest : List Text) :
    declarationsFrom reexports none (first :: more ++ last :: rest) =
      (more.foldl Draft.extend ⟨kind, first, maxContinuation⟩).extend last ::
        declarationsFrom reexports none rest := by
  obtain ⟨hfirst, hmore⟩ := List.forall_mem_cons.1 hopen
  have hstart : Draft.isClosed ⟨kind, first, maxContinuation⟩ = false := hfirst
  have hclosed :
      ((more.foldl Draft.extend ⟨kind, first, maxContinuation⟩).extend last).isClosed := by
    rw [Draft.isClosed_extend, hlast, Bool.or_true]
  rw [List.cons_append, declarationsFrom, step_start hkind hfirst, List.nil_append,
    declarationsFrom_open hstart hmore hroom, declarationsFrom, step,
    Draft.settle_of_isClosed hclosed]
  rfl

/-! ## The declaration that is open -/

/-- A declaration that a line leaves open has taken the line in, or starts on it. -/
theorem step_open_cases {open? : Option Draft} (h : (step reexports open? line).2 = some d) :
    d.isClosed = false ∧
      ((∃ e, open? = some e ∧ d = e.extend line) ∨
        open? = none ∧ Draft.ofLine? reexports line = some d) := by
  have hsettle {e : Draft} (he : e.settle.2 = some d) : d.isClosed = false ∧ d = e := by
    unfold Draft.settle at he
    split at he
    · cases he
    · next hcomplete =>
      cases he
      exact ⟨Bool.eq_false_iff.2 fun hclosed => hcomplete (Draft.isComplete_iff.2 (.inl hclosed)),
        rfl⟩
  cases open? with
  | some e =>
    obtain ⟨hclosed, heq⟩ := hsettle h
    exact ⟨hclosed, .inl ⟨e, rfl, heq⟩⟩
  | none =>
    cases hline : Draft.ofLine? reexports line with
    | none => simp [step, hline] at h
    | some e =>
      obtain ⟨hclosed, heq⟩ := hsettle (e := e) (by simpa [step, hline] using h)
      exact ⟨hclosed, .inr ⟨rfl, heq ▸ rfl⟩⟩

/-- The declaration that is open after some lines. -/
def openAfter (reexports : Bool) (open? : Option Draft) (lines : List Text) : Option Draft :=
  lines.foldl (fun open? line => (step reexports open? line).2) open?

theorem declarationsFrom_append (reexports : Bool) (open? : Option Draft) (lines : List Text) :
    ∃ complete, ∀ rest, declarationsFrom reexports open? (lines ++ rest) =
      complete ++ declarationsFrom reexports (openAfter reexports open? lines) rest := by
  induction lines generalizing open? with
  | nil => exact ⟨[], fun _ => rfl⟩
  | cons line lines ih =>
    obtain ⟨complete, hcomplete⟩ := ih (step reexports open? line).2
    refine ⟨(step reexports open? line).1 ++ complete, fun rest => ?_⟩
    rw [List.cons_append, declarationsFrom, hcomplete, List.append_assoc]
    rfl

theorem reexports_of_ofLine? (h : Kind.ofLine? reexports line = some .reexporting) : reexports := by
  unfold Kind.ofLine? at h
  dsimp only at h
  split at h
  · cases h
  · split at h
    · next hreexports => exact (Bool.and_eq_true_iff.1 hreexports).1
    · cases h

/-- Whether a declaration can be open in a scan: nothing closes it, and it is a re-export only where
these count. -/
structure Draft.IsOpen (reexports : Bool) (d : Draft) : Prop where
  unclosed : d.isClosed = false
  counts : d.kind = .reexporting → reexports

theorem isOpen_of_openAfter {open? : Option Draft} (hopen : ∀ d ∈ open?, d.IsOpen reexports)
    (lines : List Text) : ∀ d ∈ openAfter reexports open? lines, d.IsOpen reexports := by
  induction lines generalizing open? with
  | nil => exact hopen
  | cons line lines ih =>
    refine ih fun d hd => ?_
    obtain ⟨hunclosed, ⟨e, he, rfl⟩ | ⟨-, hstart⟩⟩ := step_open_cases hd
    · exact ⟨hunclosed, (hopen e he).counts⟩
    · obtain ⟨kind, hkind, rfl⟩ := Option.map_eq_some_iff.1 hstart
      exact ⟨hunclosed, fun (heq : kind = .reexporting) => reexports_of_ofLine? (heq ▸ hkind)⟩

end Unreached.Import

import Unreached.Proofs.Quoting

/-!
# Declarations as they are written

A source text is made of declarations and of lines that start none.

* `Text.joinLines` : lines joined by line breaks of either kind, which reading splits again
  (`Text.lines_joinLines`);
* `Opens` : the first line of a declaration, as it is recognised (`Opens.ofLine?_eq`);
* `Declaration` : a clause over one or more lines, a quoted string and the rest of its line;
* `scan_written` : from pieces put together in any order the scan gets back the quoted strings of
  the declarations.
-/

namespace Unreached

set_option autoImplicit false

/-! ## Texts and their lines -/

namespace Text

theorem trimStart_append {blanks t : Text} {c : Char} (h : ∀ b ∈ blanks, isBlank b)
    (hc : isBlank c = false) : trimStart (blanks ++ c :: t) = c :: t := by
  rw [trimStart, List.dropWhile_append_of_pos h, List.dropWhile_cons_of_neg (by simp [hc])]

/-- Whether a text has no part of a line break. -/
def Unbroken (t : Text) : Prop := '\n' ∉ t ∧ '\r' ∉ t

instance : DecidablePred Unbroken := fun t => inferInstanceAs (Decidable ('\n' ∉ t ∧ '\r' ∉ t))

theorem unbroken_append {t s : Text} : Unbroken (t ++ s) ↔ Unbroken t ∧ Unbroken s := by
  simp only [Unbroken, List.mem_append, not_or]
  exact and_and_and_comm

theorem unbroken_cons {c : Char} {t : Text} :
    Unbroken (c :: t) ↔ (c ≠ '\n' ∧ c ≠ '\r') ∧ Unbroken t := by
  simp only [Unbroken, List.mem_cons, not_or, eq_comm]
  exact and_and_and_comm

/-- Lines joined by line breaks. Those before the last `n` lines have a carriage return if `returns
n` holds. -/
def joinLines (returns : Nat → Bool) : List Text → Text
  | [] => []
  | [line] => line
  | line :: lines =>
    line ++ (if returns lines.length then ['\r', '\n'] else ['\n']) ++ joinLines returns lines

theorem lines_append {line : Text} (h : '\n' ∉ line) (rest : Text) :
    lines (line ++ '\n' :: rest) = dropReturn line :: lines rest := by
  obtain ⟨first, parts, hsplit⟩ := List.exists_cons_of_ne_nil (List.splitOn_ne_nil '\n' rest)
  unfold lines
  rw [List.splitOn_append_cons_self, List.splitOn_eq_singleton h, hsplit]
  rfl

theorem dropReturn_of_not_mem {line : Text} (h : '\r' ∉ line) : dropReturn line = line :=
  if_neg fun hlast => h (List.mem_of_getLast? hlast)

theorem dropReturn_append_return (line : Text) : dropReturn (line ++ ['\r']) = line := by
  simp [dropReturn]

/-- Reading splits joined lines again. Only an empty line at the end is not told. -/
theorem lines_joinLines (returns : Nat → Bool) {ls : List Text} (h : ∀ line ∈ ls, Unbroken line) :
    (joinLines returns ls).lines = ls ∨ (joinLines returns ls).lines ++ [[]] = ls := by
  fun_induction joinLines returns ls with
  | case1 => exact .inl rfl
  | case2 line =>
    have hsplit : line.splitOn '\n' = [line] :=
      List.splitOn_eq_singleton (h line (List.mem_singleton_self line)).1
    cases line with
    | nil => exact .inr rfl
    | cons c line =>
      left
      unfold lines
      rw [hsplit]
      rfl
  | case3 line ls _ ih =>
    obtain ⟨⟨hfeed, hreturn⟩, hls⟩ := List.forall_mem_cons.1 h
    have hlines : (line ++ (if returns ls.length then ['\r', '\n'] else ['\n']) ++
        joinLines returns ls).lines =
        line :: (joinLines returns ls).lines := by
      split
      · have hbreak : line ++ ['\r', '\n'] ++ joinLines returns ls =
            (line ++ ['\r']) ++ '\n' :: joinLines returns ls := by
          simp
        rw [hbreak, lines_append (by simpa using hfeed), dropReturn_append_return]
      · rw [List.append_assoc, List.singleton_append, lines_append hfeed,
          dropReturn_of_not_mem hreturn]
    rw [hlines, List.cons_append, List.cons.injEq, List.cons.injEq]
    simpa using ih hls

end Text

namespace Import

variable {reexports : Bool} {isLocal : Text → Bool} {kind : Kind} {start : Text}

/-! ## The first line of a declaration -/

/-- Whether a text opens a declaration: after blank characters the word `import`, which a blank
character, a bracket, a star or a quote follows; or, where re-exports count, the word `export`,
which a bracket or a star follows, possibly after the word `type`. -/
inductive Opens (reexports : Bool) : Kind → Text → Prop
  | importing {indent : Text} {c : Char} (blank : ∀ b ∈ indent, isBlank b)
    (next : isBlank c ∨ c ∈ ['{', '*', '"', '\'']) (rest : Text) :
    Opens reexports .importing (indent ++ "import".toList ++ c :: rest)
  | reexporting {indent gap : Text} {c : Char} (on : reexports = true)
    (blank : ∀ b ∈ indent ++ gap, isBlank b) (next : c ∈ ['{', '*']) (rest : Text) :
    Opens reexports .reexporting (indent ++ "export".toList ++ gap ++ c :: rest)
  | reexportingTypes {indent gap gap' : Text} {c : Char} (on : reexports = true)
    (blank : ∀ b ∈ indent ++ gap ++ gap', isBlank b) (next : c ∈ ['{', '*']) (rest : Text) :
    Opens reexports .reexporting
      (indent ++ "export".toList ++ gap ++ "type ".toList ++ gap' ++ c :: rest)

theorem ofLine?_import {indent rest : Text} (hblank : ∀ b ∈ indent, isBlank b)
    (hrest : headIs followsImport rest) :
    Kind.ofLine? reexports (indent ++ "import".toList ++ rest) = some .importing := by
  have htrim : Text.trimStart (indent ++ "import".toList ++ rest) = "import".toList ++ rest := by
    rw [List.append_assoc]
    exact Text.trimStart_append hblank (by decide)
  unfold Kind.ofLine?
  dsimp only
  rw [htrim, Text.after?_append]
  exact if_pos hrest

theorem ofLine?_export {indent rest : Text} (hblank : ∀ b ∈ indent, isBlank b)
    (hrest : followsExport rest) :
    Kind.ofLine? true (indent ++ "export".toList ++ rest) = some .reexporting := by
  have htrim : Text.trimStart (indent ++ "export".toList ++ rest) = "export".toList ++ rest := by
    rw [List.append_assoc]
    exact Text.trimStart_append hblank (by decide)
  have himport : Text.after? "import".toList ("export".toList ++ rest) = none := rfl
  unfold Kind.ofLine?
  dsimp only
  rw [htrim, himport, Text.after?_append]
  exact if_pos hrest

theorem bracket_ne {c : Char} (hc : c ∈ ['{', '*']) : isBlank c = false ∧ 't' ≠ c := by
  simp only [List.mem_cons, List.not_mem_nil, or_false] at hc
  rcases hc with rfl | rfl <;> decide

theorem headIs_bracket {c : Char} (hc : c ∈ ['{', '*']) (rest : Text) :
    headIs (fun c => c = '{' || c = '*') (c :: rest) := by
  simpa [headIs] using hc

theorem followsExport_bracket {gap : Text} {c : Char} (hgap : ∀ b ∈ gap, isBlank b)
    (hc : c ∈ ['{', '*']) (rest : Text) : followsExport (gap ++ c :: rest) := by
  have htype : Text.after? "type ".toList (c :: rest) = none := if_neg (bracket_ne hc).2
  rw [followsExport, Text.trimStart_append hgap (bracket_ne hc).1, dropTypeWord, htype]
  exact headIs_bracket hc rest

theorem followsExport_type {gap gap' : Text} {c : Char} (hgap : ∀ b ∈ gap, isBlank b)
    (hgap' : ∀ b ∈ gap', isBlank b) (hc : c ∈ ['{', '*']) (rest : Text) :
    followsExport (gap ++ ("type ".toList ++ (gap' ++ c :: rest))) := by
  have htrim : Text.trimStart (gap ++ ("type ".toList ++ (gap' ++ c :: rest))) =
      "type ".toList ++ (gap' ++ c :: rest) :=
    Text.trimStart_append hgap (by decide)
  rw [followsExport, htrim, dropTypeWord, Text.after?_append, Option.map_some, Option.getD_some,
    Text.trimStart_append hgap' (bracket_ne hc).1]
  exact headIs_bracket hc rest

/-- A line that starts with what opens a declaration starts one. -/
theorem Opens.ofLine?_eq (h : Opens reexports kind start) (more : Text) :
    Kind.ofLine? reexports (start ++ more) = some kind := by
  cases h with
  | @importing indent c hblank hnext rest =>
    rw [List.append_assoc]
    refine ofLine?_import hblank ?_
    simpa [headIs, followsImport, or_assoc] using hnext
  | reexporting hon hblank hnext rest =>
    obtain ⟨hindent, hgap⟩ := List.forall_mem_append.1 hblank
    rw [hon, List.append_assoc, List.append_assoc]
    exact ofLine?_export hindent (followsExport_bracket hgap hnext _)
  | reexportingTypes hon hblank hnext rest =>
    obtain ⟨hblank, hgap'⟩ := List.forall_mem_append.1 hblank
    obtain ⟨hindent, hgap⟩ := List.forall_mem_append.1 hblank
    rw [hon]
    simp only [List.append_assoc]
    rw [← List.append_assoc]
    exact ofLine?_export hindent (followsExport_type hgap hgap' hnext _)

/-- A line that starts an import opens with one. -/
theorem opens_of_ofLine? {line : Text} (h : Kind.ofLine? reexports line = some .importing) :
    Opens reexports .importing line := by
  have hafter : (Text.after? "import".toList line.trimStart).any (headIs followsImport) := by
    unfold Kind.ofLine? at h
    dsimp only at h
    split at h
    · assumption
    · split at h <;> cases h
  obtain ⟨rest, hrest, hhead⟩ := (Option.any_eq_true _ _).1 hafter
  cases rest with
  | nil => cases hhead
  | cons c rest =>
    have htrim : line.dropWhile isBlank = "import".toList ++ c :: rest :=
      Text.eq_append_of_after? hrest
    have hnext : isBlank c ∨ c ∈ ['{', '*', '"', '\''] := by
      simpa [headIs, followsImport, or_assoc] using hhead
    rw [← List.takeWhile_append_dropWhile (p := isBlank) (l := line), htrim, ← List.append_assoc]
    exact .importing (List.all_eq_true.1 List.all_takeWhile) hnext rest

/-! ## Declarations and other lines -/

/-- Whether a text may stand in a clause: it has no quote of any kind and no semicolon. -/
def IsClause (t : Text) : Prop := ∀ c ∈ t, closes c = false ∧ opensLiteral c = false

-- named, since the search may come upon the instance that goes through all characters
instance : DecidablePred IsClause :=
  List.decidableBAll fun c => closes c = false ∧ opensLiteral c = false

theorem IsClause.any_closes {t : Text} (h : IsClause t) : t.any closes = false :=
  List.any_eq_false.2 fun c hc => by simp [(h c hc).1]

/-- A declaration as it is written: a clause, which may run over several lines, a quoted string and
the rest of the line. -/
structure Declaration (reexports : Bool) where
  kind : Kind
  /-- The lines before that of the quoted string. -/
  front : List Text
  /-- What precedes the quoted string on its line. -/
  lead : Text
  quote : Char
  /-- The string between the quotes. -/
  spec : Text
  /-- What follows the quoted string, up to a comment. -/
  tail : Text
  comment? : Option Text
  opens : Opens reexports kind (front.headD (lead ++ [quote]))
  short : front.length ≤ 64
  clause : ∀ line ∈ front ++ [lead], IsClause line ∧ line.Unbroken
  uncommented : lead.includes "//".toList = false
  names : kind = .reexporting → ∃ line ∈ front ++ [lead], line.includes "from".toList
  quotes : quote = '"' ∨ quote = '\''
  unbroken_spec : spec.Unbroken
  unbroken_tail : tail.Unbroken
  unquoted : ∀ c ∈ tail, opensLiteral c = false
  unbroken_comment : ∀ comment ∈ comment?, comment.Unbroken

namespace Declaration
variable (d : Declaration reexports)

/-- What follows the quoted string. -/
def ending : Text := d.tail ++ d.comment?.elim [] ("//".toList ++ ·)

/-- The line with the quoted string. -/
def last : Text := d.lead ++ (d.quote :: escape d.quote d.spec ++ d.quote :: d.ending)

def lines : List Text := d.front ++ [d.last]

theorem literals_ending : literals d.ending = [] := by
  unfold ending
  cases hcomment : d.comment? with
  | none =>
    refine literalsFrom_eq_nil trivial fun c hc => ?_
    have hopens := d.unquoted c (by simpa using hc)
    simp only [opensLiteral, Bool.or_eq_false_iff, decide_eq_false_iff_not] at hopens
    exact hopens.1
  | some comment =>
    exact literals_append_comment d.unquoted d.unbroken_tail.1
      (d.unbroken_comment comment hcomment).1

theorem literals_last : literals d.last = [d.spec] := by
  have hlead : IsClause d.lead := (d.clause d.lead (by simp)).1
  have hquote : (d.quote :: escape d.quote d.spec ++ d.quote :: d.ending).head? ≠ some '/' := by
    rcases d.quotes with hquote | hquote <;> simp [hquote]
  rw [last, literals_append (fun c hc => (hlead c hc).2) d.uncommented hquote,
    literals_quoted d.quotes, d.literals_ending]

theorem closes_last : d.last.any closes = true := by
  refine List.any_eq_true.2 ⟨d.quote, by simp [last], ?_⟩
  rcases d.quotes with hquote | hquote <;> simp [closes, hquote]

theorem unbroken_ending : d.ending.Unbroken := by
  refine Text.unbroken_append.2 ⟨d.unbroken_tail, ?_⟩
  cases hcomment : d.comment? with
  | none => exact ⟨List.not_mem_nil, List.not_mem_nil⟩
  | some comment => exact Text.unbroken_append.2 ⟨by decide, d.unbroken_comment comment hcomment⟩

theorem unbroken_last : d.last.Unbroken := by
  have hquote : d.quote ≠ '\n' ∧ d.quote ≠ '\r' := by
    rcases d.quotes with hquote | hquote <;> rw [hquote] <;> decide
  have hspec : (escape d.quote d.spec).Unbroken :=
    ⟨fun h => (mem_escape h).elim (by decide) d.unbroken_spec.1,
      fun h => (mem_escape h).elim (by decide) d.unbroken_spec.2⟩
  refine Text.unbroken_append.2 ⟨(d.clause d.lead (by simp)).2, Text.unbroken_append.2 ⟨?_, ?_⟩⟩
  · exact Text.unbroken_cons.2 ⟨hquote, hspec⟩
  · exact Text.unbroken_cons.2 ⟨hquote, d.unbroken_ending⟩

/-- The declaration as it is read. -/
def draft : Draft :=
  match d.front with
  | [] => ⟨d.kind, d.last, maxContinuation⟩
  | first :: more => (more.foldl Draft.extend ⟨d.kind, first, maxContinuation⟩).extend d.last

theorem text_draft : d.draft.text = d.front.flatMap (· ++ ['\n']) ++ d.last := by
  have hbreaks (first : Text) (more : List Text) :
      first ++ more.flatMap ('\n' :: ·) ++ ['\n'] = (first :: more).flatMap (· ++ ['\n']) := by
    induction more generalizing first with
    | nil => simp
    | cons line more ih => simpa using ih line
  unfold draft
  split
  · next hfront => rw [hfront]; rfl
  · next first more hfront =>
    rw [Draft.extend, Draft.text_foldl_extend, hfront, ← hbreaks]
    simp

theorem kind_draft : d.draft.kind = d.kind := by
  unfold draft
  split
  · rfl
  · exact Draft.kind_foldl_extend _ _

theorem literals_draft : literals d.draft.text = [d.spec] := by
  have hfront : ∀ line ∈ d.front, IsClause line := fun line hline =>
    (d.clause line (List.mem_append_left _ hline)).1
  rw [text_draft, ← d.literals_last]
  generalize d.front = front at hfront
  induction front with
  | nil => rfl
  | cons line front ih =>
    obtain ⟨hline, hfront⟩ := List.forall_mem_cons.1 hfront
    rw [List.flatMap_cons, List.append_assoc, List.append_assoc, List.singleton_append,
      literals_append_line fun c hc => (hline c hc).2, ih hfront]

theorem infix_draft {line : Text} (h : line ∈ d.front ++ [d.lead]) : line <:+: d.draft.text := by
  rw [text_draft]
  rcases List.mem_append.1 h with h | h
  · obtain ⟨before, after, hfront⟩ := List.append_of_mem h
    exact ⟨before.flatMap (· ++ ['\n']), '\n' :: after.flatMap (· ++ ['\n']) ++ d.last,
      by simp [hfront]⟩
  · rw [List.mem_singleton.1 h]
    exact ⟨d.front.flatMap (· ++ ['\n']), _, by rw [last, List.append_assoc]⟩

theorem specifier?_draft (isLocal : Text → Bool) :
    d.draft.specifier? isLocal = [d.spec].find? isLocal := by
  have hnames : d.kind = .reexporting → d.draft.text.includes "from".toList := by
    intro hkind
    obtain ⟨line, hline, hfrom⟩ := d.names hkind
    exact Text.includes_iff_infix.2 ((Text.includes_iff_infix.1 hfrom).trans (d.infix_draft hline))
  unfold Draft.specifier?
  rw [d.literals_draft, kind_draft]
  refine if_neg ?_
  simpa using hnames

/-- A declaration is read from its lines, whatever follows them. -/
theorem declarationsFrom_written (rest : List Text) :
    declarationsFrom reexports none (d.lines ++ rest) =
      d.draft :: declarationsFrom reexports none rest := by
  have hopens := d.opens
  unfold lines draft
  cases hfront : d.front with
  | nil =>
    have hlast : d.last =
        d.lead ++ [d.quote] ++ (escape d.quote d.spec ++ d.quote :: d.ending) := by simp [last]
    rw [hfront] at hopens
    have hkind : Kind.ofLine? reexports d.last = some d.kind := by
      rw [hlast]
      exact hopens.ofLine?_eq _
    exact declarationsFrom_line hkind d.closes_last rest
  | cons first more =>
    rw [hfront] at hopens
    have hkind : Kind.ofLine? reexports first = some d.kind := by
      rw [← List.append_nil first]
      exact hopens.ofLine?_eq []
    have hopen : ∀ line ∈ first :: more, line.any closes = false := by
      intro line hline
      exact (d.clause line (by rw [hfront]; exact List.mem_append_left _ hline)).1.any_closes
    have hroom : more.length < maxContinuation := by
      have hshort := d.short
      rw [hfront] at hshort
      exact hshort
    rw [List.append_assoc, List.singleton_append]
    exact declarationsFrom_lines hkind hopen hroom d.closes_last rest

end Declaration

/-- A part of a source text: a declaration, or a line that starts none. -/
inductive Piece (reexports : Bool) where
  | declaration (d : Declaration reexports)
  | other (line : Text) (unbroken : line.Unbroken) (rejected : Kind.ofLine? reexports line = none)

namespace Piece

def lines : Piece reexports → List Text
  | .declaration d => d.lines
  | .other line _ _ => [line]

/-- The string that a declaration quotes. -/
def spec? : Piece reexports → Option Text
  | .declaration d => some d.spec
  | .other _ _ _ => none

theorem unbroken_lines (p : Piece reexports) : ∀ line ∈ p.lines, line.Unbroken := by
  intro line hline
  cases p with
  | declaration d =>
    rcases List.mem_append.1 hline with hline | hline
    · exact (d.clause line (List.mem_append_left _ hline)).2
    · exact List.mem_singleton.1 hline ▸ d.unbroken_last
  | other line' unbroken _ => exact List.mem_singleton.1 hline ▸ unbroken

theorem specifiers_lines (p : Piece reexports) (rest : List Text) :
    (declarationsFrom reexports none (p.lines ++ rest)).filterMap (Draft.specifier? isLocal) =
      p.spec?.toList.filter isLocal ++ (declarationsFrom reexports none rest).filterMap
        (Draft.specifier? isLocal) := by
  cases p with
  | declaration d =>
    have hspecifiers : [d.draft].filterMap (Draft.specifier? isLocal) =
        [d.spec].filter isLocal := by
      cases hlocal : isLocal d.spec <;> simp [d.specifier?_draft, hlocal]
    rw [lines, d.declarationsFrom_written, ← List.singleton_append, List.filterMap_append,
      hspecifiers]
    rfl
  | other line _ hrejected =>
    rw [lines, List.singleton_append, declarationsFrom, step, Draft.ofLine?, hrejected]
    rfl

end Piece

/-! ## Reading what was written -/

theorem specifiers_concat_nil {open? : Option Draft} (hopen : ∀ d ∈ open?, d.isClosed = false)
    (lines : List Text) :
    (declarationsFrom reexports open? (lines ++ [[]])).filterMap (Draft.specifier? isLocal) =
      (declarationsFrom reexports open? lines).filterMap (Draft.specifier? isLocal) := by
  induction lines generalizing open? with
  | nil =>
    cases open? with
    | none => cases reexports <;> rfl
    | some d =>
      have hclosed : (d.extend []).isClosed = false := by rw [d.isClosed_extend, hopen d rfl]; rfl
      have hsettle : (d.extend []).settle.1 ++ (d.extend []).settle.2.toList = [d.extend []] := by
        unfold Draft.settle
        split <;> rfl
      have hstep : declarationsFrom reexports (some d) ([] ++ [[]]) = [d.extend []] := hsettle
      rw [hstep]
      simp [declarationsFrom, Draft.specifier?_of_not_isClosed hclosed,
        Draft.specifier?_of_not_isClosed (hopen d rfl)]
  | cons line lines ih =>
    rw [List.cons_append, declarationsFrom, declarationsFrom, List.filterMap_append,
      List.filterMap_append, ih fun d hd => (step_open_cases hd).1]

/-- **The scan gets back what was written.** For all declarations and lines that start none, put
together in any order and joined by line breaks of either kind, the scan lists the strings that the
declarations quote, as far as they are local, in their order. -/
theorem scan_written (reexports : Bool) (isLocal : Text → Bool) (returns : Nat → Bool)
    (pieces : List (Piece reexports)) :
    scan reexports isLocal (Text.joinLines returns (pieces.flatMap Piece.lines)) =
      (pieces.filterMap Piece.spec?).filter isLocal := by
  have hunbroken : ∀ line ∈ pieces.flatMap Piece.lines, line.Unbroken := by
    intro line hline
    obtain ⟨p, -, hline⟩ := List.mem_flatMap.1 hline
    exact p.unbroken_lines line hline
  have hpieces : (declarationsFrom reexports none (pieces.flatMap Piece.lines)).filterMap
      (Draft.specifier? isLocal) =
      (pieces.filterMap Piece.spec?).filter isLocal := by
    clear hunbroken
    induction pieces with
    | nil => rfl
    | cons p pieces ih =>
      rw [List.flatMap_cons, p.specifiers_lines, ih, ← List.filter_append]
      cases hspec : p.spec? <;> simp [hspec]
  rw [scan_eq, declarations, ← hpieces]
  rcases Text.lines_joinLines returns hunbroken with hlines | hlines
  · rw [hlines]
  · conv_rhs => rw [← hlines, specifiers_concat_nil (by simp)]

/-! ### An import over three lines and a re-export -/

def threeLineImport : Declaration true where
  kind := .importing
  front := ["  import type \x7b".toList, "    a, // the first".toList]
  lead := "  \x7d from ".toList
  quote := '\''
  spec := "./it's".toList
  tail := ";".toList
  comment? := some " was './b'".toList
  opens := @Opens.importing true "  ".toList ' ' (List.all_eq_true.1 (by decide)) (.inl (by decide))
    "type \x7b".toList
  short := by decide
  clause := by decide
  uncommented := by decide
  names := by decide
  quotes := by decide
  unbroken_spec := by decide
  unbroken_tail := by decide
  unquoted := List.forall_mem_singleton.2 (by decide)
  unbroken_comment := by decide

def typeReexport : Declaration true where
  kind := .reexporting
  front := []
  lead := "export type \x7b T \x7d from ".toList
  quote := '"'
  spec := "./t".toList
  tail := []
  comment? := none
  opens := @Opens.reexportingTypes true [] " ".toList [] '\x7b' rfl (List.all_eq_true.1 (by decide))
    (by decide) " T \x7d from \"".toList
  short := by decide
  clause := by decide
  uncommented := by decide
  names := by decide
  quotes := by decide
  unbroken_spec := by decide
  unbroken_tail := by decide
  unquoted := List.forall_mem_nil _
  unbroken_comment := by decide

def mixedPieces : List (Piece true) :=
  [.declaration threeLineImport, .other "import('./lazy');".toList (by decide) (by decide),
    .declaration typeReexport]

def mixedSource : Text :=
  ("  import type \x7b\r\n    a, // the first\n  \x7d from './it\\'s';// was './b'\r\n" ++
    "import('./lazy');\nexport type \x7b T \x7d from \"./t\"").toList

theorem scan_written_mixedPieces :
    Text.joinLines (fun n => n = 4 || n = 2) (mixedPieces.flatMap Piece.lines) = mixedSource ∧
      scan true (·.startsWith ['.']) mixedSource = ["./it's".toList, "./t".toList] := by
  have hsource : Text.joinLines (fun n => n = 4 || n = 2) (mixedPieces.flatMap Piece.lines) =
      mixedSource := by
    decide +kernel
  have hscan := scan_written true (·.startsWith ['.']) (fun n => n = 4 || n = 2) mixedPieces
  rw [hsource] at hscan
  exact ⟨hsource, hscan.trans (by decide)⟩

end Import

end Unreached

import Mathlib.Data.List.Forall2
import Unreached.Proofs.Written

/-!
# Comments within imports

The lines of an import may have comments after them. A quote or a semicolon in such a comment ends
the declaration, as lines are joined before comments are told from code.

* `literalsFrom_line_cases` : after a line without quotes either code is read on or a template is;
* `literals_commented` : what a comment after a line may hold for the literals of the lines after it
  to stay the same;
* `Commented`, `Draft.Alike` : lines with comments, and open declarations that the same lines
  complete alike;
* `comments_kept_apart` : comments without quotes and semicolons leave what is found as it is.
-/

namespace Unreached

set_option autoImplicit false

/-! ## Texts around a character -/

namespace Text
variable {s : Text} {x : Char}

theorem isPrefixOf_append_cons (h : x ∉ s) (t rest : Text) :
    s.isPrefixOf (t ++ x :: rest) = s.isPrefixOf t := by
  induction s generalizing t with
  | nil => simp
  | cons c s ih =>
    obtain ⟨hc, hs⟩ := not_or.1 (mt List.mem_cons.2 h)
    cases t with
    | nil => simp [List.isPrefixOf, Ne.symm hc]
    | cons d t => simp [List.isPrefixOf, ih hs]

/-- A text that lacks a character stands on one side of it. -/
theorem includes_append_cons (h : x ∉ s) (t rest : Text) :
    (t ++ x :: rest).includes s = (t.includes s || rest.includes s) := by
  induction t with
  | nil =>
    have hnil : s.isPrefixOf (x :: rest) = s.isPrefixOf [] := isPrefixOf_append_cons h [] rest
    rw [List.nil_append, includes, includes, hnil]
    cases s <;> rfl
  | cons c t ih =>
    rw [List.cons_append, includes, includes, ih, ← List.cons_append, isPrefixOf_append_cons h,
      Bool.or_assoc]

end Text

namespace Import

variable {reexports : Bool} {isLocal : Text → Bool} {text line line' comment : Text} {mode : Mode}

/-! ## Literals after a line -/

/-- The mode of a template. -/
def template : Mode := .literal backQuote []

/-- Induction along the characters of a literal, where a backslash goes together with the character
after it. -/
theorem escapes_induction {motive : Text → Prop} (nil : motive []) (lone : motive ['\\'])
    (escaped : ∀ c text, motive text → motive ('\\' :: c :: text))
    (plain : ∀ c text, c ≠ '\\' → motive text → motive (c :: text)) : ∀ text, motive text
  | [] => nil
  | [c] => if hc : c = '\\' then hc ▸ lone else plain c [] hc nil
  | c :: d :: text =>
    if hc : c = '\\' then hc ▸ escaped d text (escapes_induction nil lone escaped plain text)
    else plain c (d :: text) hc (escapes_induction nil lone escaped plain (d :: text))

/-- What stands in a template does not count. -/
theorem literalsFrom_template (content text : Text) :
    literalsFrom (.literal backQuote content) text = literalsFrom template text := by
  have hcontent : ∀ content', literalsFrom (.literal backQuote content) text =
      literalsFrom (.literal backQuote content') text := by
    induction text using escapes_induction generalizing content with
    | nil => exact fun _ => rfl
    | lone => exact fun _ => rfl
    | escaped c text ih => exact fun content' => ih (c :: content) (c :: content')
    | plain c text hc ih =>
      intro content'
      rw [literalsFrom_literal hc, literalsFrom_literal hc]
      split
      · rfl
      · exact ih (c :: content) (c :: content')
  exact hcontent []

theorem literalsFrom_template_line (h : backQuote ∉ text) (content rest : Text) :
    literalsFrom (.literal backQuote content) (text ++ '\n' :: rest) =
      literalsFrom template rest := by
  induction text using escapes_induction generalizing content with
  | nil =>
    rw [List.nil_append, literalsFrom_literal (by decide), if_neg (by decide)]
    exact literalsFrom_template _ rest
  | lone => exact literalsFrom_template _ rest
  | escaped c text ih => exact ih (fun hmem => h (by simp [hmem])) (c :: content)
  | plain c text hc ih =>
    obtain ⟨hquote, htext⟩ := not_or.1 (mt List.mem_cons.2 h)
    rw [List.cons_append, literalsFrom_literal hc, if_neg (Ne.symm hquote)]
    exact ih htext (c :: content)

/-- After a text without quotes and a line break either code is read on or a template is. -/
theorem literalsFrom_line_cases (hmode : mode.IsSilent) (h : ∀ c ∈ text, c ≠ '"' ∧ c ≠ '\'') :
    (∀ rest, literalsFrom mode (text ++ '\n' :: rest) = literals rest) ∨
      ∀ rest, literalsFrom mode (text ++ '\n' :: rest) = literalsFrom template rest := by
  fun_induction literalsFrom mode text with
  | case1 mode =>
    cases mode with
    | code => exact .inl fun _ => rfl
    | comment => exact .inl fun _ => rfl
    | literal quote content =>
      obtain rfl : quote = backQuote := hmode
      exact .inr (literalsFrom_template_line List.not_mem_nil content)
  | case2 text ih => exact ih trivial fun c hc => h c (by simp [hc])
  | case3 c text hslash ih =>
    obtain ⟨⟨hdouble, hsingle⟩, htext⟩ := List.forall_mem_cons.1 h
    have hstep (rest : Text) : literalsFrom .code (c :: text ++ '\n' :: rest) =
        literalsFrom (if opensLiteral c then .literal c [] else .code) (text ++ '\n' :: rest) := by
      refine literalsFrom_code ?_
      rintro ⟨rfl, hhead⟩
      cases text with
      | nil => simp at hhead
      | cons d text =>
        obtain rfl : d = '/' := Option.some.inj hhead
        exact hslash text rfl rfl
    simp only [hstep]
    refine ih ?_ htext
    split
    · next hopens => simpa [opensLiteral, hdouble, hsingle, Mode.IsSilent] using hopens
    · trivial
  | case4 c text ih =>
    simp only [List.cons_append, literalsFrom]
    refine ih ?_ (List.forall_mem_cons.1 h).2
    split <;> trivial
  | case5 quote content c text ih => exact ih hmode fun c hc => h c (by simp [hc])
  | case6 content text _ ih =>
    simp only [List.cons_append, literalsFrom_literal (show backQuote ≠ '\\' by decide), if_true]
    exact ih trivial (List.forall_mem_cons.1 h).2
  | case7 content c text _ hne ih => exact absurd hmode hne
  | case8 quote content c text hlone hc ih =>
    obtain rfl : quote = backQuote := hmode
    by_cases hbackslash : c = '\\'
    · -- a backslash that ends the line escapes the line break
      cases text with
      | cons d text => exact absurd rfl (hlone d text hbackslash)
      | nil =>
        subst hbackslash
        exact .inr fun rest => literalsFrom_template _ rest
    · simp only [List.cons_append, literalsFrom_literal hbackslash, if_neg hc]
      exact ih rfl (List.forall_mem_cons.1 h).2

/-- A line with a comment after it. -/
def commented (line comment : Text) : Text := line ++ " //".toList ++ comment

theorem literals_append_commented (hline : IsClause line) (hbreak : '\n' ∉ commented line comment)
    (rest : Text) : literals (commented line comment ++ '\n' :: rest) = literals rest := by
  have hspace : ∀ c ∈ line ++ [' '], opensLiteral c = false := by
    intro c hc
    rcases List.mem_append.1 hc with hc | hc
    · exact (hline c hc).2
    · rw [List.mem_singleton.1 hc]
      decide
  have hslashes : commented line comment ++ '\n' :: rest =
      line ++ [' '] ++ '/' :: '/' :: (comment ++ '\n' :: rest) := by simp [commented]
  simp only [commented, List.mem_append, not_or] at hbreak
  rw [hslashes, literals_comment_line hspace (by simpa using hbreak.1.1) hbreak.2]

/-- A comment after a line changes none of the literals after it, unless it has a back quote that
closes a template. -/
theorem literals_commented (htext : ∀ c ∈ text, closes c = false) (hline : IsClause line)
    (hbreak : '\n' ∉ commented line comment) (htemplate : backQuote ∈ comment → backQuote ∉ text)
    (rest : Text) :
    literals (text ++ '\n' :: (commented line comment ++ '\n' :: rest)) =
      literals (text ++ '\n' :: (line ++ '\n' :: rest)) := by
  have hopens : ∀ c ∈ line, opensLiteral c = false := fun c hc => (hline c hc).2
  by_cases hquote : backQuote ∈ text
  · have hmodes : (∀ rest, literals (text ++ '\n' :: rest) = literals rest) ∨
        ∀ rest, literals (text ++ '\n' :: rest) = literalsFrom template rest :=
      literalsFrom_line_cases (show Mode.code.IsSilent from trivial) fun c hc =>
        ne_quote_of_closes (htext c hc)
    rcases hmodes with hcode | htemplates
    · rw [hcode, hcode, literals_append_commented hline hbreak, literals_append_line hopens]
    · have hplain : backQuote ∉ line := fun hmem => by simpa [opensLiteral] using hopens _ hmem
      have hcomment : backQuote ∉ comment := fun hmem => htemplate hmem hquote
      have hcommented : backQuote ∉ commented line comment := by
        simp only [commented, List.mem_append, not_or]
        exact ⟨⟨hplain, by decide⟩, hcomment⟩
      rw [htemplates, htemplates, template, literalsFrom_template_line hcommented,
        literalsFrom_template_line hplain]
  · have htext' : ∀ c ∈ text, opensLiteral c = false := fun c hc =>
      opensLiteral_of_closes (htext c hc) fun heq => hquote (heq ▸ hc)
    rw [literals_append_line htext', literals_append_line htext',
      literals_append_commented hline hbreak, literals_append_line hopens]

theorem any_closes_commented (hcomment : comment.any closes = false) :
    (commented line comment).any closes = line.any closes := by
  rw [commented, List.any_append, List.any_append, hcomment, Bool.or_false]
  exact Bool.or_false _

theorem includes_commented (hcomment : comment.includes "from".toList = false) :
    (commented line comment).includes "from".toList = line.includes "from".toList := by
  have hspace : commented line comment = line ++ ' ' :: ([] ++ '/' :: ([] ++ '/' :: comment)) := by
    simp [commented]
  rw [hspace, Text.includes_append_cons (by decide), Text.includes_append_cons (by decide),
    Text.includes_append_cons (by decide), hcomment]
  exact Bool.or_false _

/-! ## Open declarations that stand alike -/

/-- Whether `line'` is `line`, or has a comment after it that ends no declaration. If a declaration
is open before the import, the comment also closes no template of it, is not taken for its source,
and does not make the line start a declaration, as it does after the word `import` alone. -/
inductive Commented (reexports : Bool) (open? : Option Draft) : Text → Text → Prop
  | same (line : Text) : Commented reexports open? line line
  | comment {line comment : Text} (unclosed : comment.any closes = false)
    (template : ∀ d ∈ open?, backQuote ∈ comment → backQuote ∉ d.text)
    (source : open?.isSome → reexports → comment.includes "from".toList = false)
    (start : open?.isSome → Kind.ofLine? reexports (commented line comment) =
      Kind.ofLine? reexports line) :
    Commented reexports open? line (commented line comment)

namespace Draft
variable {d d' : Draft} {open? : Option Draft}

/-- Whether a declaration can be open within an import, where `open?` is open before it. -/
structure Within (reexports : Bool) (open? : Option Draft) (d : Draft) : Prop where
  template : backQuote ∈ d.text → ∃ e ∈ open?, backQuote ∈ e.text
  kind : d.kind = .reexporting → open?.isSome ∧ reexports

/-- Two open declarations that the same lines complete alike. -/
structure Alike (d d' : Draft) : Prop where
  kind : d'.kind = d.kind
  room : d'.room = d.room
  unclosed : d.isClosed = false
  unclosed' : d'.isClosed = false
  source : d.kind = .reexporting → d'.text.includes "from".toList = d.text.includes "from".toList
  literals : ∀ rest, literals (d'.text ++ '\n' :: rest) = literals (d.text ++ '\n' :: rest)

theorem Alike.refl (h : d.isClosed = false) : d.Alike d where
  kind := rfl
  room := rfl
  unclosed := h
  unclosed' := h
  source := fun _ => rfl
  literals := fun _ => rfl

theorem includes_extend (d : Draft) (line : Text) : (d.extend line).text.includes "from".toList =
    (d.text.includes "from".toList || line.includes "from".toList) :=
  Text.includes_append_cons (by decide) d.text line

theorem Alike.specifier?_extend (h : d.Alike d') (line : Text) :
    (d'.extend line).specifier? isLocal = (d.extend line).specifier? isLocal := by
  have hliterals : Import.literals (d'.extend line).text = Import.literals (d.extend line).text :=
    h.literals line
  have hkind : (d'.extend line).kind = (d.extend line).kind := h.kind
  unfold Draft.specifier?
  rw [hliterals, hkind]
  by_cases hreexport : (d.extend line).kind = .reexporting
  · rw [includes_extend, includes_extend, h.source hreexport]
  · simp [hreexport]

theorem Alike.extend (h : d.Alike d') (hline : line.any closes = false)
    (hline' : line'.any closes = false)
    (hsource : d.kind = .reexporting → line'.includes "from".toList = line.includes "from".toList)
    (hliterals : ∀ rest, Import.literals (d.text ++ '\n' :: (line' ++ '\n' :: rest)) =
      Import.literals (d.text ++ '\n' :: (line ++ '\n' :: rest))) :
    (d.extend line).Alike (d'.extend line') where
  kind := h.kind
  room := congrArg (· - 1) h.room
  unclosed := by rw [isClosed_extend, h.unclosed, hline]; rfl
  unclosed' := by rw [isClosed_extend, h.unclosed', hline']; rfl
  source := fun hkind => by rw [includes_extend, includes_extend, h.source hkind, hsource hkind]
  literals := fun rest => by
    simp only [Draft.extend, List.append_assoc, List.cons_append]
    rw [h.literals, hliterals]

theorem Within.extend (h : d.Within reexports open?) (hline : IsClause line) :
    (d.extend line).Within reexports open? where
  template := fun hmem => by
    rcases List.mem_append.1 hmem with hmem | hmem
    · exact h.template hmem
    · rcases List.mem_cons.1 hmem with heq | hmem
      · exact absurd heq (by decide)
      · exact absurd (hline _ hmem).2 (by decide)
  kind := h.kind

theorem within_of_isClause {kind : Kind} (hkind : kind = .reexporting → open?.isSome ∧ reexports)
    (hline : IsClause line) (room : Nat) : Draft.Within reexports open? ⟨kind, line, room⟩ where
  template := fun hmem => absurd (hline _ hmem).2 (by decide)
  kind := hkind

/-- An import takes a line with a comment as it takes the line. -/
theorem Alike.extend_commented (h : d.Alike d') (hwithin : d.Within reexports open?)
    (hcomment : Commented reexports open? line line') (hline : IsClause line)
    (hbreak : '\n' ∉ line') :
    (d.extend line).Alike (d'.extend line') := by
  cases hcomment with
  | same => exact h.extend hline.any_closes hline.any_closes (fun _ => rfl) fun _ => rfl
  | @comment comment hunclosed htemplate hsource _ =>
    have hcloses : (commented line comment).any closes = false :=
      (any_closes_commented hunclosed).trans hline.any_closes
    refine h.extend hline.any_closes hcloses (fun hkind => ?_) (fun rest => ?_)
    · exact includes_commented (hsource (hwithin.kind hkind).1 (hwithin.kind hkind).2)
    · refine literals_commented (isClosed_eq_false_iff.1 h.unclosed) hline hbreak
        (fun hmem hquote => ?_) rest
      -- a template of the declaration was opened before the import
      obtain ⟨e, he, hopen⟩ := hwithin.template hquote
      exact htemplate e he hmem hopen

/-- A declaration starts on a line with a comment as it starts on the line. -/
theorem alike_of_commented {kind : Kind} (hkind : kind = .reexporting → open?.isSome ∧ reexports)
    (hcomment : Commented reexports open? line line') (hline : IsClause line)
    (hbreak : '\n' ∉ line') (room : Nat) : Draft.Alike ⟨kind, line, room⟩ ⟨kind, line', room⟩ := by
  cases hcomment with
  | same => exact .refl hline.any_closes
  | @comment comment hunclosed _ hsource _ =>
    exact
      { kind := rfl
        room := rfl
        unclosed := hline.any_closes
        unclosed' := (any_closes_commented hunclosed).trans hline.any_closes
        source :=
          fun hreexport => includes_commented (hsource (hkind hreexport).1 (hkind hreexport).2)
        literals := fun rest => by
          rw [literals_append_commented hline hbreak,
            literals_append_line fun c hc => (hline c hc).2] }

end Draft

/-! ## Two scans side by side -/

/-- The open declarations of two scans: none, or two that stand alike. -/
inductive AlikeOpen : Option Draft → Option Draft → Prop
  | closed : AlikeOpen none none
  | opened {d d' : Draft} (alike : d.Alike d') : AlikeOpen (some d) (some d')

/-- What a line does in two scans leaves them alike, and they find the same. -/
structure Agree (isLocal : Text → Bool) (r r' : List Draft × Option Draft) : Prop where
  alike : AlikeOpen r.2 r'.2
  specifiers : r'.1.filterMap (Draft.specifier? isLocal) = r.1.filterMap (Draft.specifier? isLocal)

theorem Draft.Alike.settle {d d' : Draft} (h : d.Alike d') : Agree isLocal d.settle d'.settle := by
  by_cases hroom : d.room = 0
  · have hsettle {e : Draft} (he : e.room = 0) : e.settle = ([e], none) :=
      if_pos (isComplete_iff.2 (.inr he))
    rw [hsettle hroom, hsettle (h.room.trans hroom)]
    refine ⟨.closed, ?_⟩
    simp [specifier?_of_not_isClosed h.unclosed, specifier?_of_not_isClosed h.unclosed']
  · have hroom' : d'.room ≠ 0 := fun heq => hroom (h.room.symm.trans heq)
    rw [settle_of_not_isClosed h.unclosed (Nat.pos_of_ne_zero hroom),
      settle_of_not_isClosed h.unclosed' (Nat.pos_of_ne_zero hroom')]
    exact ⟨.opened h, rfl⟩

variable {now now' open? : Option Draft} {lines lines' : List Text}

theorem within_step (hwithin : ∀ d ∈ now, d.Within reexports open?)
    (hnow : now = none → open?.isSome) (hline : IsClause line) :
    ∀ d ∈ (step reexports now line).2, d.Within reexports open? := by
  intro d hd
  obtain ⟨-, ⟨e, he, rfl⟩ | ⟨hnone, hstart⟩⟩ := step_open_cases hd
  · exact (hwithin e he).extend hline
  · obtain ⟨kind, hkind, rfl⟩ := Option.map_eq_some_iff.1 hstart
    refine Draft.within_of_isClause (fun heq => ?_) hline maxContinuation
    exact ⟨hnow hnone, reexports_of_ofLine? (heq ▸ hkind)⟩

/-- Whether no line of an import is read on its own: a declaration was open before the import, or
the one that is open has room for the lines. -/
def HasRoom (open? now : Option Draft) (lines : List Text) : Prop :=
  open?.isSome ∨ lines = [] ∨ ∃ d, now = some d ∧ lines.length ≤ d.room

theorem HasRoom.step (h : HasRoom open? now (line :: lines))
    (hunclosed : ∀ d ∈ now, d.isClosed = false) (hline : IsClause line) :
    HasRoom open? (Import.step reexports now line).2 lines := by
  rcases h with hopen | hnil | ⟨d, rfl, hroom⟩
  · exact .inl hopen
  · cases hnil
  · by_cases hlines : lines = []
    · exact .inr (.inl hlines)
    · have hpos : 0 < lines.length := List.length_pos_iff.2 hlines
      have hroom' : lines.length ≤ (d.extend line).room := Nat.le_sub_of_add_le hroom
      have hclosed : (d.extend line).isClosed = false := by
        rw [d.isClosed_extend, hunclosed d rfl, hline.any_closes]; rfl
      refine .inr (.inr ⟨d.extend line, ?_, hroom'⟩)
      rw [Import.step, Draft.settle_of_not_isClosed hclosed (by omega)]

namespace AlikeOpen

/-- **A line keeps two scans alike.** -/
theorem step (h : AlikeOpen now now') (line : Text) :
    Agree isLocal (Import.step reexports now line) (Import.step reexports now' line) := by
  cases h with
  | closed =>
    refine ⟨?_, rfl⟩
    cases hopen : (Import.step reexports none line).2 with
    | none => exact .closed
    | some d => exact .opened (.refl (step_open_cases hopen).1)
  | @opened d d' halike =>
    by_cases hline : line.any closes
    · have hsettle (e : Draft) : (e.extend line).settle = ([e.extend line], none) :=
        Draft.settle_of_isClosed (by rw [Draft.isClosed_extend, hline, Bool.or_true])
      rw [Import.step, Import.step, hsettle d, hsettle d']
      exact ⟨.closed, by simp [List.filterMap_cons, halike.specifier?_extend line]⟩
    · have hopen : line.any closes = false := Bool.eq_false_iff.2 hline
      exact (halike.extend hopen hopen (fun _ => rfl) fun _ => rfl).settle

theorem specifiers (h : AlikeOpen now now') (lines : List Text) :
    (declarationsFrom reexports now' lines).filterMap (Draft.specifier? isLocal) =
      (declarationsFrom reexports now lines).filterMap (Draft.specifier? isLocal) := by
  induction lines generalizing now now' with
  | nil =>
    cases h with
    | closed => rfl
    | opened halike =>
      simp [declarationsFrom, Draft.specifier?_of_not_isClosed halike.unclosed,
        Draft.specifier?_of_not_isClosed halike.unclosed']
  | cons line lines ih =>
    obtain ⟨halike, hspecifiers⟩ : Agree isLocal _ _ := h.step line
    rw [declarationsFrom, declarationsFrom, List.filterMap_append, List.filterMap_append,
      hspecifiers, ih halike]

/-- **A comment after a line keeps two scans alike.** -/
theorem step_commented (h : AlikeOpen now now') (hwithin : ∀ d ∈ now, d.Within reexports open?)
    (hnow : now = none → open?.isSome) (hcomment : Commented reexports open? line line')
    (hline : IsClause line) (hbreak : '\n' ∉ line') :
    Agree isLocal (Import.step reexports now line) (Import.step reexports now' line') := by
  cases h with
  | opened halike => exact (halike.extend_commented (hwithin _ rfl) hcomment hline hbreak).settle
  | closed =>
    have hkind : Kind.ofLine? reexports line' = Kind.ofLine? reexports line := by
      cases hcomment with
      | same => rfl
      | comment _ _ _ hstart => exact hstart (hnow rfl)
    cases hstart : Kind.ofLine? reexports line with
    | none =>
      simp only [Import.step, Draft.ofLine?, hkind, hstart]
      exact ⟨.closed, rfl⟩
    | some kind =>
      simp only [Import.step, Draft.ofLine?, hkind, hstart]
      have hcounts (heq : kind = .reexporting) : open?.isSome ∧ reexports :=
        ⟨hnow rfl, reexports_of_ofLine? (heq ▸ hstart)⟩
      exact (Draft.alike_of_commented hcounts hcomment hline hbreak maxContinuation).settle

/-- **Lines with comments leave what is found as it is.** -/
theorem specifiers_commented (hlines : List.Forall₂ (Commented reexports open?) lines lines')
    (h : AlikeOpen now now') (hwithin : ∀ d ∈ now, d.Within reexports open?)
    (hroom : HasRoom open? now lines) (hclause : ∀ line ∈ lines, IsClause line)
    (hbreak : ∀ line ∈ lines', '\n' ∉ line) (after : List Text) :
    (declarationsFrom reexports now' (lines' ++ after)).filterMap (Draft.specifier? isLocal) =
      (declarationsFrom reexports now (lines ++ after)).filterMap (Draft.specifier? isLocal) := by
  induction hlines generalizing now now' with
  | nil => exact h.specifiers after
  | @cons line line' lines lines' hcomment _ ih =>
    obtain ⟨hline, hclause⟩ := List.forall_mem_cons.1 hclause
    obtain ⟨hbreak', hbreak⟩ := List.forall_mem_cons.1 hbreak
    -- a line is read on its own only if an earlier declaration ended within the import
    have hnow (hnone : now = none) : open?.isSome := by
      rcases hroom with hopen | hnil | ⟨d, hd, -⟩
      · exact hopen
      · cases hnil
      · cases hnone.symm.trans hd
    have hunclosed : ∀ d ∈ now, d.isClosed = false := by
      rintro d rfl
      cases h with
      | opened halike => exact halike.unclosed
    obtain ⟨halike, hspecifiers⟩ : Agree isLocal _ _ :=
      h.step_commented hwithin hnow hcomment hline hbreak'
    simp only [List.cons_append, declarationsFrom, List.filterMap_append]
    rw [hspecifiers, ih halike (within_step hwithin hnow hline) (hroom.step hunclosed hline)
      hclause hbreak]

end AlikeOpen

/-! ## Imports with comments -/

theorem ofLine?_commented {open? : Option Draft} (h : Kind.ofLine? reexports line = some .importing)
    (hcomment : Commented reexports open? line line') :
    Kind.ofLine? reexports line' = some .importing := by
  cases hcomment with
  | same => exact h
  | @comment comment =>
    rw [commented, List.append_assoc]
    exact (opens_of_ofLine? h).ofLine?_eq _

/-- **Comments within an import are kept apart from it**, if they have no quote and no semicolon: at
every place of every text, the same is found with the comments and without them. -/
theorem comments_kept_apart (reexports : Bool) (isLocal : Text → Bool)
    {source source' first first' : Text} {before more more' after : List Text}
    (hsource : source.lines = before ++ (first :: more) ++ after)
    (hsource' : source'.lines = before ++ (first' :: more') ++ after)
    (hfirst : Kind.ofLine? reexports first = some .importing)
    (hclause : ∀ line ∈ first :: more, IsClause line) (hshort : more.length ≤ 64)
    (hcomments : List.Forall₂ (Commented reexports (openAfter reexports none before))
      (first :: more) (first' :: more')) :
    scan reexports isLocal source' = scan reexports isLocal source := by
  have hbreak : ∀ line ∈ first' :: more', '\n' ∉ line := by
    intro line hline
    have hmem : line ∈ source'.lines :=
      hsource' ▸ List.mem_append_left _ (List.mem_append_right _ hline)
    exact Text.not_mem_of_mem_lines hmem
  obtain ⟨complete, hcomplete⟩ := declarationsFrom_append reexports none before
  rw [scan_eq, scan_eq, declarations, declarations, hsource, hsource', List.append_assoc,
    List.append_assoc, hcomplete, hcomplete, List.filterMap_append, List.filterMap_append]
  congr 1
  -- an earlier declaration takes the import in, or the import is read from its first line on
  cases hopen : openAfter reexports none before with
  | some d =>
    have hd : d.IsOpen reexports := isOpen_of_openAfter (by simp) before d hopen
    have hwithin : d.Within reexports (some d) :=
      ⟨fun hmem => ⟨d, rfl, hmem⟩, fun heq => ⟨rfl, hd.counts heq⟩⟩
    rw [hopen] at hcomments
    exact AlikeOpen.specifiers_commented hcomments (.opened (.refl hd.unclosed))
      (by simpa using hwithin) (.inl rfl) hclause hbreak after
  | none =>
    rw [hopen] at hcomments
    obtain ⟨hcomment, hcomments⟩ := List.forall₂_cons.1 hcomments
    obtain ⟨hline, hclause⟩ := List.forall_mem_cons.1 hclause
    obtain ⟨hbreak', hbreak⟩ := List.forall_mem_cons.1 hbreak
    have halike : Draft.Alike ⟨.importing, first, maxContinuation⟩
        ⟨.importing, first', maxContinuation⟩ :=
      Draft.alike_of_commented (by simp) hcomment hline hbreak' maxContinuation
    have hwithin : Draft.Within reexports none ⟨.importing, first, maxContinuation⟩ :=
      Draft.within_of_isClause (by simp) hline maxContinuation
    simp only [List.cons_append, declarationsFrom, step_start hfirst halike.unclosed,
      step_start (ofLine?_commented hfirst hcomment) halike.unclosed', List.nil_append]
    exact AlikeOpen.specifiers_commented hcomments (.opened halike) (by simpa using hwithin)
      (.inr (.inr ⟨_, rfl, hshort⟩)) hclause hbreak after

/-! ### An import after an export without a semicolon -/

/-- The export takes in the import after it. -/
def plainSource : Text :=
  "export \x7b z \x7d\nimport \x7b\n  a,\n  b,\n\x7d from './letters'\n".toList

def commentedSource : Text :=
  "export \x7b z \x7d\nimport \x7b // both\n  a, // `a`\n  b,\n\x7d from './letters'\n".toList

theorem comments_kept_apart_plainSource :
    openAfter true none ["export \x7b z \x7d".toList] =
      some ⟨.reexporting, "export \x7b z \x7d".toList, 64⟩ ∧
      scan true (fun _ => true) plainSource = ["./letters".toList] ∧
      scan true (fun _ => true) commentedSource = ["./letters".toList] := by
  have hopen : openAfter true none ["export \x7b z \x7d".toList] =
      some ⟨.reexporting, "export \x7b z \x7d".toList, 64⟩ := by decide +kernel
  have hsource : plainSource.lines = ["export \x7b z \x7d".toList] ++
      ["import \x7b".toList, "  a,".toList, "  b,".toList] ++ ["\x7d from './letters'".toList] := by
    decide +kernel
  have hsource' : commentedSource.lines = ["export \x7b z \x7d".toList] ++
      ["import \x7b // both".toList, "  a, // `a`".toList, "  b,".toList] ++
      ["\x7d from './letters'".toList] := by
    decide +kernel
  have hcomments : List.Forall₂ (Commented true (openAfter true none ["export \x7b z \x7d".toList]))
      ["import \x7b".toList, "  a,".toList, "  b,".toList]
      ["import \x7b // both".toList, "  a, // `a`".toList, "  b,".toList] := by
    rw [hopen]
    refine .cons (@Commented.comment _ _ "import \x7b".toList " both".toList ?_ ?_ ?_ ?_)
      (.cons (@Commented.comment _ _ "  a,".toList " `a`".toList ?_ ?_ ?_ ?_)
        (.cons (.same _) .nil)) <;> decide +kernel
  have hscan : scan true (fun _ => true) plainSource = ["./letters".toList] := by decide +kernel
  refine ⟨hopen, hscan, Eq.trans ?_ hscan⟩
  exact comments_kept_apart true (fun _ => true) hsource hsource' (by decide +kernel)
    (by decide +kernel) (by decide) hcomments

/-! ### A comment with an apostrophe -/

def lettersSource : Text := "import \x7b\n  a,\n  b,\n\x7d from './letters'\n".toList

def apostropheSource : Text := "import \x7b\n  a, // don't\n  b,\n\x7d from './letters'\n".toList

/-- A quote in a comment ends the import before its module is named. -/
theorem comments_hide_import :
    ¬∀ (reexports : Bool) (isLocal : Text → Bool) (source source' first first' last : Text)
      (before more more' after : List Text),
      source.lines = before ++ (first :: more) ++ last :: after →
      source'.lines = before ++ (first' :: more') ++ last :: after →
      Kind.ofLine? reexports first = some .importing → (∀ line ∈ first :: more, IsClause line) →
      more.length ≤ 64 → literals last ≠ [] →
      List.Forall₂ (fun line line' => line' = line ∨ ∃ comment, line' = commented line comment)
        (first :: more) (first' :: more') →
      scan reexports isLocal source' = scan reexports isLocal source := by
  intro h
  have hcomments : List.Forall₂
      (fun line line' => line' = line ∨ ∃ comment, line' = commented line comment)
      ["import \x7b".toList, "  a,".toList, "  b,".toList]
      ["import \x7b".toList, "  a, // don't".toList, "  b,".toList] :=
    .cons (.inl rfl) (.cons (.inr ⟨" don't".toList, rfl⟩) (.cons (.inl rfl) .nil))
  have heq :=
    h false (fun _ => true) lettersSource apostropheSource _ _ "\x7d from './letters'".toList [] _ _
      [] (by decide +kernel) (by decide +kernel) (by decide +kernel) (by decide +kernel) (by decide)
      (by decide +kernel) hcomments
  exact absurd heq (by decide +kernel)

end Import

end Unreached

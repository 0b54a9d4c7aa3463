import Unreached.Proofs.Declarations

/-!
# Quoted strings and comments

* `literalsFrom_code`, `literalsFrom_literal` : what one character does outside and inside of a
  literal;
* `escape`, `literals_delimited` : what is escaped between two quotes is read as one literal, and
  given back (`literals_quoted`) unless it is a template;
* `literals_append`, `literals_append_comment` : text without quotes hides no literal after it,
  unless it starts a comment, and a comment holds none;
* `Token`, `literals_tokens` : the quoted strings of a text that is put together from strings,
  templates, comments and text between them.
-/

namespace Unreached.Import

set_option autoImplicit false

variable {text rest comment content : Text} {c quote : Char}

/-! ## One character -/

theorem literalsFrom_code (h : ¬(c = '/' ∧ text.head? = some '/')) :
    literalsFrom .code (c :: text) =
      literalsFrom (if opensLiteral c then .literal c [] else .code) text := by
  rw [literalsFrom]
  rintro text' rfl rfl
  exact h ⟨rfl, rfl⟩

theorem literalsFrom_literal (h : c ≠ '\\') :
    literalsFrom (.literal quote content) (c :: text) =
      if c = quote then
        if quote = backQuote then literals text else content.reverse :: literals text
      else literalsFrom (.literal quote (c :: content)) text := by
  rw [literalsFrom]
  · rfl
  · rintro c' text' rfl
    exact absurd rfl h

theorem literalsFrom_comment (h : '\n' ∉ text) : literalsFrom .comment text = [] := by
  induction text with
  | nil => rfl
  | cons c text ih =>
    obtain ⟨hc, htext⟩ := not_or.1 (mt List.mem_cons.2 h)
    rw [literalsFrom, if_neg (Ne.symm hc), ih htext]

theorem literalsFrom_comment_line (h : '\n' ∉ text) (rest : Text) :
    literalsFrom .comment (text ++ '\n' :: rest) = literals rest := by
  induction text with
  | nil => rfl
  | cons c text ih =>
    obtain ⟨hc, htext⟩ := not_or.1 (mt List.mem_cons.2 h)
    rw [List.cons_append, literalsFrom, if_neg (Ne.symm hc), ih htext]

/-! ## Strings between quotes -/

/-- A string as it stands between quotes. -/
def escape (quote : Char) (s : Text) : Text :=
  s.flatMap fun c => if c = quote ∨ c = '\\' then ['\\', c] else [c]

theorem mem_escape {s : Text} (h : c ∈ escape quote s) : c = '\\' ∨ c ∈ s := by
  obtain ⟨d, hd, hc⟩ := List.mem_flatMap.1 h
  split at hc
  · rcases List.mem_cons.1 hc with hc | hc
    · exact .inl hc
    · exact .inr (List.mem_singleton.1 hc ▸ hd)
  · exact .inr (List.mem_singleton.1 hc ▸ hd)

theorem literalsFrom_escape (s content rest : Text) :
    literalsFrom (.literal quote content) (escape quote s ++ rest) =
      literalsFrom (.literal quote (s.reverse ++ content)) rest := by
  induction s generalizing content with
  | nil => rfl
  | cons c s ih =>
    rw [escape, List.flatMap_cons, List.append_assoc, ← escape, List.reverse_cons,
      List.append_assoc, List.singleton_append, ← ih]
    split
    · rfl
    · next hplain =>
      obtain ⟨hquote, hbackslash⟩ := not_or.1 hplain
      rw [List.singleton_append, literalsFrom_literal hbackslash, if_neg hquote]

/-- What is escaped between two quotes is one literal. -/
theorem literals_delimited (hquote : opensLiteral quote) (s rest : Text) :
    literals (quote :: escape quote s ++ quote :: rest) =
      if quote = backQuote then literals rest else s :: literals rest := by
  have hplain : quote ≠ '/' ∧ quote ≠ '\\' := by
    constructor <;> rintro rfl <;> simp [opensLiteral, backQuote] at hquote
  obtain ⟨hslash, hbackslash⟩ := hplain
  rw [List.cons_append, literals, literalsFrom_code fun h => hslash h.1, if_pos hquote,
    literalsFrom_escape, literalsFrom_literal hbackslash, if_pos rfl, List.append_nil,
    List.reverse_reverse]

/-- **A string between quotes is read back.** -/
theorem literals_quoted (hquote : quote = '"' ∨ quote = '\'') (s rest : Text) :
    literals (quote :: escape quote s ++ quote :: rest) = s :: literals rest := by
  have hopens : opensLiteral quote ∧ quote ≠ backQuote := by
    rcases hquote with rfl | rfl <;> decide
  rw [literals_delimited hopens.1, if_neg hopens.2]

/-! ## Text around them -/

theorem literals_append (htext : ∀ c ∈ text, opensLiteral c = false)
    (hcomment : text.includes "//".toList = false) (hrest : rest.head? ≠ some '/') :
    literals (text ++ rest) = literals rest := by
  induction text with
  | nil => rfl
  | cons c text ih =>
    obtain ⟨hc, htext⟩ := List.forall_mem_cons.1 htext
    rw [Text.includes, Bool.or_eq_false_iff] at hcomment
    have hslash : ¬(c = '/' ∧ (text ++ rest).head? = some '/') := by
      rintro ⟨rfl, hhead⟩
      cases text with
      | nil => exact hrest hhead
      | cons d text =>
        obtain rfl : d = '/' := Option.some.inj hhead
        exact absurd hcomment.1 (by simp)
    rw [List.cons_append, literals, literalsFrom_code hslash, hc]
    exact ih htext hcomment.2

/-- After text without quotes two slashes start a comment, unless one is open. -/
theorem literals_append_slashes {found : List Text} (htext : ∀ c ∈ text, opensLiteral c = false)
    (hline : '\n' ∉ text)
    (hrest : ∀ front, '\n' ∉ front → literalsFrom .comment (front ++ rest) = found) :
    literals (text ++ '/' :: '/' :: rest) = found := by
  induction text with
  | nil => exact hrest [] List.not_mem_nil
  | cons c text ih =>
    obtain ⟨hc, htext⟩ := List.forall_mem_cons.1 htext
    have hline : '\n' ∉ text := fun h => hline (List.mem_cons_of_mem _ h)
    by_cases hslash : c = '/' ∧ (text ++ '/' :: '/' :: rest).head? = some '/'
    · obtain ⟨rfl, hhead⟩ := hslash
      cases text with
      | nil => exact hrest ['/'] (by decide)
      | cons d text =>
        obtain rfl : d = '/' := Option.some.inj hhead
        have hfront : '\n' ∉ text ++ ['/', '/'] := by
          simpa using fun h => hline (List.mem_cons_of_mem _ h)
        have hcomment := hrest _ hfront
        rw [List.append_assoc] at hcomment
        exact hcomment
    · rw [List.cons_append, literals, literalsFrom_code hslash, hc]
      exact ih htext hline

/-- What follows a literal on its line holds no other, if it has no quote before a comment. -/
theorem literals_append_comment (htext : ∀ c ∈ text, opensLiteral c = false) (hline : '\n' ∉ text)
    (hcomment : '\n' ∉ comment) : literals (text ++ '/' :: '/' :: comment) = [] :=
  literals_append_slashes htext hline fun _ hfront =>
    literalsFrom_comment fun h => (List.mem_append.1 h).elim hfront hcomment

/-- A comment hides no literal of the lines after it. -/
theorem literals_comment_line (htext : ∀ c ∈ text, opensLiteral c = false) (hline : '\n' ∉ text)
    (hcomment : '\n' ∉ comment) (rest : Text) :
    literals (text ++ '/' :: '/' :: (comment ++ '\n' :: rest)) = literals rest := by
  refine literals_append_slashes htext hline fun front hfront => ?_
  rw [← List.append_assoc]
  exact literalsFrom_comment_line (fun h => (List.mem_append.1 h).elim hfront hcomment) rest

/-! ## Texts of tokens -/

/-- A part of a text that is read as a whole. -/
inductive Token where
  /-- Text without quotes and slashes. -/
  | filler (text : Text) (plain : ∀ c ∈ text, c ∉ ['"', '\'', backQuote, '/'])
  /-- A string between single or double quotes. -/
  | quoted (quote : Char) (isQuote : quote = '"' ∨ quote = '\'') (content : Text)
  /-- A template between back quotes. -/
  | template (content : Text)
  /-- A comment up to the end of its line. -/
  | comment (text : Text) (unbroken : '\n' ∉ text)

/-- A token as it is written. -/
def Token.spelling : Token → Text
  | .filler text _ => text
  | .quoted quote _ content => quote :: escape quote content ++ [quote]
  | .template content => backQuote :: escape backQuote content ++ [backQuote]
  | .comment text _ => '/' :: '/' :: text ++ ['\n']

/-- What stands between the quotes of a quoted string. -/
def Token.content? : Token → Option Text
  | .quoted _ _ content => some content
  | .filler .. | .template .. | .comment .. => none

theorem literals_filler (h : ∀ c ∈ text, c ∉ ['"', '\'', backQuote, '/']) (rest : Text) :
    literals (text ++ rest) = literals rest := by
  induction text with
  | nil => rfl
  | cons c text ih =>
    obtain ⟨hc, htext⟩ := List.forall_mem_cons.1 h
    simp only [List.mem_cons, List.not_mem_nil, or_false, not_or] at hc
    obtain ⟨hdouble, hsingle, hback, hslash⟩ := hc
    have hopens : opensLiteral c = false := by simp [opensLiteral, hdouble, hsingle, hback]
    rw [List.cons_append, literals, literalsFrom_code fun h => hslash h.1, hopens]
    exact ih htext

/-- One token leaves the scan where it was, outside of literals and comments. -/
theorem literals_token (token : Token) (rest : Text) :
    literals (token.spelling ++ rest) = token.content?.toList ++ literals rest := by
  cases token with
  | filler text plain => exact literals_filler plain rest
  | quoted quote isQuote content =>
    rw [Token.spelling, List.append_assoc, List.singleton_append]
    exact literals_quoted isQuote content rest
  | template content =>
    rw [Token.spelling, List.append_assoc, List.singleton_append, literals_delimited (by decide),
      if_pos rfl]
    rfl
  | comment text unbroken =>
    rw [Token.spelling, List.append_assoc, List.singleton_append]
    exact literalsFrom_comment_line unbroken rest

/-- **The quoted strings of a text of tokens are the strings that were quoted, in order.** -/
theorem literals_tokens (tokens : List Token) :
    literals (tokens.flatMap Token.spelling) = tokens.filterMap Token.content? := by
  induction tokens with
  | nil => rfl
  | cons token tokens ih =>
    rw [List.flatMap_cons, literals_token, ih]
    cases hcontent : token.content? with
    | none => rw [List.filterMap_cons_none hcontent]; rfl
    | some content => rw [List.filterMap_cons_some hcontent]; rfl

end Unreached.Import

import Unreached.Confirm
import Unreached.Proofs.Bytes

/-!
# How the question is settled

* `Decisive`, `LeavesOpen` : the texts that settle the question, and the lines after which it is
  asked again;
* `Dialogue.Follows` : what is written, answered and left unread, by the first line that does not
  leave the question open;
* `ask_append` : a line that leaves the question open costs one question and one reminder;
* `confirm_eq_iff` : the dialogue on an input is the one that follows from the lines that the input
  is cut into.
-/

namespace Unreached

set_option autoImplicit false

variable {t : Text} {line : Bytes} {lines before : List Bytes} {d : Dialogue}

/-- Whether a line settles the question. -/
def Decisive (line : Text) : Prop :=
  line.trim = [] ∨ line.trim ∈ acceptingAnswers ∨ line.trim ∈ refusingAnswers

/-- Whether a line is in UTF-8 and does not settle the question. -/
def LeavesOpen (line : Bytes) : Prop := ∃ t : Text, line = t.bytes ∧ ¬Decisive t

instance : DecidablePred Decisive := fun line =>
  inferInstanceAs
    (Decidable (line.trim = [] ∨ line.trim ∈ acceptingAnswers ∨ line.trim ∈ refusingAnswers))

/-- What is written while lines leave the question open. -/
def retries (before : List Bytes) : Text := Text.times before.length (question ++ askAgain)

/-- Whether a dialogue is what lines of answers lead to. -/
inductive Dialogue.Follows (lines : List Bytes) : Dialogue → Prop where
  /-- A line settles the question, and only what accepts gives consent. -/
  | settled {before after : List Bytes} {t : Text} (hlines : lines = before ++ t.bytes :: after)
      (hbefore : ∀ line ∈ before, LeavesOpen line) (ht : Decisive t) :
      Follows lines
        { output := retries before ++ question,
          accepted? := some (decide (t.trim ∈ acceptingAnswers)), unread := after, ended := false }
  /-- A line is not in UTF-8. -/
  | garbled {before after : List Bytes} {line : Bytes} (hlines : lines = before ++ line :: after)
      (hbefore : ∀ line ∈ before, LeavesOpen line) (hline : ∀ t : Text, line ≠ t.bytes) :
      Follows lines
        { output := retries before ++ question, accepted? := none, unread := after, ended := false }
  /-- All lines leave the question open. -/
  | ended (hlines : ∀ line ∈ lines, LeavesOpen line) :
      Follows lines
        { output := retries lines ++ question, accepted? := some false, unread := [],
          ended := true }

/-! ## One line -/

theorem not_refused_of_accepted {answer : Text} (h : answer ∈ acceptingAnswers) :
    answer ≠ [] ∧ answer ∉ refusingAnswers := by
  have hall : ∀ answer ∈ acceptingAnswers, answer ≠ [] ∧ answer ∉ refusingAnswers := by decide
  exact hall answer h

/-- What a line says may be tested for consent first, since no answer both accepts and refuses. -/
theorem ofLine_eq (line : Text) :
    Answer.ofLine line =
      if line.trim ∈ acceptingAnswers then .accept else if Decisive line then .refuse
      else .unclear := by
  have hrefuse : (line.trim.isEmpty || refusingAnswers.contains line.trim) = true ↔
      line.trim = [] ∨ line.trim ∈ refusingAnswers := by simp
  unfold Answer.ofLine
  dsimp only
  simp only [hrefuse, List.contains_iff_mem]
  by_cases haccept : line.trim ∈ acceptingAnswers
  · have hnot := not_refused_of_accepted haccept
    rw [if_neg (not_or.2 hnot), if_pos haccept, if_pos haccept]
  · have hdecisive : Decisive line ↔ line.trim = [] ∨ line.trim ∈ refusingAnswers := by
      simp [Decisive, haccept]
    simp only [hdecisive, if_neg haccept]

theorem ask_settled (ht : Decisive t) (lines : List Bytes) :
    ask (t.bytes :: lines) =
      { output := question, accepted? := some (decide (t.trim ∈ acceptingAnswers)),
        unread := lines } := by
  rw [ask, Bytes.text?_eq_some_iff.2 rfl]
  dsimp only
  rw [ofLine_eq]
  by_cases haccept : t.trim ∈ acceptingAnswers
  · simp [haccept]
  · simp [haccept, ht]

theorem ask_garbled (hline : ∀ t : Text, line ≠ t.bytes) (lines : List Bytes) :
    ask (line :: lines) = { output := question, accepted? := none, unread := lines } := by
  rw [ask, Bytes.text?_eq_none_iff.2 hline]

theorem ask_leavesOpen (hline : LeavesOpen line) (lines : List Bytes) :
    ask (line :: lines) =
      { ask lines with output := question ++ askAgain ++ (ask lines).output } := by
  obtain ⟨t, rfl, ht⟩ := hline
  have haccept : t.trim ∉ acceptingAnswers := fun h => ht (.inr (.inl h))
  rw [ask, Bytes.text?_eq_some_iff.2 rfl]
  dsimp only
  rw [ofLine_eq, if_neg haccept, if_neg ht]

/-! ## All lines -/

/-- Lines that leave the question open only add to what is written. -/
theorem ask_append (h : ∀ line ∈ before, LeavesOpen line) (rest : List Bytes) :
    ask (before ++ rest) = { ask rest with output := retries before ++ (ask rest).output } := by
  induction before with
  | nil => rfl
  | cons line before ih =>
    obtain ⟨hline, hbefore⟩ := List.forall_mem_cons.1 h
    have hretries : retries (line :: before) = question ++ askAgain ++ retries before := rfl
    rw [List.cons_append, ask_leavesOpen hline, ih hbefore, hretries,
      List.append_assoc (question ++ askAgain)]

theorem Dialogue.Follows.ask_eq (h : Dialogue.Follows lines d) : ask lines = d := by
  cases h with
  | settled hlines hbefore ht => rw [hlines, ask_append hbefore, ask_settled ht]
  | garbled hlines hbefore hline => rw [hlines, ask_append hbefore, ask_garbled hline]
  | ended hlines =>
    rw [← List.append_nil lines, ask_append hlines, List.append_nil]
    rfl

/-- Lines leave the question open up to one that does not, if there is one. -/
theorem exists_first (lines : List Bytes) :
    (∀ line ∈ lines, LeavesOpen line) ∨
      ∃ before line after, lines = before ++ line :: after ∧ (∀ line ∈ before, LeavesOpen line) ∧
        ¬LeavesOpen line := by
  induction lines with
  | nil => exact .inl (List.forall_mem_nil _)
  | cons first lines ih =>
    by_cases hfirst : LeavesOpen first
    · rcases ih with hlines | ⟨before, line, after, rfl, hbefore, hline⟩
      · exact .inl (List.forall_mem_cons.2 ⟨hfirst, hlines⟩)
      · exact .inr ⟨first :: before, line, after, rfl, List.forall_mem_cons.2 ⟨hfirst, hbefore⟩,
          hline⟩
    · exact .inr ⟨[], first, lines, rfl, List.forall_mem_nil _, hfirst⟩

theorem exists_follows (lines : List Bytes) : ∃ d, Dialogue.Follows lines d := by
  rcases exists_first lines with hlines | ⟨before, line, after, hlines, hbefore, hline⟩
  · exact ⟨_, .ended hlines⟩
  by_cases hutf8 : ∃ t : Text, line = t.bytes
  · obtain ⟨t, rfl⟩ := hutf8
    have ht : Decisive t := by_contra fun hopen => hline ⟨t, rfl, hopen⟩
    exact ⟨_, .settled hlines hbefore ht⟩
  · exact ⟨_, .garbled hlines hbefore (not_exists.1 hutf8)⟩

theorem ask_eq_iff : ask lines = d ↔ Dialogue.Follows lines d := by
  constructor
  · rintro rfl
    obtain ⟨d, hd⟩ := exists_follows lines
    rwa [hd.ask_eq]
  · exact Dialogue.Follows.ask_eq

/-- **The question is put until a line settles it, a line cannot be read or the input ends, and no
line after that is read.** -/
theorem confirm_eq_iff (input : Bytes) (d : Dialogue) :
    confirm input = d ↔ ∃ lines, input.CutInto lines ∧ Dialogue.Follows lines d := by
  unfold confirm
  rw [ask_eq_iff]
  constructor
  · intro h
    exact ⟨input.lines, Bytes.lines_eq_iff.1 rfl, h⟩
  · rintro ⟨lines, hlines, h⟩
    rwa [Bytes.lines_eq_iff.2 hlines]

end Unreached

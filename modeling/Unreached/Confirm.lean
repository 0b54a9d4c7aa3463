import Unreached.Text.Blank
import Unreached.Text.Bytes

/-!
# Asking for consent

`confirm` asks until an answer is clear. An empty answer and the end of the input refuse.
-/

namespace Unreached

set_option autoImplicit false

/-- What an answer says. -/
inductive Answer where
  | accept
  | refuse
  | unclear
deriving DecidableEq, Repr

/-- The answers that accept. -/
def acceptingAnswers : List Text := ["y", "yes", "Y", "Yes", "o", "oui"].map String.toList

/-- The answers that refuse. -/
def refusingAnswers : List Text := ["n", "no", "N", "No", "non", "Non"].map String.toList

/-- What a line says. -/
def Answer.ofLine (line : Text) : Answer :=
  let answer := line.trim
  if answer.isEmpty || refusingAnswers.contains answer then .refuse
  else if acceptingAnswers.contains answer then .accept
  else .unclear

/-- The question. -/
def question : Text := "Do you want to continue(y/N) ".toList

/-- What follows an unclear answer. -/
def askAgain : Text := "Please answer y or n\n".toList

/-- A dialogue. -/
structure Dialogue where
  /-- What was written. -/
  output : Text
  /-- Whether consent was given. There is no result if a line was not UTF-8. -/
  accepted? : Option Bool
  /-- The lines that were not read. -/
  unread : List Bytes := []
  /-- Whether the input ended before an answer was clear. -/
  ended : Bool := false
deriving DecidableEq, Repr

/-- Asks with the given lines as answers. -/
def ask : List Bytes → Dialogue
  | [] => { output := question, accepted? := some false, ended := true }
  | line :: lines =>
    match line.text? with
    | none => { output := question, accepted? := none, unread := lines }
    | some t =>
      match Answer.ofLine t with
      | .accept => { output := question, accepted? := some true, unread := lines }
      | .refuse => { output := question, accepted? := some false, unread := lines }
      | .unclear =>
        let rest := ask lines
        { rest with output := question ++ askAgain ++ rest.output }

/-- Asks with the given input as answers. -/
def confirm (input : Bytes) : Dialogue := ask input.lines

end Unreached

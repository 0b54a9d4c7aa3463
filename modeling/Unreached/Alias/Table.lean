import Unreached.Text.Basic

/-!
# Path aliases

An alias rule replaces the start of a specifier by a location of the project. Of the rules that
match a specifier those with the longest start count.

* `Rule.covers`, `Rule.substitute` : whether a rule applies to a specifier, and the location it
  gives;
* `Table.candidates` : the rules that count for a specifier.
-/

namespace Unreached.Alias

set_option autoImplicit false

/-- An alias with one of its targets. -/
structure Rule where
  /-- The start of the specifiers that the rule replaces. -/
  lead : Text
  /-- The location, from the project root, that replaces it. -/
  target : Text
  /-- Whether specifiers may go on after the start. -/
  wildcard : Bool
deriving DecidableEq, Repr

namespace Rule

/-- Whether the rule applies to a specifier. -/
def covers (rule : Rule) (spec : Text) : Bool :=
  if rule.wildcard then spec.startsWith rule.lead else spec = rule.lead

/-- The location that the rule gives for a specifier: the target, then the rest of the specifier
after one slash. -/
def substitute (rule : Rule) (spec : Text) : Text :=
  let rest := (Text.after? rule.lead spec).getD spec
  let slash := if !rest.isEmpty && !rule.target.endsWith ['/'] then ['/'] else []
  rule.target ++ slash ++ rest.dropWhile (· = '/')

end Rule

/-- The aliases of a project, in order. -/
structure Table where
  rules : List Rule := []
deriving DecidableEq, Repr

namespace Table

/-- The rules that cover a specifier and whose start no other such rule exceeds in bytes, in the
order of the table. -/
def candidates (table : Table) (spec : Text) : List Rule :=
  let covering := table.rules.filter (·.covers spec)
  match (covering.map (·.lead.byteWidth)).max? with
  | none => []
  | some longest => covering.filter (·.lead.byteWidth = longest)

/-- The first of the rules that count for a specifier. -/
def find? (table : Table) (spec : Text) : Option Rule := (table.candidates spec).head?

/-- Whether some rule covers a specifier. -/
def isAlias (table : Table) (spec : Text) : Bool := table.rules.any (·.covers spec)

end Table

end Unreached.Alias

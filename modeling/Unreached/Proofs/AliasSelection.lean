import Mathlib.Data.List.Infix
import Mathlib.Data.List.TakeWhile
import Mathlib.Tactic.WLOG
import Unreached.Graph.Project

/-!
# The aliases that count for a specifier

* `Alias.Table.Counts` : the rules that cover a specifier and that no rule which covers it exceeds;
* `Alias.Table.candidates_eq` : these are the candidates, in the order of the table, and all have
  the same start (`Alias.Table.lead_eq_of_mem_candidates`);
* `Project.isLocal_of_resolve?` : a specifier that names a file is local, by its first character or
  by an alias;
* `longest_alias_counts` : all of this, and that the scan of imports passes over no string that
  names a file.
-/

namespace Unreached

set_option autoImplicit false

theorem Text.byteWidth_eq_zero {t : Text} (h : t.byteWidth = 0) : t = [] := by
  cases t with
  | nil => rfl
  | cons c t =>
    have hpos := c.utf8Size_pos
    rw [Text.byteWidth] at h
    omega

/-- Of two starts of a text one is the start of the other, so those of one width are equal. -/
theorem Text.eq_of_byteWidth_eq {s t u : Text} (hs : s <+: u) (ht : t <+: u)
    (h : s.byteWidth = t.byteWidth) : s = t := by
  wlog hst : s <+: t generalizing s t with hother
  · exact (hother ht hs h.symm ((List.prefix_or_prefix_of_prefix hs ht).resolve_left hst)).symm
  obtain ⟨rest, rfl⟩ := hst
  rw [Text.byteWidth_append] at h
  have hrest : rest = [] := Text.byteWidth_eq_zero (by omega)
  rw [hrest, List.append_nil]

namespace Alias

variable {rule other : Rule} {table : Table} {spec : Text}

theorem Rule.prefix_of_covers (h : rule.covers spec = true) : rule.lead <+: spec := by
  unfold Rule.covers at h
  split at h
  · exact List.isPrefixOf_iff_prefix.1 h
  · rw [of_decide_eq_true h]

namespace Table

/-- Whether a rule covers a specifier and no rule of the table that covers it has a longer start. -/
def Counts (table : Table) (spec : Text) (rule : Rule) : Prop :=
  rule.covers spec = true ∧
    ∀ other ∈ table.rules, other.covers spec = true → other.lead.byteWidth ≤ rule.lead.byteWidth

instance (table : Table) (spec : Text) : DecidablePred (table.Counts spec) := fun rule =>
  inferInstanceAs (Decidable (rule.covers spec = true ∧
    ∀ other ∈ table.rules, other.covers spec = true → other.lead.byteWidth ≤ rule.lead.byteWidth))

/-- What the candidates are: none if no rule covers the specifier, and otherwise the rules that
cover it with a start as long as that of some rule that counts. -/
theorem candidates_cases (table : Table) (spec : Text) :
    (table.candidates spec = [] ∧ ∀ rule ∈ table.rules, rule.covers spec = false) ∨
      ∃ longest ∈ table.rules, table.Counts spec longest ∧ table.candidates spec =
        (table.rules.filter (·.covers spec)).filter
          (·.lead.byteWidth = longest.lead.byteWidth) := by
  unfold candidates
  dsimp only
  split
  · next hmax =>
    have hempty : table.rules.filter (·.covers spec) = [] := by simpa using hmax
    exact .inl
      ⟨rfl, fun rule hrule => Bool.eq_false_iff.2 (List.filter_eq_nil_iff.1 hempty rule hrule)⟩
  · next width hmax =>
    obtain ⟨hmem, hbound⟩ := List.max?_eq_some_iff.1 hmax
    obtain ⟨longest, hlongest, rfl⟩ := List.mem_map.1 hmem
    obtain ⟨hlongest, hcovers⟩ := List.mem_filter.1 hlongest
    refine .inr ⟨longest, hlongest, ⟨hcovers, fun other hother h => ?_⟩, rfl⟩
    exact hbound _ (List.mem_map_of_mem (List.mem_filter.2 ⟨hother, h⟩))

/-- **The candidates are the rules that count**, in the order of the table. -/
theorem candidates_eq (table : Table) (spec : Text) :
    table.candidates spec = table.rules.filter (table.Counts spec ·) := by
  rcases candidates_cases table spec with ⟨hnil, hnone⟩ | ⟨longest, hlongest, hcounts, heq⟩
  · rw [hnil]
    refine (List.filter_eq_nil_iff.2 fun rule hrule hcounts => ?_).symm
    rw [decide_eq_true_iff, Counts, hnone rule hrule] at hcounts
    cases hcounts.1
  · rw [heq, List.filter_filter]
    refine List.filter_congr fun rule hrule => ?_
    rw [Bool.eq_iff_iff, Bool.and_eq_true, decide_eq_true_iff, decide_eq_true_iff]
    constructor
    · rintro ⟨hwidth, hcovers⟩
      exact ⟨hcovers, fun other hother h => hwidth ▸ hcounts.2 other hother h⟩
    · rintro ⟨hcovers, hbound⟩
      exact ⟨Nat.le_antisymm (hcounts.2 rule hrule hcovers) (hbound longest hlongest hcounts.1),
        hcovers⟩

theorem mem_candidates :
    rule ∈ table.candidates spec ↔ rule ∈ table.rules ∧ table.Counts spec rule := by
  rw [candidates_eq, List.mem_filter, decide_eq_true_iff]

/-- **All candidates have the same start.** -/
theorem lead_eq_of_mem_candidates (hrule : rule ∈ table.candidates spec)
    (hother : other ∈ table.candidates spec) : rule.lead = other.lead := by
  obtain ⟨hrule, hcovers, hlongest⟩ := mem_candidates.1 hrule
  obtain ⟨hother, hcovers', hlongest'⟩ := mem_candidates.1 hother
  refine Text.eq_of_byteWidth_eq (Rule.prefix_of_covers hcovers) (Rule.prefix_of_covers hcovers') ?_
  exact Nat.le_antisymm (hlongest' rule hrule hcovers) (hlongest other hother hcovers')

theorem candidates_ne_nil_iff : table.candidates spec ≠ [] ↔ table.isAlias spec = true := by
  rw [isAlias, List.any_eq_true]
  constructor
  · intro hne
    obtain ⟨rule, hrule⟩ := List.exists_mem_of_ne_nil _ hne
    obtain ⟨hrule, hcovers, -⟩ := mem_candidates.1 hrule
    exact ⟨rule, hrule, hcovers⟩
  · rintro ⟨rule, hrule, hcovers⟩
    rcases candidates_cases table spec with ⟨-, hnone⟩ | ⟨longest, hlongest, hcounts, -⟩
    · rw [hnone rule hrule] at hcovers
      cases hcovers
    · exact List.ne_nil_of_mem (mem_candidates.2 ⟨hlongest, hcounts⟩)

end Table

end Alias

/-! ## Local specifiers -/

namespace Specifier

variable {spec : Text}

theorem head?_of_isRelative (h : isRelative spec = true) : spec.head? = some '.' := by
  simp only [isRelative, Bool.or_eq_true, decide_eq_true_iff, Text.startsWith,
    List.isPrefixOf_iff_prefix] at h
  rcases h with ((rfl | rfl) | ⟨rest, rfl⟩) | ⟨rest, rfl⟩ <;> rfl

theorem head?_of_isAnchored (h : isAnchored spec = true) : spec.head? = some '/' := by
  obtain ⟨rest, rfl⟩ := List.isPrefixOf_iff_prefix.1 h
  rfl

end Specifier

namespace Project

variable {p : Project} {spec importer : Text} {found : SourceFile}

/-- **A specifier that names a file is local.** -/
theorem isLocal_of_resolve? (h : p.inventory.resolve? p.aliases spec importer = some found) :
    p.isLocal spec = true := by
  unfold Inventory.resolve? at h
  rw [isLocal, Bool.or_eq_true]
  split at h
  · next hrelative => exact .inl (by rw [Specifier.head?_of_isRelative hrelative]; rfl)
  · split at h
    · next hanchored => exact .inl (by rw [Specifier.head?_of_isAnchored hanchored]; rfl)
    · obtain ⟨rule, hrule, -⟩ := List.exists_of_findSome?_eq_some h
      exact .inr (Alias.Table.candidates_ne_nil_iff.1 (List.ne_nil_of_mem hrule))

theorem resolve?_of_not_isLocal (h : p.isLocal spec = false) : p.resolve? importer spec = none := by
  unfold resolve?
  rw [Option.map_eq_none_iff]
  by_contra hsome
  obtain ⟨found, hfound⟩ := Option.ne_none_iff_exists'.1 hsome
  rw [isLocal_of_resolve? hfound] at h
  cases h

end Project

/-- **The aliases with the longest start count, and the scan of imports passes over no string that
names a file.** For every project and specifier:
* the candidates are, in the order of the table, the rules that cover the specifier and that no
  other such rule exceeds in length; all have one start, the first of them is the rule that is
  found, and there is one exactly if the specifier is an alias;
* a specifier that names a file, whatever the importing file, is local;
* so the strings of a declaration before the one that is taken name no file, and none does if none
  is taken. -/
theorem longest_alias_counts (p : Project) (spec : Text) :
    p.aliases.candidates spec = p.aliases.rules.filter (p.aliases.Counts spec ·) ∧
      (∃ lead, ∀ rule ∈ p.aliases.candidates spec, rule.lead = lead) ∧
      p.aliases.find? spec = (p.aliases.candidates spec).head? ∧
      (p.aliases.candidates spec ≠ [] ↔ p.aliases.isAlias spec = true) ∧
      (∀ importer found, p.inventory.resolve? p.aliases spec importer = some found →
        p.isLocal spec = true) ∧
      ∀ importer (d : Import.Draft), ∃ passed rest, Import.literals d.text = passed ++ rest ∧
        (∀ s ∈ passed, p.resolve? importer s = none) ∧
        d.specifier? p.isLocal =
          if d.kind = .reexporting && !d.text.includes "from".toList then none else rest.head? := by
  refine ⟨Alias.Table.candidates_eq _ _, ?_, rfl, Alias.Table.candidates_ne_nil_iff, ?_, ?_⟩
  · cases hcandidates : p.aliases.candidates spec with
    | nil => exact ⟨[], by simp⟩
    | cons first rules =>
      refine ⟨first.lead, fun rule hrule => ?_⟩
      exact Alias.Table.lead_eq_of_mem_candidates (hcandidates ▸ hrule)
        (hcandidates ▸ List.mem_cons_self)
  · intro importer found hfound
    exact Project.isLocal_of_resolve? hfound
  · intro importer d
    refine ⟨(Import.literals d.text).takeWhile (!p.isLocal ·),
      (Import.literals d.text).dropWhile (!p.isLocal ·), List.takeWhile_append_dropWhile.symm, ?_,
      ?_⟩
    · intro s hs
      exact Project.resolve?_of_not_isLocal (by simpa using List.mem_takeWhile_imp hs)
    · rw [Import.Draft.specifier?, List.find?_eq_head?_dropWhile_not]

example :
    (Alias.Table.mk [⟨[], "/src/".toList, true⟩, ⟨"~/lib/".toList, "/lib/".toList, true⟩,
      ⟨"~/".toList, "/".toList, true⟩, ⟨"~/lib/".toList, "/vendor/".toList, true⟩]).candidates
        "~/lib/date".toList =
      [⟨"~/lib/".toList, "/lib/".toList, true⟩, ⟨"~/lib/".toList, "/vendor/".toList, true⟩] := by
  decide

end Unreached

import Mathlib.Data.List.TakeWhile
import Unreached.Proofs.Walk
import Unreached.Settings.Arguments

/-!
# The options that arguments give

* `Opt.Given` : an option without a value stands among the arguments;
* `Arguments.flag` : the options without a value that arguments set;
* `flag_ofCommandLine` : arguments that can be read set exactly the options that are given.
-/

namespace Unreached

set_option autoImplicit false

/-- Whether an option stands among the arguments, with its hyphens and without a value. -/
def Opt.Given (o : Opt) (args : List Text) : Prop := '-' :: '-' :: o.name ∈ args

instance (o : Opt) (args : List Text) : Decidable (o.Given args) :=
  inferInstanceAs (Decidable (_ ∈ args))

/-- Whether an option without a value is set. -/
def Arguments.flag (a : Arguments) : Opt → Bool
  | .followReexports => a.settings.reexports
  | .noIgnore => a.settings.noIgnore
  | .json => a.json
  | .yes => a.yes
  | .noMove => a.noMove
  | _ => false

namespace Opt

theorem name_injective {o o' : Opt} (h : o.name = o'.name) : o = o' := by
  revert h
  cases o <;> cases o' <;> decide

theorem takeWhile_name (o : Opt) : o.name.takeWhile (· ≠ '=') = o.name := by
  cases o <;> decide

theorem name_ne_nil (o : Opt) : o.name ≠ [] := by
  cases o <;> decide

theorem not_given_nil (o : Opt) : ¬o.Given [] := List.not_mem_nil

theorem given_cons {o : Opt} {arg : Text} {args : List Text} :
    o.Given (arg :: args) ↔ arg = '-' :: '-' :: o.name ∨ o.Given args := by
  unfold Given
  rw [List.mem_cons, eq_comm]

end Opt

namespace Arguments
variable {a a' : Arguments} {o o' : Opt} {v : Text}

theorem flag_setValue (h : a.setValue o v = .ok a') : a'.flag = a.flag := by
  unfold setValue at h
  dsimp only at h
  repeat' split at h
  all_goals cases h
  all_goals rfl

theorem flag_setFlag (h : a.setFlag o = .ok a') (ho : o.takesValue = false) :
    a'.flag o' = true ↔ a.flag o' = true ∨ o' = o := by
  cases o <;> cases ho <;> cases h <;> cases o' <;> simp [flag]

namespace State
variable {s s' : State} {options : List Opt} {v? : Option Text}

theorem set_ok (h : s.set o v? = .ok s') :
    s'.pending = s.pending ∧
      ((∃ v, v? = some v ∧ s.arguments.setValue o v = .ok s'.arguments) ∨
        (v? = none ∧ o.takesValue = false ∧ s.arguments.setFlag o = .ok s'.arguments)) := by
  unfold set at h
  split at h
  · cases h
  · next hvalue =>
    split at h
    · cases h
    · cases v? with
      | none =>
        obtain ⟨a, ha, h⟩ := Except.bind_ok h
        cases h
        exact ⟨rfl, .inr ⟨rfl, by simpa using hvalue, ha⟩⟩
      | some v =>
        obtain ⟨a, ha, h⟩ := Except.bind_ok h
        cases h
        exact ⟨rfl, .inl ⟨v, rfl, ha⟩⟩

/-- The option that is pending has a value. -/
def Waits (s : State) : Prop := ∀ o v?, s.pending = some (o, v?) → o.takesValue = true

theorem waits_of_none (h : s.pending = none) : s.Waits := by
  intro o v? hpending
  rw [h] at hpending
  cases hpending

theorem settle_ok (hwaits : s.Waits) (h : s.settle = .ok s') :
    s'.pending = none ∧ s'.arguments.flag = s.arguments.flag := by
  unfold settle at h
  cases hpending : s.pending with
  | none =>
    simp only [hpending] at h
    cases h
    exact ⟨hpending, rfl⟩
  | some p =>
    obtain ⟨o, v?⟩ := p
    simp only [hpending] at h
    obtain ⟨hnone, ⟨v, -, hset⟩ | ⟨-, hflag, -⟩⟩ := set_ok h
    · exact ⟨hnone, flag_setValue hset⟩
    · rw [hwaits o v? hpending] at hflag
      cases hflag

theorem readLong_cases {t : Text} (h : s.readLong options t = .ok s') :
    ∃ o settled, o.name = t.takeWhile (· ≠ '=') ∧ s.settle = .ok settled ∧
      ((o.takesValue = true ∧ ∃ v, settled.set o (some v) = .ok s') ∨
        (o.takesValue = true ∧ s' = { settled with pending := some (o, none) }) ∨
        (o.takesValue = false ∧ t = o.name ∧ settled.set o none = .ok s')) := by
  unfold readLong at h
  dsimp only at h
  split at h
  · cases h
  · next o hfind =>
    have hname : o.name = t.takeWhile (· ≠ '=') := by simpa using List.find?_some hfind
    split at h
    · next hvalue =>
      obtain ⟨settled, hsettle, h⟩ := Except.bind_ok h
      refine ⟨o, settled, hname, hsettle, ?_⟩
      split at h
      · next v _ => exact .inl ⟨hvalue, v, h⟩
      · cases h
        exact .inr (.inl ⟨hvalue, rfl⟩)
    · next hvalue =>
      split at h
      · cases h
      · next hnone =>
        obtain ⟨settled, hsettle, h⟩ := Except.bind_ok h
        -- without an equals sign the name is the whole text
        have hrest : t.dropWhile (· ≠ '=') = [] := by
          cases hdrop : t.dropWhile (· ≠ '=') with
          | nil => rfl
          | cons c rest =>
            rw [hdrop] at hnone
            cases hnone
        have hwhole : t = o.name := by
          rw [hname]
          exact (List.takeWhile_eq_self_iff.2 (List.dropWhile_eq_nil_iff.1 hrest)).symm
        exact ⟨o, settled, hname, hsettle, .inr (.inr ⟨Bool.eq_false_iff.2 hvalue, hwhole, h⟩)⟩

/-- A long option sets the option without a value that it names, and no other. -/
theorem readLong_ok {t : Text} (hwaits : s.Waits) (h : s.readLong options t = .ok s') :
    s'.Waits ∧
      ∀ o : Opt, o.takesValue = false →
        (s'.arguments.flag o = true ↔ t = o.name ∨ s.arguments.flag o = true) := by
  obtain ⟨named, settled, hname, hsettle, hcases⟩ := readLong_cases h
  obtain ⟨hnone, hflags⟩ := settle_ok hwaits hsettle
  have hnamed : ∀ o : Opt, t = o.name → o = named := by
    rintro o rfl
    exact Opt.name_injective (o.takeWhile_name.symm.trans hname.symm)
  have hother : named.takesValue = true → ∀ o : Opt, o.takesValue = false → t ≠ o.name := by
    intro hvalue o ho ht
    rw [hnamed o ht, hvalue] at ho
    cases ho
  rcases hcases with ⟨hvalue, v, hset⟩ | ⟨hvalue, rfl⟩ | ⟨hvalue, rfl, hset⟩
  · obtain ⟨hpending, ⟨v', -, hset⟩ | ⟨hv, -⟩⟩ := set_ok hset
    · refine ⟨waits_of_none (hpending.trans hnone), fun o ho => ?_⟩
      rw [flag_setValue hset, hflags]
      exact (or_iff_right (hother hvalue o ho)).symm
    · cases hv
  · refine ⟨?_, fun o ho => ?_⟩
    · rintro o v? hpending
      cases hpending
      exact hvalue
    · rw [hflags]
      exact (or_iff_right (hother hvalue o ho)).symm
  · obtain ⟨hpending, ⟨v, hv, -⟩ | ⟨-, -, hset⟩⟩ := set_ok hset
    · cases hv
    · refine ⟨waits_of_none (hpending.trans hnone), fun o ho => ?_⟩
      rw [flag_setFlag hset hvalue, hflags, or_comm]
      exact or_congr_left ⟨fun ho => ho ▸ rfl, hnamed o⟩

theorem readAll_ok {args : List Text} (hwaits : s.Waits) (h : readAll options s args = .ok s') :
    ∀ o : Opt, o.takesValue = false →
      (s'.arguments.flag o = true ↔ o.Given args ∨ s.arguments.flag o = true) := by
  induction args generalizing s with
  | nil =>
    intro o _
    rw [(settle_ok hwaits h).2, or_iff_right o.not_given_nil]
  | cons arg args ih =>
    intro o ho
    rw [Opt.given_cons]
    unfold readAll at h
    split at h
    · -- two hyphens are no option, and end the arguments
      have hne : (['-', '-'] : Text) ≠ '-' :: '-' :: o.name :=
        fun heq => o.name_ne_nil (by simpa using heq.symm)
      split at h
      · next hargs =>
        rw [List.isEmpty_iff.1 hargs, (settle_ok hwaits h).2]
        simp only [hne, false_or, or_iff_right o.not_given_nil]
      · cases h
    · next t hne =>
      obtain ⟨read, hread, h⟩ := Except.bind_ok h
      obtain ⟨hwaits', hflags⟩ := readLong_ok hwaits hread
      rw [ih hwaits' h o ho, hflags o ho]
      simp only [List.cons.injEq, true_and]
      tauto
    · obtain ⟨settled, hsettle, h⟩ := Except.bind_ok h
      obtain ⟨read, hread, h⟩ := Except.bind_ok h
      obtain ⟨-, ⟨v, hv, -⟩ | ⟨-, -, hset⟩⟩ := set_ok hread
      · cases hv
      · cases hset
    · cases h
    · next hlong hshort hhyphen =>
      have hne : arg ≠ '-' :: '-' :: o.name := fun heq => hhyphen '-' o.name heq
      split at h
      · next waiting hpending =>
        have hwaits' : State.Waits { s with pending := some (waiting, some arg) } := by
          rintro o v? heq
          cases heq
          exact hwaits waiting none hpending
        rw [ih hwaits' h o ho, or_iff_right hne]
      · cases h

end State

/-- **Arguments set the options that are given.** -/
theorem flag_ofCommandLine {args : List Text} (h : ofCommandLine args = .ok a)
    (ho : o.takesValue = false) : a.flag o = true ↔ o.Given args := by
  cases args with
  | nil => cases h
  | cons command args =>
    rw [ofCommandLine] at h
    split at h
    · next hcommand =>
      obtain ⟨s, hread, h⟩ := Except.bind_ok h
      have hne : command ≠ '-' :: '-' :: o.name := by
        have hhead : commandName.head? ≠ some '-' := by decide
        intro heq
        exact hhead (hcommand ▸ congrArg List.head? heq)
      have hflag : Arguments.flag {} o = false := by cases o <;> rfl
      split at h
      · cases h
      · cases h
        rw [State.readAll_ok (State.waits_of_none rfl) hread o ho, Opt.given_cons, or_iff_right hne]
        simp [hflag]
    · split at h <;> cases h

end Arguments

end Unreached

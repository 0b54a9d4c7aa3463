import Mathlib.Logic.Relation
import Unreached.Text.Basic

/-!
# Depth-first order

`depthFirst next fresh stack` lists the files that are expanded from a stack, in order, where `next`
gives the files that a file leads to and only those in `fresh` may be expanded.

* `mem_depthFirst` : these are the files that paths inside `fresh` lead to from the stack;
* `nodup_depthFirst` : none is expanded twice;
* `mem_depthFirst_of_closed` : where the files that are not fresh lead to each other only, they are
  all the others that the entry leads to.
-/

namespace Unreached

set_option autoImplicit false

open Relation (ReflTransGen TransGen)

section
variable (next : Text → List Text)

/-- The files that are expanded from the stack, in order. -/
def depthFirst (fresh stack : List Text) : List Text :=
  match stack with
  | [] => []
  | file :: stack =>
    if file ∈ fresh then file :: depthFirst (fresh.erase file) ((next file).reverse ++ stack)
    else depthFirst fresh stack
termination_by (fresh.length, stack.length)
decreasing_by
  · have := List.length_erase_of_mem ‹file ∈ fresh›
    have := List.length_pos_of_mem ‹file ∈ fresh›
    exact Prod.Lex.left _ _ (by omega)
  · exact Prod.Lex.right _ (by simp)

/-- Whether a file leads to another directly. -/
def Leads (file target : Text) : Prop := target ∈ next file

/-- Whether a file leads directly to one that is fresh. -/
def LeadsWithin (fresh : List Text) (file target : Text) : Prop :=
  target ∈ next file ∧ target ∈ fresh

/-- Whether a path inside `fresh` leads from the stack to a file. -/
def FoundFrom (fresh stack : List Text) (file : Text) : Prop :=
  ∃ start ∈ stack, start ∈ fresh ∧ ReflTransGen (LeadsWithin next fresh) start file

end

variable {next : Text → List Text} {fresh stack : List Text} {file target : Text}

theorem FoundFrom.mem_fresh (h : FoundFrom next fresh stack file) : file ∈ fresh := by
  obtain ⟨start, -, hstart, hpath⟩ := h
  rcases hpath.cases_tail with rfl | ⟨before, -, hstep⟩
  · exact hstart
  · exact hstep.2

theorem FoundFrom.tail (h : FoundFrom next fresh stack file) (hnext : target ∈ next file)
    (hfresh : target ∈ fresh) : FoundFrom next fresh stack target := by
  obtain ⟨start, hmem, hstart, hpath⟩ := h
  exact ⟨start, hmem, hstart, hpath.tail ⟨hnext, hfresh⟩⟩

/-- What is found after `file` was expanded is found before, through `file`. -/
theorem FoundFrom.of_expand (hfile : file ∈ fresh)
    (h : FoundFrom next (fresh.erase file) ((next file).reverse ++ stack) target) :
    FoundFrom next fresh (file :: stack) target := by
  obtain ⟨start, hmem, hstart, hpath⟩ := h
  have hpath' : ReflTransGen (LeadsWithin next fresh) start target :=
    ReflTransGen.mono (fun _ _ hstep => ⟨hstep.1, List.mem_of_mem_erase hstep.2⟩) _ _ hpath
  have hstart' : start ∈ fresh := List.mem_of_mem_erase hstart
  rcases List.mem_append.1 hmem with hmem | hmem
  · exact ⟨file, List.mem_cons_self, hfile, .head ⟨List.mem_reverse.1 hmem, hstart'⟩ hpath'⟩
  · exact ⟨start, List.mem_cons_of_mem _ hmem, hstart', hpath'⟩

/-- What is found before `file` is expanded is `file` itself or is found after, by the part of the
path behind the last visit to `file`. -/
theorem FoundFrom.expand (h : FoundFrom next fresh (file :: stack) target) :
    target = file ∨ FoundFrom next (fresh.erase file) ((next file).reverse ++ stack) target := by
  obtain ⟨start, hmem, hstart, hpath⟩ := h
  induction hpath with
  | refl =>
    by_cases heq : start = file
    · exact .inl heq
    · have hmem : start ∈ stack := (List.mem_cons.1 hmem).resolve_left heq
      exact .inr ⟨start, List.mem_append_right _ hmem, (List.mem_erase_of_ne heq).2 hstart, .refl⟩
  | @tail before target _ hstep ih =>
    by_cases heq : target = file
    · exact .inl heq
    have hfresh : target ∈ fresh.erase file := (List.mem_erase_of_ne heq).2 hstep.2
    rcases ih with rfl | hfound
    · exact .inr ⟨target, List.mem_append_left _ (List.mem_reverse.2 hstep.1), hfresh, .refl⟩
    · exact .inr (hfound.tail hstep.1 hfresh)

/-- **Depth-first order visits what paths lead to.** -/
theorem mem_depthFirst :
    target ∈ depthFirst next fresh stack ↔ FoundFrom next fresh stack target := by
  fun_induction depthFirst next fresh stack with
  | case1 => simp [FoundFrom]
  | case2 fresh file stack hfile ih =>
    rw [List.mem_cons, ih]
    constructor
    · rintro (rfl | h)
      · exact ⟨target, List.mem_cons_self, hfile, .refl⟩
      · exact .of_expand hfile h
    · exact FoundFrom.expand
  | case3 fresh file stack hfile ih =>
    rw [ih]
    constructor
    · rintro ⟨start, hmem, h⟩
      exact ⟨start, List.mem_cons_of_mem _ hmem, h⟩
    · rintro ⟨start, hmem, hstart, hpath⟩
      rcases List.mem_cons.1 hmem with rfl | hmem
      · exact absurd hstart hfile
      · exact ⟨start, hmem, hstart, hpath⟩

theorem nodup_depthFirst (h : fresh.Nodup) : (depthFirst next fresh stack).Nodup := by
  fun_induction depthFirst next fresh stack with
  | case1 => exact List.nodup_nil
  | case2 fresh file stack hfile ih =>
    refine List.nodup_cons.2 ⟨fun hmem => ?_, ih (h.erase file)⟩
    exact h.not_mem_erase (mem_depthFirst.1 hmem).mem_fresh
  | case3 fresh file stack hfile ih => exact ih h

/-- If the files that `done` holds of lead to each other only, the others that the entry leads to
are expanded. -/
theorem mem_depthFirst_of_closed (done : Text → Prop) {entry : Text}
    (hclosed : ∀ file, done file → ∀ target ∈ next file, done target)
    (hentry : entry ∈ fresh ↔ ¬done entry)
    (hfresh : ∀ file, ∀ target ∈ next file, target ∈ fresh ↔ ¬done target) :
    target ∈ depthFirst next fresh [entry] ↔
      ReflTransGen (Leads next) entry target ∧ ¬done target := by
  rw [mem_depthFirst]
  constructor
  · rintro ⟨start, hmem, hstart, hpath⟩
    obtain rfl := List.mem_singleton.1 hmem
    refine ⟨ReflTransGen.mono (fun _ _ hstep => hstep.1) _ _ hpath, ?_⟩
    rcases hpath.cases_tail with rfl | ⟨before, -, hstep⟩
    · exact hentry.1 hstart
    · exact (hfresh before target hstep.1).1 hstep.2
  · rintro ⟨hpath, hdone⟩
    -- a path to a file that is not done passes through such files only
    induction hpath with
    | refl => exact ⟨entry, List.mem_singleton_self entry, hentry.2 hdone, .refl⟩
    | @tail before target _ hstep ih =>
      have hbefore : ¬done before := fun h => hdone (hclosed before h target hstep)
      exact (ih hbefore).tail hstep ((hfresh before target hstep).2 hdone)

end Unreached

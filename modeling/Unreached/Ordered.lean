import Unreached.Text.Basic

/-!
# Lists in the order of their keys

`insertBy key` puts an element in its place in a list whose keys ascend, instead of the one with its
key. The keys then still ascend (`ascending_insertBy`), and the list holds the new element and the
old ones with other keys (`mem_insertBy`). A list with ascending keys is known by its members
(`Ascending.ext`).
-/

namespace Unreached

set_option autoImplicit false

theorem lt_of_not_lt_of_ne {a b : Text} (h : ¬a < b) (hne : a ≠ b) : b < a := by
  rcases List.le_total b a with hle | hle
  · exact Decidable.byContradiction fun hlt => hne (List.le_antisymm hlt hle)
  · exact absurd (Decidable.byContradiction fun hlt => hne (List.le_antisymm hle hlt)) h

section
variable {α : Type} (key : α → Text)

/-- Whether the keys of a list ascend strictly. -/
def Ascending (xs : List α) : Prop := xs.Pairwise (key · < key ·)

/-- `x` put in its place in a list with ascending keys, instead of the element with its key. -/
def insertBy (x : α) : List α → List α
  | [] => [x]
  | y :: ys =>
    if key x < key y then x :: y :: ys
    else if key x = key y then x :: ys
    else y :: insertBy x ys

variable {key}

theorem of_mem_insertBy {x z : α} {ys : List α} (h : z ∈ insertBy key x ys) : z = x ∨ z ∈ ys := by
  induction ys with
  | nil => simpa [insertBy] using h
  | cons y ys ih =>
    rw [insertBy] at h
    split at h
    · simpa using h
    · split at h
      · rcases List.mem_cons.1 h with h | h
        · exact .inl h
        · exact .inr (List.mem_cons_of_mem _ h)
      · rcases List.mem_cons.1 h with h | h
        · exact .inr (h ▸ List.mem_cons_self)
        · exact (ih h).imp_right (List.mem_cons_of_mem _)

theorem ascending_insertBy {x : α} {ys : List α} (h : Ascending key ys) :
    Ascending key (insertBy key x ys) := by
  induction ys with
  | nil => simp [insertBy, Ascending]
  | cons y ys ih =>
    obtain ⟨hy, hys⟩ := List.pairwise_cons.1 h
    rw [insertBy]
    split
    · next hlt =>
      refine List.pairwise_cons.2 ⟨fun z hz => ?_, h⟩
      rcases List.mem_cons.1 hz with rfl | hz
      · exact hlt
      · exact List.lt_trans hlt (hy z hz)
    · next hlt =>
      split
      · next heq => exact List.pairwise_cons.2 ⟨fun z hz => heq ▸ hy z hz, hys⟩
      · next hne =>
        refine List.pairwise_cons.2 ⟨fun z hz => ?_, ih hys⟩
        rcases of_mem_insertBy hz with rfl | hz
        · exact lt_of_not_lt_of_ne hlt hne
        · exact hy z hz

theorem mem_insertBy {x z : α} {ys : List α} (h : Ascending key ys) :
    z ∈ insertBy key x ys ↔ z = x ∨ z ∈ ys ∧ key z ≠ key x := by
  induction ys with
  | nil => simp [insertBy]
  | cons y ys ih =>
    obtain ⟨hy, hys⟩ := List.pairwise_cons.1 h
    rw [insertBy]
    split
    · next hlt =>
      refine ⟨fun hz => ?_, fun hz => ?_⟩
      · rcases List.mem_cons.1 hz with hz | hz
        · exact .inl hz
        · refine .inr ⟨hz, fun he => ?_⟩
          rcases List.mem_cons.1 hz with rfl | hz
          · exact List.lt_irrefl (key z) (he ▸ hlt)
          · exact List.lt_irrefl (key x) (List.lt_trans hlt (he ▸ hy z hz))
      · exact hz.elim (fun hz => hz ▸ List.mem_cons_self) fun hz => List.mem_cons_of_mem _ hz.1
    · split
      · next heq =>
        refine ⟨fun hz => ?_, fun hz => ?_⟩
        · rcases List.mem_cons.1 hz with hz | hz
          · exact .inl hz
          · exact .inr ⟨List.mem_cons_of_mem _ hz,
              fun he => List.lt_irrefl (key y) (by simpa [he, heq] using hy z hz)⟩
        · rcases hz with rfl | ⟨hz, hne⟩
          · exact List.mem_cons_self
          · rcases List.mem_cons.1 hz with rfl | hz
            · exact absurd heq.symm hne
            · exact List.mem_cons_of_mem _ hz
      · next hne => grind [ih hys]

theorem Ascending.nodup_keys {xs : List α} (h : Ascending key xs) : (xs.map key).Nodup := by
  refine List.pairwise_map.2 (h.imp fun hlt heq => ?_)
  rw [heq] at hlt
  exact List.lt_irrefl _ hlt

theorem Ascending.nodup {xs : List α} (h : Ascending key xs) : xs.Nodup :=
  List.Pairwise.of_map key (fun _ _ hne heq => hne (congrArg key heq)) h.nodup_keys

theorem Ascending.ext {xs ys : List α} (hx : Ascending key xs) (hy : Ascending key ys)
    (h : ∀ z, z ∈ xs ↔ z ∈ ys) : xs = ys := by
  have hperm : xs.Perm ys :=
    (List.perm_ext_iff_of_nodup hx.nodup hy.nodup).2 h
  refine hperm.eq_of_pairwise (fun a b _ _ hab hba => ?_) hx hy
  exact absurd (List.lt_trans hab hba) (List.lt_irrefl _)

end

/-! ## Sets of texts -/

/-- A set of texts, as the list of its members in their order. -/
abbrev TextSet := List Text

namespace TextSet

/-- The set with one more member. -/
def insert (s : TextSet) (t : Text) : TextSet := insertBy id t s

/-- The set with the members of a list. -/
def insertAll (s : TextSet) (ts : List Text) : TextSet := ts.foldl insert s

@[simp]
theorem mem_insert {s : TextSet} {t u : Text} : u ∈ s.insert t ↔ u = t ∨ u ∈ s := by
  refine ⟨of_mem_insertBy, fun h => ?_⟩
  unfold insert
  induction s with
  | nil => simpa [insertBy] using h
  | cons v s ih => grind [insertBy]

@[simp]
theorem mem_insertAll {s : TextSet} {ts : List Text} {u : Text} :
    u ∈ s.insertAll ts ↔ u ∈ s ∨ u ∈ ts := by
  unfold insertAll
  induction ts generalizing s with
  | nil => simp
  | cons t ts ih =>
    rw [List.foldl_cons, ih, mem_insert, List.mem_cons, or_assoc, or_left_comm]

theorem ascending_insertAll {s : TextSet} (h : Ascending id s) (ts : List Text) :
    Ascending id (s.insertAll ts) := by
  unfold insertAll
  induction ts generalizing s with
  | nil => exact h
  | cons t ts ih => exact ih (ascending_insertBy h)

theorem insertAll_append (s : TextSet) (ts us : List Text) :
    s.insertAll (ts ++ us) = (s.insertAll ts).insertAll us :=
  List.foldl_append

/-- The set of the members of a list. -/
def ofList (ts : List Text) : TextSet := insertAll [] ts

theorem ascending_ofList (ts : List Text) : Ascending id (ofList ts) :=
  ascending_insertAll List.Pairwise.nil ts

end TextSet

end Unreached

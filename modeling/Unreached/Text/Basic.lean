/-!
# Texts

Texts are lists of characters: specifiers, paths, file names, lines and source texts alike.

* `startsWith`, `endsWith`, `includes` : one text at the start, at the end or anywhere in another;
* `lines` : the lines of a text, each without its line break;
* `byteWidth` : the length of a text in UTF-8.
-/

namespace Unreached

set_option autoImplicit false

/-- A text is the list of its characters. Texts are ordered by code points, which is also the order
of their bytes. -/
abbrev Text := List Char

namespace Text

/-! ## Parts of a text -/

/-- Whether `t` starts with `s`. -/
def startsWith (t s : Text) : Bool := s.isPrefixOf t

/-- Whether `t` ends with `s`. -/
def endsWith (t s : Text) : Bool := s.isSuffixOf t

/-- Whether `s` stands somewhere in `t`. -/
def includes : Text → Text → Bool
  | [], s => s.isEmpty
  | c :: t, s => s.isPrefixOf (c :: t) || includes t s

/-- What follows `s` in a text that starts with `s`. -/
def after? : (s t : Text) → Option Text
  | [], t => some t
  | _ :: _, [] => none
  | a :: s, b :: t => if a = b then after? s t else none

theorem includes_iff_infix {t s : Text} : t.includes s ↔ s <:+: t := by
  induction t with
  | nil => rw [includes, List.isEmpty_iff, List.infix_nil]
  | cons c t ih =>
    rw [includes, Bool.or_eq_true, List.isPrefixOf_iff_prefix, ih, List.infix_cons_iff]

theorem after?_append (s t : Text) : after? s (s ++ t) = some t := by
  induction s with
  | nil => rfl
  | cons c s ih => rw [List.cons_append, after?, if_pos rfl, ih]

theorem eq_append_of_after? {s t rest : Text} (h : after? s t = some rest) : t = s ++ rest := by
  fun_induction after? s t with
  | case1 => exact Option.some.inj h
  | case2 => cases h
  | case3 s c t ih => rw [ih h, List.cons_append]
  | case4 => cases h

/-- `t` without the characters at its end that satisfy `p`. -/
def dropEndWhile (p : Char → Bool) (t : Text) : Text := (t.reverse.dropWhile p).reverse

/-- `t` repeated `n` times. -/
def times (n : Nat) (t : Text) : Text := (List.replicate n t).flatten

/-- `t` with every `a` replaced by `b`. -/
def replaceChar (a b : Char) (t : Text) : Text := t.map fun c => if c = a then b else c

/-- The number of bytes of `t` in UTF-8. -/
def byteWidth : Text → Nat
  | [] => 0
  | c :: t => c.utf8Size + byteWidth t

theorem byteWidth_append (t u : Text) : byteWidth (t ++ u) = byteWidth t + byteWidth u := by
  induction t with
  | nil => simp [byteWidth]
  | cons c t ih =>
    rw [List.cons_append, byteWidth, ih, byteWidth]
    omega

/-- The decimal digits of `n`. -/
def ofNat (n : Nat) : Text := Nat.toDigits 10 n

/-! ## Lines -/

/-- A line without the carriage return at its end. -/
def dropReturn (line : Text) : Text :=
  if line.getLast? = some '\r' then line.dropLast else line

/-- The lines of a text. A line ends at a line feed, which takes one carriage return before it
along; what follows the last line feed is a line too unless it is empty. -/
def lines (t : Text) : List Text :=
  let parts := t.splitOn '\n'
  parts.dropLast.map dropReturn ++ parts.getLast?.toList.filter (!·.isEmpty)

theorem not_mem_of_mem_splitOn {sep : Char} {t part : Text} (h : part ∈ t.splitOn sep) :
    sep ∉ part := by
  induction t generalizing part with
  | nil => simp_all
  | cons c t ih =>
    rw [List.splitOn_cons_eq_if_modifyHead] at h
    obtain ⟨first, rest, hsplit⟩ := List.exists_cons_of_ne_nil (List.splitOn_ne_nil sep t)
    rw [hsplit] at h ih
    split at h
    · rcases List.mem_cons.1 h with rfl | h
      · exact List.not_mem_nil
      · exact ih h
    · next hc =>
      have hne : sep ≠ c := fun heq => hc (beq_iff_eq.2 heq.symm)
      rw [List.modifyHead_cons] at h
      rcases List.mem_cons.1 h with rfl | h
      · simp [hne, ih List.mem_cons_self]
      · exact ih (List.mem_cons_of_mem _ h)

theorem mem_of_mem_splitOn {sep c : Char} {t part : Text} (h : part ∈ t.splitOn sep)
    (hc : c ∈ part) : c ∈ t := by
  induction t generalizing part with
  | nil => simp_all
  | cons d t ih =>
    rw [List.splitOn_cons_eq_if_modifyHead] at h
    obtain ⟨first, rest, hsplit⟩ := List.exists_cons_of_ne_nil (List.splitOn_ne_nil sep t)
    rw [hsplit] at h ih
    split at h
    · rcases List.mem_cons.1 h with rfl | h
      · cases hc
      · exact List.mem_cons_of_mem _ (ih h hc)
    · rw [List.modifyHead_cons] at h
      rcases List.mem_cons.1 h with rfl | h
      · exact (List.mem_cons.1 hc).elim (fun heq => heq ▸ List.mem_cons_self)
          fun hc => List.mem_cons_of_mem _ (ih List.mem_cons_self hc)
      · exact List.mem_cons_of_mem _ (ih (List.mem_cons_of_mem _ h) hc)

theorem not_mem_of_mem_lines {t line : Text} (h : line ∈ t.lines) : '\n' ∉ line := by
  rcases List.mem_append.1 h with h | h
  · obtain ⟨part, hpart, rfl⟩ := List.mem_map.1 h
    have hnot := not_mem_of_mem_splitOn (List.dropLast_subset _ hpart)
    unfold dropReturn
    split
    · exact fun hmem => hnot (List.dropLast_subset _ hmem)
    · exact hnot
  · exact not_mem_of_mem_splitOn
      (List.mem_of_getLast? (Option.mem_toList.1 (List.mem_filter.1 h).1))

theorem mem_of_mem_lines {c : Char} {t line : Text} (h : line ∈ t.lines) (hc : c ∈ line) :
    c ∈ t := by
  rcases List.mem_append.1 h with h | h
  · obtain ⟨part, hpart, rfl⟩ := List.mem_map.1 h
    refine mem_of_mem_splitOn (List.dropLast_subset _ hpart) ?_
    unfold dropReturn at hc
    split at hc
    · exact List.dropLast_subset _ hc
    · exact hc
  · exact mem_of_mem_splitOn (List.mem_of_getLast? (Option.mem_toList.1 (List.mem_filter.1 h).1)) hc

end Text

end Unreached

import Mathlib.Logic.Basic
import Unreached.Text.Bytes

/-!
# Bytes as texts and as lines

* `Bytes.Spells` : the bytes of one character, by how many there are. They are what writing the
  character gives (`Bytes.Spells.encode_eq`, `Bytes.spells_encode`), and reading takes them off at
  once (`Bytes.Spells.textFrom?_eq`);
* `Bytes.text?_eq_some_iff` : bytes are read as a text exactly if they are what writing the text
  gives;
* `Bytes.CutInto`, `Bytes.lines_eq_iff` : a line runs up to and including a line feed, or up to the
  end.
-/

namespace Unreached.Bytes

set_option autoImplicit false

open String (utf8EncodeChar)

variable {a b : UInt8} {bs lead : Bytes} {read t : Text} {x : Char}

/-! ## Ranges of bytes -/

theorem isTail_iff : isTail b ↔ 0x80 ≤ b.toNat ∧ b.toNat ≤ 0xBF := by
  simp [isTail, UInt8.le_iff_toNat_le]

theorem mayFollow3_iff :
    mayFollow3 a b ↔ (0x80 ≤ b.toNat ∧ b.toNat ≤ 0xBF) ∧ (a.toNat = 0xE0 → 0xA0 ≤ b.toNat) ∧
      (a.toNat = 0xED → b.toNat ≤ 0x9F) := by
  simp only [mayFollow3, Bool.and_eq_true, isTail_iff, Bool.or_eq_true, decide_eq_true_eq,
    UInt8.le_iff_toNat_le, ← UInt8.toNat_inj, ne_eq, UInt8.reduceToNat, and_assoc, imp_iff_not_or]

theorem mayFollow4_iff :
    mayFollow4 a b ↔ (0x80 ≤ b.toNat ∧ b.toNat ≤ 0xBF) ∧ (a.toNat = 0xF0 → 0x90 ≤ b.toNat) ∧
      (a.toNat = 0xF4 → b.toNat ≤ 0x8F) := by
  simp only [mayFollow4, Bool.and_eq_true, isTail_iff, Bool.or_eq_true, decide_eq_true_eq,
    UInt8.le_iff_toNat_le, ← UInt8.toNat_inj, ne_eq, UInt8.reduceToNat, and_assoc, imp_iff_not_or]

/-! ## One character -/

/-- The bytes of a character. -/
inductive Spells : Bytes → Char → Prop where
  | one {a : UInt8} (ha : a.toNat < 0x80) : Spells [a] (Char.ofNat a.toNat)
  | two {a b : UInt8} (ha : 0xC2 ≤ a.toNat ∧ a.toNat ≤ 0xDF) (hb : isTail b) :
      Spells [a, b] (charOf (a.toNat - 0xC0) [b])
  | three {a b c : UInt8} (ha : 0xE0 ≤ a.toNat ∧ a.toNat ≤ 0xEF) (hb : mayFollow3 a b)
      (hc : isTail c) : Spells [a, b, c] (charOf (a.toNat - 0xE0) [b, c])
  | four {a b c d : UInt8} (ha : 0xF0 ≤ a.toNat ∧ a.toNat ≤ 0xF4) (hb : mayFollow4 a b)
      (hc : isTail c) (hd : isTail d) : Spells [a, b, c, d] (charOf (a.toNat - 0xF0) [b, c, d])

/-- The bytes that writing the character with a given number gives. -/
theorem encode_ofNat {n : Nat} (h : n.isValidChar) :
    utf8EncodeChar (Char.ofNat n) =
      if n ≤ 0x7F then [.ofNat n]
      else if n ≤ 0x7FF then [.ofNat (n / 64 % 32 + 0xC0), .ofNat (n % 64 + 0x80)]
      else if n ≤ 0xFFFF then
        [.ofNat (n / 4096 % 16 + 0xE0), .ofNat (n / 64 % 64 + 0x80), .ofNat (n % 64 + 0x80)]
      else
        [.ofNat (n / 262144 % 8 + 0xF0), .ofNat (n / 4096 % 64 + 0x80), .ofNat (n / 64 % 64 + 0x80),
          .ofNat (n % 64 + 0x80)] := by
  have hval : (Char.ofNat n).val.toNat = n := by
    rw [Char.ofNat, dif_pos h]
    rfl
  unfold utf8EncodeChar
  rw [hval]

/-- Bytes that spell a character are what writing it gives. -/
theorem Spells.encode_eq (h : Spells lead x) : utf8EncodeChar x = lead := by
  cases h with
  | one ha => rw [encode_ofNat (.inl (by omega)), if_pos (by omega), UInt8.ofNat_toNat]
  | two ha hb =>
    have hb := isTail_iff.1 hb
    simp only [charOf, List.foldl_cons, List.foldl_nil]
    rw [encode_ofNat (.inl (by omega)), if_neg (by omega), if_pos (by omega)]
    simp only [List.cons.injEq, UInt8.ofNat_eq_iff_mod_eq_toNat, and_true]
    omega
  | three ha hb hc =>
    have hb := mayFollow3_iff.1 hb
    have hc := isTail_iff.1 hc
    simp only [charOf, List.foldl_cons, List.foldl_nil]
    -- the bounds on the second byte keep the surrogates out
    rw [encode_ofNat (by unfold Nat.isValidChar; omega), if_neg (by omega), if_neg (by omega),
      if_pos (by omega)]
    simp only [List.cons.injEq, UInt8.ofNat_eq_iff_mod_eq_toNat, and_true]
    omega
  | four ha hb hc hd =>
    have hb := mayFollow4_iff.1 hb
    have hc := isTail_iff.1 hc
    have hd := isTail_iff.1 hd
    simp only [charOf, List.foldl_cons, List.foldl_nil]
    rw [encode_ofNat (by unfold Nat.isValidChar; omega), if_neg (by omega), if_neg (by omega),
      if_neg (by omega)]
    simp only [List.cons.injEq, UInt8.ofNat_eq_iff_mod_eq_toNat, and_true]
    omega

theorem charOf_eq {n top : Nat} (h : bs.foldl (fun n b => n * 64 + (b.toNat - 0x80)) top = n) :
    charOf top bs = Char.ofNat n := congrArg Char.ofNat h

/-- What writing a character gives spells it. -/
theorem spells_encode (x : Char) : Spells (utf8EncodeChar x) x := by
  obtain ⟨n, hn, rfl⟩ : ∃ n : Nat, n.isValidChar ∧ x = Char.ofNat n :=
    ⟨x.toNat, x.valid, (Char.ofNat_toNat x).symm⟩
  have hbyte : ∀ m < 256, (UInt8.ofNat m).toNat = m :=
    fun m hm => by rw [UInt8.toNat_ofNat', Nat.mod_eq_of_lt hm]
  rw [encode_ofNat hn]
  unfold Nat.isValidChar at hn
  -- from here on the bytes are known by their numbers only
  have hlast := hbyte (n % 64 + 0x80) (by omega)
  have hmiddle := hbyte (n / 64 % 64 + 0x80) (by omega)
  have hsecond := hbyte (n / 4096 % 64 + 0x80) (by omega)
  generalize UInt8.ofNat (n % 64 + 0x80) = last at hlast ⊢
  generalize UInt8.ofNat (n / 64 % 64 + 0x80) = middle at hmiddle ⊢
  generalize UInt8.ofNat (n / 4096 % 64 + 0x80) = second at hsecond ⊢
  split
  · have hfirst := hbyte n (by omega)
    generalize UInt8.ofNat n = first at hfirst ⊢
    rw [← hfirst]
    exact .one (by omega)
  split
  · have hfirst := hbyte (n / 64 % 32 + 0xC0) (by omega)
    generalize UInt8.ofNat (n / 64 % 32 + 0xC0) = first at hfirst ⊢
    have hchar : charOf (first.toNat - 0xC0) [last] = Char.ofNat n :=
      charOf_eq (by simp only [List.foldl_cons, List.foldl_nil]; omega)
    rw [← hchar]
    exact .two (by omega) (isTail_iff.2 (by omega))
  split
  · have hfirst := hbyte (n / 4096 % 16 + 0xE0) (by omega)
    generalize UInt8.ofNat (n / 4096 % 16 + 0xE0) = first at hfirst ⊢
    have hchar : charOf (first.toNat - 0xE0) [middle, last] = Char.ofNat n :=
      charOf_eq (by simp only [List.foldl_cons, List.foldl_nil]; omega)
    rw [← hchar]
    exact .three (by omega) (mayFollow3_iff.2 (by omega)) (isTail_iff.2 (by omega))
  · have hfirst := hbyte (n / 262144 % 8 + 0xF0) (by omega)
    generalize UInt8.ofNat (n / 262144 % 8 + 0xF0) = first at hfirst ⊢
    have hchar : charOf (first.toNat - 0xF0) [second, middle, last] = Char.ofNat n :=
      charOf_eq (by simp only [List.foldl_cons, List.foldl_nil]; omega)
    rw [← hchar]
    exact .four (by omega) (mayFollow4_iff.2 (by omega)) (isTail_iff.2 (by omega))
      (isTail_iff.2 (by omega))

/-! ## Texts -/

theorem bytes_cons (x : Char) (t : Text) : Text.bytes (x :: t) = utf8EncodeChar x ++ t.bytes := rfl

/-- Reading takes the bytes of a character off at once. -/
theorem Spells.textFrom?_eq (h : Spells lead x) (read : Text) (bs : Bytes) :
    textFrom? read (lead ++ bs) = textFrom? (x :: read) bs := by
  rw [textFrom?.eq_def]
  cases h
  all_goals
    simp only [List.cons_append, List.nil_append, UInt8.lt_iff_toNat_lt, UInt8.le_iff_toNat_le,
      UInt8.reduceToNat, Bool.and_eq_true, decide_eq_true_eq]
  case one ha => rw [if_pos ha]
  case two ha hb => rw [if_neg (by omega), if_pos ha, if_pos hb]
  case three ha hb hc => rw [if_neg (by omega), if_neg (by omega), if_pos ha, if_pos ⟨hb, hc⟩]
  case four ha hb hc hd =>
    rw [if_neg (by omega), if_neg (by omega), if_neg (by omega), if_pos ⟨⟨⟨ha, hb⟩, hc⟩, hd⟩]

/-- A text that is read goes on where a character of it ends. -/
theorem Spells.exists_bytes (h : Spells lead x)
    (hrest : ∃ u, t = (x :: read).reverse ++ u ∧ bs = Text.bytes u) :
    ∃ u, t = read.reverse ++ u ∧ lead ++ bs = Text.bytes u := by
  obtain ⟨u, rfl, rfl⟩ := hrest
  exact ⟨x :: u, by simp, by rw [bytes_cons, h.encode_eq]⟩

theorem exists_bytes_of_textFrom? (h : textFrom? read bs = some t) :
    ∃ u, t = read.reverse ++ u ∧ bs = Text.bytes u := by
  fun_induction textFrom? read bs with
  | case1 read => exact ⟨[], by simpa using h.symm, rfl⟩
  | case2 read a bs ha ih => exact (Spells.one (UInt8.lt_iff_toNat_lt.1 ha)).exists_bytes (ih h)
  | case4 read a _ b bs ha hb ih =>
    simp only [Bool.and_eq_true, decide_eq_true_eq, UInt8.le_iff_toNat_le] at ha
    exact (Spells.two ha hb).exists_bytes (ih h)
  | case7 read a _ b _ c bs ha hbc ih =>
    simp only [Bool.and_eq_true, decide_eq_true_eq, UInt8.le_iff_toNat_le] at ha hbc
    exact (Spells.three ha hbc.1 hbc.2).exists_bytes (ih h)
  | case10 read a _ b _ c _ d bs habcd ih =>
    simp only [Bool.and_eq_true, decide_eq_true_eq, UInt8.le_iff_toNat_le] at habcd
    obtain ⟨⟨⟨ha, hb⟩, hc⟩, hd⟩ := habcd
    exact (Spells.four ha hb hc hd).exists_bytes (ih h)
  | _ => cases h

theorem textFrom?_bytes (read t : Text) : textFrom? read t.bytes = some (read.reverse ++ t) := by
  induction t generalizing read with
  | nil =>
    rw [List.append_nil]
    exact textFrom?.eq_1 read
  | cons x t ih =>
    rw [bytes_cons, (spells_encode x).textFrom?_eq, ih]
    simp

/-- **Bytes are read as a text exactly if writing the text gives them.** -/
theorem text?_eq_some_iff : text? bs = some t ↔ bs = t.bytes := by
  constructor
  · intro h
    obtain ⟨u, rfl, hbs⟩ := exists_bytes_of_textFrom? h
    exact hbs
  · rintro rfl
    exact textFrom?_bytes [] t

theorem text?_eq_none_iff : text? bs = none ↔ ∀ t : Text, bs ≠ t.bytes := by
  simp only [Option.eq_none_iff_forall_ne_some, ne_eq, text?_eq_some_iff]

/-! ## Lines -/

/-- Whether bytes are cut into lines. A line runs up to and including a line feed, and the last line
may lack it. -/
inductive CutInto : Bytes → List Bytes → Prop where
  | nil : CutInto [] []
  | last {line : Bytes} (hne : line ≠ []) (hline : lineFeed ∉ line) : CutInto line [line]
  | line {front rest : Bytes} {lines : List Bytes} (hfront : lineFeed ∉ front)
      (hrest : CutInto rest lines) :
      CutInto (front ++ lineFeed :: rest) ((front ++ [lineFeed]) :: lines)

theorem lines_append_lineFeed (h : lineFeed ∉ bs) (rest : Bytes) :
    lines (bs ++ lineFeed :: rest) = (bs ++ [lineFeed]) :: lines rest := by
  induction bs with
  | nil => rw [List.nil_append, lines, if_pos rfl, List.nil_append]
  | cons b bs ih =>
    obtain ⟨hb, hbs⟩ := not_or.1 (mt List.mem_cons.2 h)
    rw [List.cons_append, lines, if_neg (Ne.symm hb), ih hbs]
    rfl

theorem lines_of_not_mem (hne : bs ≠ []) (h : lineFeed ∉ bs) : lines bs = [bs] := by
  induction bs with
  | nil => exact absurd rfl hne
  | cons b bs ih =>
    obtain ⟨hb, hbs⟩ := not_or.1 (mt List.mem_cons.2 h)
    rw [lines, if_neg (Ne.symm hb)]
    cases bs with
    | nil => rfl
    | cons b' bs => rw [ih (List.cons_ne_nil _ _) hbs]

theorem CutInto.lines_eq {ls : List Bytes} (h : CutInto bs ls) : lines bs = ls := by
  induction h with
  | nil => rfl
  | last hne hline => exact lines_of_not_mem hne hline
  | line hfront _ ih => rw [lines_append_lineFeed hfront, ih]

theorem exists_cutInto (bs : Bytes) : ∃ ls, CutInto bs ls := by
  induction hlength : bs.length using Nat.strongRecOn generalizing bs with
  | _ n ih =>
    by_cases hmem : lineFeed ∈ bs
    · obtain ⟨front, rest, rfl, hfront⟩ := List.eq_append_cons_of_mem hmem
      obtain ⟨ls, hls⟩ := ih rest.length
        (by simp only [List.length_append, List.length_cons] at hlength; omega) rest rfl
      exact ⟨_, .line hfront hls⟩
    · by_cases hne : bs = []
      · exact ⟨[], hne ▸ .nil⟩
      · exact ⟨[bs], .last hne hmem⟩

/-- **The lines of bytes are what they are cut into.** -/
theorem lines_eq_iff {ls : List Bytes} : lines bs = ls ↔ CutInto bs ls := by
  constructor
  · rintro rfl
    obtain ⟨ls, hls⟩ := exists_cutInto bs
    rwa [hls.lines_eq]
  · exact CutInto.lines_eq

end Unreached.Bytes

import Unreached.Alias.Tsconfig
import Unreached.Proofs.Specifiers

/-!
# What aliases with a star give

A star at the end of an alias stands for the rest of a specifier, and one at the end of its target
for where the rest goes. The target is normalised before the rest is attached, and the rest is
attached after a slash.

* `Path.normal_append`, `Path.segments_joined_normal` : a path may be normalised in parts;
* `Alias.Rule.segments_substitute` : a rule gives the segments of its target and then those of the
  rest;
* `wildcard_substitutes` : the location of a specifier is that of the target followed by a slash and
  the rest.
-/

namespace Unreached

set_option autoImplicit false

/-! ## Normal forms -/

namespace Path
variable {stack segs : List Text} {path s : Text} {c : Char}

theorem mem_clampedWalk (h : s ∈ clampedWalk stack segs) :
    s ∈ stack ∨ (s ∈ segs ∧ s ≠ here ∧ s ≠ up) := by
  fun_induction clampedWalk stack segs with
  | case1 => exact .inl h
  | case2 stack segs ih => exact (ih h).imp_right fun h => ⟨List.mem_cons_of_mem _ h.1, h.2⟩
  | case3 stack segs _ ih =>
    exact (ih h).imp List.mem_of_mem_tail fun h => ⟨List.mem_cons_of_mem _ h.1, h.2⟩
  | case4 stack t segs hhere hup ih =>
    rcases ih h with h | h
    · rcases List.mem_cons.1 h with rfl | h
      · exact .inr ⟨List.mem_cons_self, hhere, hup⟩
      · exact .inl h
    · exact .inr ⟨List.mem_cons_of_mem _ h.1, h.2⟩

theorem of_mem_normal (h : s ∈ normal path) : s ∈ segments path ∧ s ≠ here ∧ s ≠ up :=
  (mem_clampedWalk (List.mem_reverse.1 h)).resolve_left List.not_mem_nil

/-- A path that is already normalised up to some point may be normalised from there. -/
theorem normal_append (path rest : Text) :
    normal (path ++ '/' :: rest) = (clampedWalk (normal path).reverse (segments rest)).reverse := by
  rw [normal, segments_append, clampedWalk_append, normal, List.reverse_reverse]

theorem segments_joined_normal (path : Text) :
    segments ('/' :: joined (normal path)) = normal path := by
  rw [segments_cons, segments_joined fun s hs => isSegment_of_mem_segments (of_mem_normal hs).1]

theorem segments_dropSlashes (path : Text) :
    segments (path.dropWhile (· = '/')) = segments path := by
  induction path with
  | nil => rfl
  | cons c path ih =>
    by_cases hc : c = '/'
    · rw [List.dropWhile_cons_of_pos (by simpa using hc), ih, hc, segments_cons]
    · rw [List.dropWhile_cons_of_neg (by simpa using hc)]

/-- Normalising a path brings no characters in. -/
theorem mem_of_mem_joined_normal (h : c ∈ joined (normal path)) : c = '/' ∨ c ∈ path := by
  refine (mem_joined h).imp_right fun ⟨s, hs, hc⟩ => ?_
  exact Text.mem_of_mem_splitOn (List.mem_filter.1 (of_mem_normal hs).1).1 hc

end Path

/-! ## Rules -/

theorem Text.replaceChar_of_not_mem {a b : Char} {t : Text} (h : a ∉ t) :
    Text.replaceChar a b t = t := by
  have hkept : ∀ c ∈ t, (if c = a then b else c) = id c := fun c hc =>
    if_neg (show c ≠ a from fun heq => h (heq ▸ hc))
  rw [Text.replaceChar, List.map_congr_left hkept, List.map_id]

theorem Tsconfig.dropStars_append_star {t : Text} (h : '*' ∉ t) :
    Tsconfig.dropStars (t ++ ['*']) = t := by
  unfold Tsconfig.dropStars Text.dropEndWhile
  rw [List.reverse_append, List.reverse_singleton, List.singleton_append,
    List.dropWhile_cons_of_pos (by decide)]
  cases hrev : t.reverse with
  | nil => simpa using hrev.symm
  | cons c t' =>
    have hc : c ∈ t := List.mem_reverse.1 (hrev ▸ List.mem_cons_self)
    rw [List.dropWhile_cons_of_neg (by simpa using fun heq : c = '*' => h (heq ▸ hc)), ← hrev,
      List.reverse_reverse]

/-- A rule gives the segments of its target and then those of the rest of the specifier. -/
theorem Alias.Rule.segments_substitute (rule : Alias.Rule) (rest : Text) :
    Path.segments (rule.substitute (rule.lead ++ rest)) =
      Path.segments rule.target ++ Path.segments rest := by
  unfold Alias.Rule.substitute
  dsimp only
  rw [Text.after?_append, Option.getD_some]
  cases rest with
  | nil => simp [Path.segments]
  | cons c rest =>
    rw [← Path.segments_dropSlashes (c :: rest)]
    split
    · rw [List.append_assoc, List.singleton_append, Path.segments_append]
    · next hslash =>
      obtain ⟨front, hfront⟩ : ['/'] <:+ rule.target := by simpa [Text.endsWith] using hslash
      rw [← hfront, List.append_nil, Path.segments_concat_slash, List.append_assoc,
        List.singleton_append, Path.segments_append]

/-- A rule whose target is normalised gives the location of the path that the target stands for. -/
theorem Alias.Rule.normal_substitute (rule : Alias.Rule) {path : Text}
    (h : Path.segments rule.target = Path.normal path) (rest : Text) :
    Path.normal (rule.substitute (rule.lead ++ rest)) = Path.normal (path ++ '/' :: rest) := by
  have hnames : ∀ s ∈ Path.normal path, s ≠ Path.here ∧ s ≠ Path.up :=
    fun s hs => (Path.of_mem_normal hs).2
  rw [Path.normal_append, Path.normal, rule.segments_substitute, Path.clampedWalk_append, h,
    Path.clampedWalk_of_names hnames, List.append_nil]

namespace Tsconfig
variable {dir baseUrl target : Text}

/-- The path of a target as it is written. -/
def targetPath (dir baseUrl target : Text) : Text := '/' :: dir ++ '/' :: baseUrl ++ '/' :: target

theorem segments_location (keepSlash : Bool)
    (h : '\\' ∉ targetPath dir baseUrl (dropStars target)) :
    Path.segments (location dir baseUrl target keepSlash) =
      Path.normal (targetPath dir baseUrl (dropStars target)) := by
  have hplain : Text.replaceChar '\\' '/'
      ('/' :: Path.joined (Path.normal (targetPath dir baseUrl (dropStars target)))) =
      '/' :: Path.joined (Path.normal (targetPath dir baseUrl (dropStars target))) := by
    refine Text.replaceChar_of_not_mem fun hmem => ?_
    rcases List.mem_cons.1 hmem with heq | hmem
    · exact absurd heq (by decide)
    · exact (Path.mem_of_mem_joined_normal hmem).elim (by decide) h
  unfold location
  dsimp only
  rw [← targetPath, hplain]
  split
  · rw [Path.segments_concat_slash, Path.segments_joined_normal]
  · exact Path.segments_joined_normal _

theorem rulesOf_star (dir baseUrl : Text) {lead : Text} (h : '*' ∉ lead) (targets : List Text) :
    rulesOf dir baseUrl (lead ++ ['*']) targets =
      targets.map fun target =>
        ⟨lead, location dir baseUrl target (lead.endsWith ['/']), true⟩ := by
  have hends : (lead ++ ['*']).endsWith ['*'] = true :=
    List.isSuffixOf_iff_suffix.2 (List.suffix_append _ _)
  rw [rulesOf, dropStars_append_star h, hends]

theorem mem_table {doc : Tsconfig} {key : Text} {targets : List Text} {rule : Alias.Rule}
    (hkey : (key, targets) ∈ doc.paths) (htarget : target ∈ targets)
    (hrule : rulesOf dir (doc.baseUrl.getD ['.']) key [target] = [rule]) :
    rule ∈ (doc.table dir).rules := by
  refine List.mem_flatMap.2 ⟨(key, targets), hkey, List.mem_map.2 ⟨target, htarget, ?_⟩⟩
  exact List.head_eq_of_cons_eq hrule

end Tsconfig

/-- **What an alias with a star gives.** Take the alias `lead*` of a document with the target
`target*`, neither with another star. The rule for them covers every specifier that starts with
`lead`, and the location that it gives is that of the target, read from the base URL and from the
directory of the document, followed by a slash and the rest of the specifier. So the rest takes the
place of the star wherever the star follows a slash or the rest starts with one. -/
theorem wildcard_substitutes (doc : Tsconfig) (dir lead target rest : Text) (targets : List Text)
    (hkey : (lead ++ ['*'], targets) ∈ doc.paths) (htarget : target ++ ['*'] ∈ targets)
    (hlead : '*' ∉ lead) (hstar : '*' ∉ target)
    (hplain : ∀ t ∈ [dir, doc.baseUrl.getD ['.'], target], '\\' ∉ t) :
    ∃ rule,
      Tsconfig.rulesOf dir (doc.baseUrl.getD ['.']) (lead ++ ['*']) [target ++ ['*']] = [rule] ∧
      (∀ text, Tsconfig.read? text = some doc →
        ∃ table, Alias.Table.read? text dir = some table ∧ rule ∈ table.rules) ∧
      rule.covers (lead ++ rest) ∧
      Path.normal (rule.substitute (lead ++ rest)) =
        Path.normal (Tsconfig.targetPath dir (doc.baseUrl.getD ['.']) target ++ '/' :: rest) ∧
      (target = [] ∨ target.endsWith ['/'] ∨ rest = [] ∨ rest.startsWith ['/'] →
        Path.normal (rule.substitute (lead ++ rest)) =
          Path.normal (Tsconfig.targetPath dir (doc.baseUrl.getD ['.']) target ++ rest)) := by
  have hrule := Tsconfig.rulesOf_star dir (doc.baseUrl.getD ['.']) hlead [target ++ ['*']]
  refine ⟨_, hrule, fun text htext => ⟨doc.table dir, ?_, Tsconfig.mem_table hkey htarget hrule⟩,
    ?_, ?_⟩
  · rw [Alias.Table.read?, htext, Option.map_some]
  · exact List.isPrefixOf_iff_prefix.2 (List.prefix_append lead rest)
  generalize doc.baseUrl.getD ['.'] = baseUrl at hplain ⊢
  have hpath : '\\' ∉ Tsconfig.targetPath dir baseUrl (Tsconfig.dropStars (target ++ ['*'])) := by
    rw [Tsconfig.dropStars_append_star hstar]
    simpa [Tsconfig.targetPath] using hplain
  have hsegments := Tsconfig.segments_location (lead.endsWith ['/']) hpath
  rw [Tsconfig.dropStars_append_star hstar] at hsegments
  have hnormal := Alias.Rule.normal_substitute ⟨lead, _, true⟩ hsegments rest
  refine ⟨hnormal, fun hslash => hnormal.trans ?_⟩
  have hends : (Tsconfig.targetPath dir baseUrl target).endsWith ['/'] ∨ rest = [] ∨
      rest.startsWith ['/'] := by
    rcases hslash with rfl | hslash | hrest
    · exact .inl (List.isSuffixOf_iff_suffix.2 (List.suffix_append _ ['/']))
    · refine .inl (List.isSuffixOf_iff_suffix.2 ?_)
      have hsuffix : ['/'] <:+ target := List.isSuffixOf_iff_suffix.1 hslash
      exact hsuffix.trans ((List.suffix_cons '/' target).trans (List.suffix_append _ _))
    · exact .inr hrest
  rw [Path.normal, Path.normal, Path.segments_append_of_slash hends, Path.segments_append]

/-! ### Aliases with and without a slash before the star -/

/-- A document with the aliases `@/*` and `@app-*`. -/
def starDoc : Tsconfig where
  baseUrl := some "web".toList
  paths := [("@/*".toList, ["../lib/*".toList]), ("@app-*".toList, ["src/app-*".toList])]

theorem wildcard_substitutes_starDoc :
    ("@/*".toList, ["../lib/*".toList]) ∈ starDoc.paths ∧
      ∃ rule, Tsconfig.rulesOf [] "web".toList "@/*".toList ["../lib/*".toList] = [rule] ∧
        Path.normal (rule.substitute "@/../date".toList) = ["date".toList] := by
  have hkey : ("@/*".toList, ["../lib/*".toList]) ∈ starDoc.paths := List.mem_cons_self
  obtain ⟨rule, hrule, -, -, -, hlocation⟩ :=
    wildcard_substitutes starDoc [] "@/".toList "../lib/".toList "../date".toList
      ["../lib/*".toList] hkey (List.mem_singleton_self _) (by decide) (by decide) (by decide)
  exact ⟨hkey, rule, hrule, (hlocation (.inr (.inl (by decide)))).trans (by decide +kernel)⟩

/-- The rest of a specifier is attached after a slash, also where none precedes the star. -/
theorem wildcard_inserts_slash :
    ¬∀ (dir baseUrl lead target rest : Text) (rule : Alias.Rule),
      Tsconfig.rulesOf dir baseUrl (lead ++ ['*']) [target ++ ['*']] = [rule] →
        '*' ∉ lead → '*' ∉ target →
        (∀ t ∈ [dir, baseUrl, lead, target], '\\' ∉ t) →
        Path.normal (rule.substitute (lead ++ rest)) =
          Path.normal (Tsconfig.targetPath dir baseUrl target ++ rest) := by
  intro h
  have hlocation := h [] ".".toList "@app-".toList "src/app-".toList "core".toList
    ⟨"@app-".toList, "/src/app-".toList, true⟩ (by decide +kernel) (by decide) (by decide)
    (by decide)
  exact absurd hlocation (by decide +kernel)

end Unreached

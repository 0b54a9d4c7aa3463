import Mathlib.Data.List.Nodup
import Unreached.Proofs.Resolution
import Unreached.Proofs.Specifiers

/-!
# Files at the locations of a specifier

A specifier names locations, and a file is at a location by one of three readings.

* `Specifier.locations`, `SourceFile.At` : the locations that a specifier names by walks, and the
  files at a location;
* `Specifier.readings` : the readings of a specifier in the order in which they are tried. The first
  that finds a file decides (`Inventory.resolve?_eq`);
* `Specifier.exists_reading`, `Specifier.at_of_reading` : the files at a location are those at the
  place of a reading;
* `location_preferred` : a file that only ends like a specifier is found instead of those at its
  locations by a reading that comes before theirs, and by no other.
-/

namespace Unreached

set_option autoImplicit false

/-! ## The last segment of a path -/

namespace Path
variable {name : Text} {segs front tail : List Text}

theorem ofSegments_append (front tail : List Text) :
    ofSegments (front ++ tail) = ofSegments front ++ ofSegments tail :=
  List.flatMap_append

theorem ofSegments_concat (segs : List Text) (name : Text) :
    ofSegments (segs ++ [name]) = ofSegments segs ++ '/' :: name := by
  simp [ofSegments]

theorem ofSegments_isEmpty (segs : List Text) : (ofSegments segs).isEmpty = segs.isEmpty := by
  cases segs <;> rfl

theorem dirPart_concat (segs : List Text) (h : '/' ∉ name) :
    dirPart (ofSegments (segs ++ [name])) = ofSegments segs ++ ['/'] := by
  have hname : ∀ c ∈ name.reverse, decide (c ≠ '/') = true := by
    intro c hc
    simpa using fun heq : c = '/' => h (heq ▸ List.mem_reverse.1 hc)
  rw [dirPart, ofSegments_concat, List.reverse_append, List.reverse_cons, List.append_assoc,
    List.dropWhile_append_of_pos hname]
  simp

theorem namePart_concat (segs : List Text) (h : '/' ∉ name) :
    namePart (ofSegments (segs ++ [name])) = name := by
  have hparts := dirPart_append_namePart (ofSegments (segs ++ [name]))
  rw [dirPart_concat segs h, List.append_assoc] at hparts
  conv_rhs at hparts => rw [ofSegments_concat]
  simpa using hparts

theorem stem_concat (segs : List Text) (h : '/' ∉ name) :
    stem (ofSegments (segs ++ [name])) = ofSegments segs ++ '/' :: (splitName name).1 := by
  rw [stem, dirPart_concat segs h, namePart_concat segs h, List.append_assoc]
  rfl

theorem hasSourceExtension_concat (segs : List Text) (h : '/' ∉ name) :
    hasSourceExtension (ofSegments (segs ++ [name])) =
      (splitName name).2.any sourceExtensions.contains := by
  rw [hasSourceExtension, extension?, namePart_concat segs h]

/-- The extension of a path is that of every end of it. -/
theorem hasSourceExtension_append (front : List Text) (htail : ∀ s ∈ tail, IsSegment s)
    (hne : tail ≠ []) :
    hasSourceExtension (ofSegments (front ++ tail)) = hasSourceExtension (ofSegments tail) := by
  obtain ⟨segs, name, rfl⟩ := (List.eq_nil_or_concat' tail).resolve_left hne
  have hslash : '/' ∉ name := (htail name (by simp)).2
  rw [← List.append_assoc, hasSourceExtension_concat _ hslash, hasSourceExtension_concat _ hslash]

end Path

/-! ## Files at a location -/

namespace SourceFile

/-- Whether a file is at a location: its stem is the location, or the location without its source
extension, or the index of the location. -/
def At (file : SourceFile) (location : List Text) : Prop :=
  file.stem = Path.ofSegments location ∨
    (hasSourceExtension (Path.ofSegments location) ∧
      file.stem = Path.stem (Path.ofSegments location)) ∨
    file.stem = Path.ofSegments location ++ "/index".toList

instance (file : SourceFile) : DecidablePred file.At := fun location =>
  inferInstanceAs (Decidable (file.stem = Path.ofSegments location ∨
    (hasSourceExtension (Path.ofSegments location) ∧
      file.stem = Path.stem (Path.ofSegments location)) ∨
    file.stem = Path.ofSegments location ++ "/index".toList))

end SourceFile

namespace Probe
variable {front tail : List Text} {file : SourceFile} {r : Probe}

/-- The probe of a location whose last segments are `tail`. -/
def ofLocation (front tail : List Text) : Probe :=
  ⟨Path.ofSegments tail, some (Path.ofSegments (front ++ tail))⟩

theorem variants_eq (hne : tail ≠ []) (place? : Option Text) :
    variants ⟨Path.ofSegments tail, place?⟩ =
      ⟨Path.ofSegments tail, place?⟩ ::
        ((if hasSourceExtension (Path.ofSegments tail) then
            [.map Path.stem ⟨Path.ofSegments tail, place?⟩] else []) ++
          [.map (· ++ "/index".toList) ⟨Path.ofSegments tail, place?⟩]) := by
  unfold variants
  rw [Path.ofSegments_isEmpty, if_neg (by simpa using hne)]
  split <;> rfl

theorem mem_variants_ofLocation (hne : tail ≠ []) :
    r ∈ (ofLocation front tail).variants ↔ r = ofLocation front tail ∨
      (hasSourceExtension (Path.ofSegments tail) ∧ r = (ofLocation front tail).map Path.stem) ∨
      r = (ofLocation front tail).map (· ++ "/index".toList) := by
  unfold ofLocation
  rw [variants_eq hne]
  split <;> simp_all

theorem place?_of_mem_variants {p : Probe} (hr : r ∈ p.variants) (hp : p.place? = none) :
    r.place? = none := by
  unfold variants at hr
  repeat' split at hr
  all_goals
    simp only [List.nil_append, List.cons_append, List.mem_cons, List.not_mem_nil, or_false] at hr
    rcases hr with rfl | rfl | rfl <;> simp [Probe.map, hp]

theorem exists_variant_of_at (htail : ∀ s ∈ tail, Path.IsSegment s) (hat : file.At (front ++ tail))
    (hindex : tail = [] → file.stem = Path.ofSegments (front ++ tail) ++ "/index".toList) :
    ∃ r ∈ (ofLocation front tail).variants, r.place? = some file.stem := by
  by_cases hne : tail = []
  · subst hne
    exact ⟨_, List.mem_singleton_self _, congrArg some (hindex rfl).symm⟩
  · simp only [mem_variants_ofLocation hne]
    rcases hat with hat | ⟨hextension, hat⟩ | hat
    · exact ⟨_, .inl rfl, congrArg some hat.symm⟩
    · rw [Path.hasSourceExtension_append front htail hne] at hextension
      exact ⟨_, .inr (.inl ⟨hextension, rfl⟩), congrArg some hat.symm⟩
    · exact ⟨_, .inr (.inr rfl), congrArg some hat.symm⟩

theorem at_of_variant (htail : ∀ s ∈ tail, Path.IsSegment s)
    (hr : r ∈ (ofLocation front tail).variants) (hplace : r.place? = some file.stem) :
    file.At (front ++ tail) := by
  by_cases hne : tail = []
  · subst hne
    obtain rfl := List.mem_singleton.1 hr
    exact .inr (.inr (Option.some.inj hplace).symm)
  · rcases (mem_variants_ofLocation hne).1 hr with rfl | ⟨hextension, rfl⟩ | rfl
    · exact .inl (Option.some.inj hplace).symm
    · rw [← Path.hasSourceExtension_append front htail hne] at hextension
      exact .inr (.inl ⟨hextension, (Option.some.inj hplace).symm⟩)
    · exact .inr (.inr (Option.some.inj hplace).symm)

end Probe

/-! ## The readings of a specifier -/

namespace Specifier
variable {aliases : Alias.Table} {spec importer : Text} {location : List Text} {file : SourceFile}
  {r : Probe}

/-- Whether aliases apply to a specifier. -/
def isBare (spec : Text) : Bool := !isRelative spec && !isAnchored spec

/-- The locations that a specifier names. -/
def locations (aliases : Alias.Table) (spec importer : Text) : List (List Text) :=
  if isRelative spec then (location? importer spec).toList
  else if isAnchored spec then [Path.normal spec]
  else (aliases.candidates spec).filterMap fun rule => Path.fromRoot? (rule.substitute spec)

/-- The probes of a specifier, in the order in which they are tried. -/
def probes (aliases : Alias.Table) (spec importer : Text) : List Probe :=
  if isRelative spec then [.relative spec importer]
  else if isAnchored spec then [.anchored spec]
  else (aliases.candidates spec).map fun rule =>
    .relative (relativize importer (rule.substitute spec)) importer

/-- The readings of a specifier, in the order in which they are tried. -/
def readings (aliases : Alias.Table) (spec importer : Text) : List Probe :=
  (probes aliases spec importer).flatMap Probe.variants

theorem not_isAnchored (h : isRelative spec) : isAnchored spec = false := by
  refine Bool.eq_false_iff.2 fun hanchored => ?_
  cases spec with
  | nil => simp [isAnchored, Text.startsWith] at hanchored
  | cons c spec =>
    obtain rfl : '/' = c := by simpa [isAnchored, Text.startsWith] using hanchored
    simp [isRelative, Path.here, Path.up, Text.startsWith] at h

/-- Whether a file is on a path of names and in none of the directories at the locations of a
specifier. -/
structure LiesOutside (aliases : Alias.Table) (spec importer : Text) : Prop where
  direct : Path.Direct importer
  outside : ∀ location ∈ locations aliases spec importer,
    ¬location <+: (Path.segments importer).dropLast

theorem relative_of_location? (h : location? importer spec = some location) :
    ∃ front, location = front ++ (split spec).2 ∧ front <+: (Path.segments importer).dropLast ∧
      Probe.relative spec importer = .ofLocation front (split spec).2 := by
  obtain ⟨front, rfl, hprefix⟩ := location?_append h
  refine ⟨front, rfl, hprefix, ?_⟩
  rw [relative_eq, h]
  rfl

theorem anchored_eq (spec : Text) : Probe.anchored spec = .ofLocation [] (split spec).2 := rfl

theorem relative_cases (spec importer : Text) :
    (Probe.relative spec importer).place? = none ∨
      ∃ front, location? importer spec = some (front ++ (split spec).2) ∧
        Probe.relative spec importer = .ofLocation front (split spec).2 := by
  cases hlocation : location? importer spec with
  | none =>
    left
    rw [relative_eq, hlocation]
    rfl
  | some location =>
    obtain ⟨front, rfl, -, hprobe⟩ := relative_of_location? hlocation
    exact .inr ⟨front, rfl, hprobe⟩

/-- The specifier made for a location has a tail, unless the file is in a directory at that
location. -/
theorem relative_relativize {target : Text} (himporter : Path.Direct importer)
    (htarget : Path.fromRoot? target = some location)
    (houtside : ¬location <+: (Path.segments importer).dropLast) :
    ∃ front tail, location = front ++ tail ∧ tail ≠ [] ∧ (∀ s ∈ tail, Path.IsSegment s) ∧
      Probe.relative (relativize importer target) importer = .ofLocation front tail := by
  obtain ⟨front, rfl, hprefix, hprobe⟩ :=
    relative_of_location? ((himporter.location?_relativize target).trans htarget)
  refine ⟨front, _, rfl, fun hnil => houtside ?_, isSegment_split _, hprobe⟩
  rwa [hnil, List.append_nil]

/-- Every location that a specifier names has a probe. Only specifiers that descend nowhere have one
without a tail. -/
theorem exists_probe (hbare : isBare spec → LiesOutside aliases spec importer)
    (hlocation : location ∈ locations aliases spec importer) :
    ∃ front tail, .ofLocation front tail ∈ probes aliases spec importer ∧ location = front ++ tail ∧
      (∀ s ∈ tail, Path.IsSegment s) ∧ (tail = [] → isBare spec = false ∧ (split spec).2 = []) := by
  have hmem := hlocation
  unfold locations at hlocation
  unfold probes
  split at hlocation
  · next hrelative =>
    obtain ⟨front, rfl, -, hprobe⟩ := relative_of_location? (Option.mem_toList.1 hlocation)
    refine ⟨front, _, ?_, rfl, isSegment_split spec,
      fun htail => ⟨by simp [isBare, hrelative], htail⟩⟩
    rw [if_pos hrelative, hprobe]
    exact List.mem_singleton_self _
  · next hrelative =>
    split at hlocation
    · next hanchored =>
      obtain rfl : location = (split spec).2 :=
        (List.mem_singleton.1 hlocation).trans (split_snd spec).symm
      refine ⟨[], _, ?_, rfl, isSegment_split spec,
        fun htail => ⟨by simp [isBare, hanchored], htail⟩⟩
      rw [if_neg hrelative, if_pos hanchored, anchored_eq]
      exact List.mem_singleton_self _
    · next hanchored =>
      obtain ⟨hdirect, houtside⟩ := hbare (by simp [isBare, hrelative, hanchored])
      obtain ⟨rule, hrule, hroot⟩ := List.mem_filterMap.1 hlocation
      obtain ⟨front, tail, hlocation, hne, hsegments, hprobe⟩ :=
        relative_relativize hdirect hroot (houtside _ hmem)
      refine ⟨front, tail, ?_, hlocation, hsegments, fun htail => absurd htail hne⟩
      rw [if_neg hrelative, if_neg hanchored, ← hprobe]
      exact List.mem_map_of_mem hrule

/-- A probe whose place is known is that of a location that the specifier names. -/
theorem probe_cases (hbare : isBare spec → Path.Direct importer) {p : Probe}
    (hp : p ∈ probes aliases spec importer) :
    p.place? = none ∨ ∃ front tail, p = .ofLocation front tail ∧
      front ++ tail ∈ locations aliases spec importer ∧
      ∀ s ∈ tail, Path.IsSegment s := by
  unfold probes at hp
  unfold locations
  split at hp
  · next hrelative =>
    obtain rfl := List.mem_singleton.1 hp
    refine (relative_cases spec importer).imp_right fun ⟨front, hlocation, hprobe⟩ => ?_
    refine ⟨front, _, hprobe, ?_, isSegment_split spec⟩
    rw [if_pos hrelative]
    exact Option.mem_toList.2 hlocation
  · next hrelative =>
    rw [if_neg hrelative]
    split at hp
    · next hanchored =>
      refine .inr ⟨[], (split spec).2, List.mem_singleton.1 hp, ?_, isSegment_split spec⟩
      rw [if_pos hanchored, List.nil_append, split_snd]
      exact List.mem_singleton_self _
    · next hanchored =>
      obtain ⟨rule, hrule, rfl⟩ := List.mem_map.1 hp
      have hdirect := hbare (by simp [isBare, hrelative, hanchored])
      refine (relative_cases _ importer).imp_right fun ⟨front, hlocation, hprobe⟩ => ?_
      refine ⟨front, _, hprobe, ?_, isSegment_split _⟩
      rw [if_neg hanchored]
      exact List.mem_filterMap.2
        ⟨rule, hrule, (hdirect.location?_relativize _).symm.trans hlocation⟩

/-- A file at a location that a specifier names is at the place of one of its readings. -/
theorem exists_reading (hbare : isBare spec → LiesOutside aliases spec importer)
    (hlocation : location ∈ locations aliases spec importer) (hat : file.At location)
    (hindex : isBare spec = false → (split spec).2 = [] →
      file.stem = Path.ofSegments location ++ "/index".toList) :
    ∃ r ∈ readings aliases spec importer, r.place? = some file.stem := by
  obtain ⟨front, tail, hprobe, rfl, hsegments, hnil⟩ := exists_probe hbare hlocation
  obtain ⟨r, hr, hplace⟩ := Probe.exists_variant_of_at hsegments hat fun htail =>
    hindex (hnil htail).1 (hnil htail).2
  exact ⟨r, List.mem_flatMap.2 ⟨_, hprobe, hr⟩, hplace⟩

/-- A file at the place of a reading is at a location that the specifier names. -/
theorem at_of_reading (hbare : isBare spec → Path.Direct importer)
    (hr : r ∈ readings aliases spec importer) (hplace : r.place? = some file.stem) :
    ∃ location ∈ locations aliases spec importer, file.At location := by
  obtain ⟨p, hp, hr⟩ := List.mem_flatMap.1 hr
  rcases probe_cases hbare hp with hnone | ⟨front, tail, rfl, hlocation, hsegments⟩
  · rw [Probe.place?_of_mem_variants hr hnone] at hplace
    cases hplace
  · exact ⟨_, hlocation, Probe.at_of_variant hsegments hr hplace⟩

end Specifier

/-! ## What resolution prefers -/

theorem findSome?_flatMap {α β γ : Type} (f : α → List β) (g : β → Option γ) (xs : List α) :
    (xs.flatMap f).findSome? g = xs.findSome? fun x => (f x).findSome? g := by
  induction xs with
  | nil => rfl
  | cons x xs ih =>
    rw [List.flatMap_cons, List.findSome?_append, ih, List.findSome?_cons]
    cases (f x).findSome? g <;> rfl

namespace Inventory
variable {inv : Inventory} {anywhere : Bool} {r : Probe} {file found : SourceFile} {stem : Text}
  {fits : SourceFile → Bool}

/-- **The first reading that finds a file decides.** -/
theorem resolve?_eq (inv : Inventory) (aliases : Alias.Table) (spec importer : Text) :
    inv.resolve? aliases spec importer =
      (Specifier.readings aliases spec importer).findSome?
        (inv.match? (!Specifier.isAnchored spec)) := by
  unfold resolve? Specifier.readings Specifier.probes
  split
  · next hrelative => rw [List.flatMap_singleton, Specifier.not_isAnchored hrelative]; rfl
  · split
    · next hanchored => rw [List.flatMap_singleton, hanchored]; rfl
    · next hanchored =>
      rw [Bool.eq_false_iff.2 hanchored, findSome?_flatMap, List.findSome?_map]
      rfl

/-- A specifier that aliases do not apply to is looked up at its location. -/
theorem resolve?_of_location (inv : Inventory) {aliases : Alias.Table} {spec importer : Text}
    {location : List Text} (hbare : Specifier.isBare spec = false)
    (h : location ∈ Specifier.locations aliases spec importer) :
    ∃ front, location = front ++ (Specifier.split spec).2 ∧
      inv.resolve? aliases spec importer =
        inv.probe? (!Specifier.isAnchored spec) (.ofLocation front (Specifier.split spec).2) := by
  unfold Specifier.locations at h
  unfold resolve?
  split at h
  · next hrelative =>
    obtain ⟨front, hfront, -, hprobe⟩ := Specifier.relative_of_location? (Option.mem_toList.1 h)
    refine ⟨front, hfront, ?_⟩
    rw [if_pos hrelative, resolveRelative?, hprobe, Specifier.not_isAnchored hrelative]
    rfl
  · next hrelative =>
    have hanchored : Specifier.isAnchored spec := by simpa [Specifier.isBare, hrelative] using hbare
    rw [if_pos hanchored] at h
    refine ⟨[], (List.mem_singleton.1 h).trans (Specifier.split_snd spec).symm, ?_⟩
    rw [if_neg hrelative, if_pos hanchored, resolveAnchored?, Specifier.anchored_eq, hanchored]
    rfl

theorem of_byStem? (h : inv.byStem? stem = some found) : found ∈ inv.files ∧ found.stem = stem :=
  ⟨List.mem_of_find?_eq_some (find?_of_byStem? h),
    by simpa using List.find?_some (find?_of_byStem? h)⟩

theorem of_bySuffix? {tail : Text} (h : inv.bySuffix? tail = some found) :
    found ∈ inv.files ∧ found.stem.endsWith tail := by
  have hends := List.find?_some h
  exact ⟨List.mem_of_find?_eq_some h, hends⟩

theorem byStem?_isSome (hfile : file ∈ inv.files) :
    ∃ found, inv.byStem? file.stem = some found := by
  rw [byStem?_eq_find?]
  exact Option.isSome_iff_exists.1 (List.find?_isSome.2 ⟨file, hfile, decide_eq_true rfl⟩)

theorem find?_first (h : inv.files.find? fits = some found) (hfile : file ∈ inv.files)
    (hfits : fits file) : ¬file.path < found.path := by
  obtain ⟨-, before, after, hfiles, hbefore⟩ := List.find?_eq_some_iff_append.1 h
  have hascending := inv.ascending
  rw [hfiles] at hfile
  rw [hfiles, Ascending, List.pairwise_append] at hascending
  rcases List.mem_append.1 hfile with hmem | hmem
  · have := hbefore file hmem
    simp [hfits] at this
  · rcases List.mem_cons.1 hmem with rfl | hmem
    · exact List.lt_irrefl _
    · have hlt := (List.pairwise_cons.1 hascending.2.1).1 file hmem
      exact fun hgt => List.lt_irrefl _ (List.lt_trans hlt hgt)

theorem eq_of_path_eq (hfile : file ∈ inv.files) (hfound : found ∈ inv.files)
    (h : file.path = found.path) : file = found :=
  List.inj_on_of_nodup_map inv.nodup_paths hfile hfound h

theorem match?_of_place {place : Text} (h : r.place? = some place) :
    inv.match? anywhere r =
      (inv.byStem? place).or (if anywhere then inv.bySuffix? r.tail else none) := by
  rw [match?, h, Option.bind_some]

theorem probe?_of_place {front tail : List Text} (hne : tail ≠ [])
    (h : inv.byStem? (Path.ofSegments (front ++ tail)) = some found) :
    inv.probe? anywhere (.ofLocation front tail) = some found := by
  rw [probe?, Probe.ofLocation, Probe.variants_eq hne, List.findSome?_cons, match?_of_place rfl, h]
  rfl

theorem place?_ne_of_bind (h : r.place?.bind inv.byStem? = none) (hfile : file ∈ inv.files) :
    r.place? ≠ some file.stem := by
  intro hplace
  obtain ⟨found, hfound⟩ := byStem?_isSome hfile
  rw [hplace, Option.bind_some, hfound] at h
  cases h

theorem match?_none (h : inv.match? anywhere r = none) (hfile : file ∈ inv.files) :
    r.place? ≠ some file.stem :=
  place?_ne_of_bind (Option.or_eq_none_iff.1 h).1 hfile

/-- What a reading finds is at its place, or ends like it if nothing is. -/
theorem match?_some (h : inv.match? anywhere r = some found) :
    r.place? = some found.stem ∨
      (anywhere ∧ found.stem.endsWith r.tail ∧ ∀ file ∈ inv.files, r.place? ≠ some file.stem) := by
  unfold match? at h
  rcases Option.or_eq_some_iff.1 h with h | ⟨hnone, h⟩
  · obtain ⟨place, hplace, h⟩ := Option.bind_eq_some_iff.1 h
    rw [hplace, (of_byStem? h).2]
    exact .inl rfl
  · split at h
    · next hanywhere =>
      exact .inr ⟨hanywhere, (of_bySuffix? h).2, fun file hfile => place?_ne_of_bind hnone hfile⟩
    · cases h

end Inventory

/-- **Files at a location come first.** If a file is at a location that a specifier names, the
specifier finds a file. It is at such a location, unless it only ends like a reading that is tried
before all those with a file at their place. Where aliases apply, this holds from every file outside
of the directories that they lead to; and a specifier that descends nowhere names the index of a
directory only. -/
theorem location_preferred (inv : Inventory) (aliases : Alias.Table) (spec importer : Text)
    (file : SourceFile) (location : List Text)
    (hbare : Specifier.isBare spec → Specifier.LiesOutside aliases spec importer)
    (hfile : file ∈ inv.files) (hlocation : location ∈ Specifier.locations aliases spec importer)
    (hat : file.At location)
    (hindex : Specifier.isBare spec = false → (Specifier.split spec).2 = [] →
      file.stem = Path.ofSegments location ++ "/index".toList) :
    ∃ found, inv.resolve? aliases spec importer = some found ∧
      ((∃ location ∈ Specifier.locations aliases spec importer, found.At location) ∨
        Specifier.isAnchored spec = false ∧ ∃ before r after,
          Specifier.readings aliases spec importer = before ++ r :: after ∧
            found.stem.endsWith r.tail ∧
            ∀ r' ∈ before ++ [r], ∀ f ∈ inv.files, r'.place? ≠ some f.stem) := by
  obtain ⟨reading, hreading, hplace⟩ := Specifier.exists_reading hbare hlocation hat hindex
  rw [inv.resolve?_eq]
  cases hfound : (Specifier.readings aliases spec importer).findSome?
    (inv.match? (!Specifier.isAnchored spec)) with
  | none =>
    have hnone := List.findSome?_eq_none_iff.1 hfound reading hreading
    exact absurd hplace (Inventory.match?_none hnone hfile)
  | some found =>
    obtain ⟨before, r, after, hsplit, hmatch, hbefore⟩ := List.findSome?_eq_some_iff.1 hfound
    refine ⟨found, rfl, ?_⟩
    rcases Inventory.match?_some hmatch with hexact | ⟨hanywhere, hends, hempty⟩
    · refine .inl (Specifier.at_of_reading (fun h => (hbare h).direct) ?_ hexact)
      rw [hsplit]
      exact List.mem_append_right _ List.mem_cons_self
    · refine .inr ⟨by simpa using hanywhere, before, r, after, hsplit, hends, fun r' hr' => ?_⟩
      rcases List.mem_append.1 hr' with hr' | hr'
      · exact fun f hf => Inventory.match?_none (hbefore r' hr') hf
      · exact List.mem_singleton.1 hr' ▸ hempty

/-! ### Two targets of one alias -/

/-- An alias with two targets. -/
def libraryAliases : Alias.Table :=
  ⟨[⟨"#lib/".toList, "/lib/".toList, true⟩, ⟨"#lib/".toList, "/vendor/".toList, true⟩]⟩

def vendorFiles : Inventory := .ofPaths ["/main.ts".toList, "/vendor/date.ts".toList]

theorem liesOutside_vendorFiles :
    Specifier.LiesOutside libraryAliases "#lib/date".toList "/main.ts".toList :=
  ⟨⟨by decide, by decide⟩, by decide +kernel⟩

theorem location_preferred_vendorFiles :
    SourceFile.ofPath "/vendor/date.ts".toList ∈ vendorFiles.files ∧
      ["vendor".toList, "date".toList] ∈
        Specifier.locations libraryAliases "#lib/date".toList "/main.ts".toList ∧
      ∃ found,
        vendorFiles.resolve? libraryAliases "#lib/date".toList "/main.ts".toList = some found ∧
        ((∃ location ∈ Specifier.locations libraryAliases "#lib/date".toList "/main.ts".toList,
            found.At location) ∨
          Specifier.isAnchored "#lib/date".toList = false ∧ ∃ before r after,
            Specifier.readings libraryAliases "#lib/date".toList "/main.ts".toList =
              before ++ r :: after ∧
              found.stem.endsWith r.tail ∧
              ∀ r' ∈ before ++ [r], ∀ f ∈ vendorFiles.files, r'.place? ≠ some f.stem) := by
  have hfile : SourceFile.ofPath "/vendor/date.ts".toList ∈ vendorFiles.files := by decide +kernel
  have hlocation : ["vendor".toList, "date".toList] ∈
      Specifier.locations libraryAliases "#lib/date".toList "/main.ts".toList := by decide +kernel
  refine ⟨hfile, hlocation, location_preferred vendorFiles libraryAliases _ _ _ _
    (fun _ => liesOutside_vendorFiles) hfile hlocation (by decide +kernel) (by decide +kernel)⟩

/-! ### Files that only end like a specifier -/

/-- Whether resolution finds a file at a location of a specifier if there is one. -/
def PrefersLocation (inv : Inventory) (aliases : Alias.Table) (spec importer : Text) : Prop :=
  (∃ file ∈ inv.files, ∃ location ∈ Specifier.locations aliases spec importer, file.At location) →
    ∃ found, inv.resolve? aliases spec importer = some found ∧
      ∃ location ∈ Specifier.locations aliases spec importer, found.At location

instance (inv : Inventory) (aliases : Alias.Table) (spec importer : Text) :
    Decidable (PrefersLocation inv aliases spec importer) :=
  decidable_of_iff
    ((∃ file ∈ inv.files, ∃ location ∈ Specifier.locations aliases spec importer,
        file.At location) →
      ∃ found ∈ (inv.resolve? aliases spec importer).toList,
        ∃ location ∈ Specifier.locations aliases spec importer, found.At location)
    (by simp [PrefersLocation])

/-- A file elsewhere is found instead of the index of a directory, of the file without its
extension, of the second target of an alias and of the file beside its directory, and where the path
of the importing file climbs. -/
theorem location_not_preferred :
    ¬PrefersLocation (.ofPaths ["/other/components.ts".toList, "/src/components/index.ts".toList])
      {} "./components".toList "/src/main.ts".toList ∧
    ¬PrefersLocation (.ofPaths ["/other/util.js.ts".toList, "/src/util.ts".toList]) {}
      "./util.js".toList "/src/main.ts".toList ∧
    ¬PrefersLocation (.ofPaths ["/old/lib/date.ts".toList, "/vendor/date.ts".toList]) libraryAliases
      "#lib/date".toList "/main.ts".toList ∧
    ¬PrefersLocation (.ofPaths ["/bar/index.ts".toList, "/foo.ts".toList])
      {} "./".toList "/foo/main.ts".toList ∧
    ¬PrefersLocation (.ofPaths ["/a/b.ts".toList, "/b.ts".toList])
      ⟨[⟨"@b".toList, "/a/../b".toList, false⟩]⟩ "@b".toList "/a/../main.ts".toList := by
  decide +kernel

end Unreached

import KeyedSeries.Proofs.Disk.Child
import KeyedSeries.Proofs.Engine.Targets

/-!
# The file of a series, below any root

The root may be written in any way: relative, with dots, with a slash at its end, or not at
all. A unit and the segments of a path are asked to be the names of entries, and this says
what reading a text as a path says: **it is the name of an entry just if it is its own only
component, and no step elsewhere** (`KeyedSeries.FilePath.isEntryName_iff_components`). So no
segment is lost on the way, and none leads out of the unit.

**A unit and a path have a file just if the unit is such a name, and the path has a segment
and no slash**; the components of the file are those of the root, the unit and the segments;
and from them the unit and the segments can be told
(`KeyedSeries.Location.file_determines_series`).
-/

namespace KeyedSeries

/-- A letter stands in a text just if it stands in one of the pieces, unless it is the
separator. -/
theorem mem_iff_exists_mem_pieces {separator letter : Char} (hne : letter ≠ separator)
    {t : List Char} : letter ∈ t ↔ ∃ p ∈ pieces separator t, letter ∈ p := by
  induction t with
  | nil => simp [pieces]
  | cons c rest ih =>
    rw [List.mem_cons, ih, pieces]
    split
    · next hc =>
      have hletter : letter ≠ c := hc ▸ hne
      simp [hletter]
    · cases hrest : pieces separator rest with
      | nil => exact absurd hrest (pieces_ne_nil separator rest)
      | cons p ps => simp [or_assoc]

namespace FilePath

variable {name : String}

/-! ### Names and components -/

/-- In the names between slashes there is no slash. -/
theorem noSlash_of_mem_names {t : List Char} {c : String} (h : c ∈ names (pieces '/' t)) :
    '/' ∉ c.toList := by
  obtain ⟨p, hp, rfl⟩ := List.mem_map.mp h
  rw [String.toList_ofList]
  exact notMem_of_mem_pieces (List.mem_filter.mp hp).1

/-- A path that does not start at the root has names, and maybe the step to the same
directory. -/
theorem mem_relativeNames {ps : List (List Char)} {c : String} (h : c ∈ relativeNames ps) :
    c = hereName ∨ c ∈ names ps := by
  unfold relativeNames at h
  split at h
  · next rest =>
    rcases List.mem_cons.mp h with hhere | h
    · exact .inl hhere
    · exact .inr (by rwa [names, List.filter_cons_of_neg (by simp)])
  · exact .inr h

/-- No component has a slash in it but the root. -/
theorem noSlash_of_mem_components {p : FilePath} {c : String} (h : c ∈ p.components)
    (hroot : c ≠ rootName) : '/' ∉ c.toList := by
  rw [components] at h
  cases ht : p.text.toList with
  | nil =>
    rw [ht] at h
    cases h
  | cons letter rest =>
    rw [ht] at h
    by_cases hletter : letter = '/'
    · subst hletter
      rw [componentsOf, List.mem_cons, or_iff_right hroot] at h
      exact noSlash_of_mem_names h
    · rw [componentsOf_cons_of_ne hletter] at h
      rcases mem_relativeNames h with rfl | h
      · decide
      · exact noSlash_of_mem_names h

/-- **A text is the name of an entry** just if, taken for a path, it is one component and
this is the text, and it neither is the root nor leads to the same directory or up. -/
theorem isEntryName_iff_components :
    isEntryName name = true ↔ (⟨name⟩ : FilePath).components = [name] ∧ isName name = true := by
  constructor
  · intro h
    obtain ⟨-, hslash, hname⟩ := isEntryName_iff.mp h
    refine ⟨?_, hname⟩
    rw [components, componentsOf_of_notMem hslash (toList_ne_here hname), names_singleton h]
  · rintro ⟨hcomponents, hname⟩
    refine isEntryName_iff.mpr ⟨?_, ?_, hname⟩
    · rintro rfl
      cases hcomponents
    · refine noSlash_of_mem_components (p := ⟨name⟩) ?_ (isName_iff.mp hname).1
      rw [hcomponents]
      exact List.mem_singleton_self name

end FilePath

namespace Location

open FilePath

variable {root : FilePath} {unit path : String}

/-! ### Segments -/

/-- No segment is empty, and none has a separator in it. -/
theorem ne_empty_and_noSeparator_of_mem_segments {s : String} (h : s ∈ segments path) :
    s ≠ "" ∧ separator ∉ s.toList := by
  obtain ⟨p, hp, rfl⟩ := List.mem_map.mp h
  obtain ⟨hpiece, hne⟩ := List.mem_filter.mp hp
  refine ⟨fun heq => ?_, ?_⟩
  · have hnil : p = [] := by rw [← String.toList_ofList (l := p), heq, String.toList_empty]
    simp [hnil] at hne
  · rw [String.toList_ofList]
    exact notMem_of_mem_pieces hpiece

/-- The segments have the letters of the path, apart from separators. -/
theorem mem_iff_exists_mem_segments {letter : Char} (hne : letter ≠ separator) :
    letter ∈ path.toList ↔ ∃ s ∈ segments path, letter ∈ s.toList := by
  rw [mem_iff_exists_mem_pieces hne]
  constructor
  · rintro ⟨p, hp, hletter⟩
    have hfull : p ≠ [] := List.ne_nil_of_mem hletter
    have hmem : p ∈ (pieces separator path.toList).filter (· ≠ []) :=
      List.mem_filter.mpr ⟨hp, by simpa using hfull⟩
    refine ⟨String.ofList p, List.mem_map.mpr ⟨p, hmem, rfl⟩, ?_⟩
    rw [String.toList_ofList]
    exact hletter
  · rintro ⟨s, hs, hletter⟩
    obtain ⟨p, hp, rfl⟩ := List.mem_map.mp hs
    rw [String.toList_ofList] at hletter
    exact ⟨p, (List.mem_filter.mp hp).1, hletter⟩

/-- **All segments are names of entries** just if the path has no slash: what else would
lead elsewhere has a separator in it, or is empty. -/
theorem forall_isEntryName_segments_iff :
    (∀ s ∈ segments path, isEntryName s = true) ↔ '/' ∉ path.toList := by
  constructor
  · intro h hslash
    obtain ⟨s, hs, hslash⟩ := (mem_iff_exists_mem_segments (by decide)).mp hslash
    exact (isEntryName_iff.mp (h s hs)).2.1 hslash
  · intro h s hs
    obtain ⟨hempty, hdot⟩ := ne_empty_and_noSeparator_of_mem_segments hs
    have hslash : '/' ∉ s.toList := fun hslash =>
      h ((mem_iff_exists_mem_segments (by decide)).mpr ⟨s, hs, hslash⟩)
    refine isEntryName_iff.mpr ⟨hempty, hslash, isName_iff.mpr ⟨?_, ?_, ?_⟩⟩
    · rintro rfl
      exact hslash (by decide)
    · rintro rfl
      exact hdot (by decide)
    · rintro rfl
      exact hdot (by decide)

/-! ### Files -/

/-- A path leads down by names of entries only. -/
theorem descend_eq_foldl_child_iff {base file : FilePath} {names : List String} :
    descend base names = .ok file ↔
      (∀ n ∈ names, isEntryName n = true) ∧ names.foldl child base = file := by
  induction names generalizing base with
  | nil => simp [descend]
  | cons n rest ih =>
    rw [descend, List.forall_mem_cons, List.foldl_cons]
    split
    · next hn => rw [ih, and_iff_right hn]
    · next hn => simp [hn]

/-- The file of a path below a directory is the one that its segments lead to. -/
theorem fileBelow_eq_foldl_child_iff {base file : FilePath} :
    fileBelow base path = .ok file ↔
      segments path ≠ [] ∧ '/' ∉ path.toList ∧ (segments path).foldl child base = file := by
  rw [fileBelow]
  split
  · next hnil => simp [hnil]
  · next hne =>
    have hne : segments path ≠ [] := hne
    rw [descend_eq_foldl_child_iff, forall_isEntryName_segments_iff, and_iff_right hne]

theorem unitDir_eq_child_iff {base : FilePath} :
    unitDir root unit = .ok base ↔ isEntryName unit = true ∧ root.child unit = base := by
  rw [unitDir]
  split
  · next hunit => simp [hunit]
  · next hunit => simp [hunit]

/-- The file of a series is the one that the unit and the segments lead to. -/
theorem file_eq_foldl_child_iff {file : FilePath} :
    Location.file root unit path = .ok file ↔
      isEntryName unit = true ∧ segments path ≠ [] ∧ '/' ∉ path.toList ∧
        (segments path).foldl child (root.child unit) = file := by
  rw [Location.file]
  split
  · next base hbase =>
    obtain ⟨hunit, rfl⟩ := unitDir_eq_child_iff.mp hbase
    rw [fileBelow_eq_foldl_child_iff, and_iff_right hunit]
  · next failure hfails =>
    refine iff_of_false nofun ?_
    rintro ⟨hunit, -⟩
    rw [unitDir_eq_child_iff.mpr ⟨hunit, rfl⟩] at hfails
    cases hfails

/-- A unit and a path that a series can have. -/
structure NamesSeries (unit path : String) : Prop where
  /-- The unit is not empty. -/
  unit_ne_empty : unit ≠ ""
  /-- It has no slash. -/
  unit_noSlash : '/' ∉ unit.toList
  /-- It is no step to the same directory. -/
  unit_ne_here : unit ≠ "."
  /-- It is no step upwards. -/
  unit_ne_up : unit ≠ ".."
  /-- The path has a segment. -/
  some_segment : segments path ≠ []
  /-- The path has no slash. -/
  path_noSlash : '/' ∉ path.toList

/-- The unit is the name of an entry, and the segments are. -/
theorem namesSeries_iff : NamesSeries unit path ↔
    isEntryName unit = true ∧ segments path ≠ [] ∧ '/' ∉ path.toList := by
  rw [isEntryName_iff, isName_iff]
  constructor
  · intro h
    refine ⟨⟨h.unit_ne_empty, h.unit_noSlash, ?_, h.unit_ne_here, h.unit_ne_up⟩,
      h.some_segment, h.path_noSlash⟩
    rintro rfl
    exact h.unit_noSlash (by decide)
  · rintro ⟨⟨hempty, hslash, -, hhere, hup⟩, hsegments, hpath⟩
    exact ⟨hempty, hslash, hhere, hup, hsegments, hpath⟩

/-- What names a series is one component after the other. -/
theorem namesSeries_iff_components : NamesSeries unit path ↔
    segments path ≠ [] ∧ ∀ name ∈ unit :: segments path,
      (⟨name⟩ : FilePath).components = [name] ∧ isName name = true := by
  simp only [← isEntryName_iff_components]
  rw [namesSeries_iff, List.forall_mem_cons, forall_isEntryName_segments_iff, and_left_comm]

/-- **The components of the file** are those of the root, the unit and the segments. -/
theorem components_of_file {file : FilePath} (h : Location.file root unit path = .ok file) :
    file.components = root.components ++ unit :: segments path := by
  obtain ⟨hunit, -, hpath, rfl⟩ := file_eq_foldl_child_iff.mp h
  rw [components_foldl_child (forall_isEntryName_segments_iff.mpr hpath), components_child hunit,
    List.append_assoc, List.singleton_append]

/-- **The path of the file** below its unit is made of the segments. -/
theorem seriesPath?_of_file {file : FilePath} (h : Location.file root unit path = .ok file) :
    ∃ base, unitDir root unit = .ok base ∧
      seriesPath? base file = some ((String.singleton separator).intercalate (segments path)) := by
  obtain ⟨hunit, hne, hpath, rfl⟩ := file_eq_foldl_child_iff.mp h
  have hnames := forall_isEntryName_segments_iff.mpr hpath
  refine ⟨root.child unit, unitDir_eq_child_iff.mpr ⟨hunit, rfl⟩, ?_⟩
  exact seriesPath?_of_below (below?_foldl_child hnames) hne fun n hn =>
    (isEntryName_iff.mp (hnames n hn)).2.2

/-- **A unit and a path have a file just if they can name a series, and the file tells the
unit and the segments.** They can name one just if there is a segment, and the unit and every
segment is, taken for a path, one component and no step elsewhere. The file lies below the
root by the unit and the segments, the way back from it gives the segments with separators
between them, and another unit and path have the same file just if their unit and their
segments are the same. -/
theorem file_determines_series (root : FilePath) (unit path : String) :
    ((∃ f, Location.file root unit path = .ok f) ↔ NamesSeries unit path) ∧
    (NamesSeries unit path ↔ segments path ≠ [] ∧ ∀ name ∈ unit :: segments path,
      (⟨name⟩ : FilePath).components = [name] ∧ isName name = true) ∧
    ∀ f, Location.file root unit path = .ok f →
      f.components = root.components ++ unit :: segments path ∧
      (∃ base, unitDir root unit = .ok base ∧
        seriesPath? base f = some ((String.singleton separator).intercalate (segments path))) ∧
      ∀ unit' path' f', Location.file root unit' path' = .ok f' →
        (f.components = f'.components ↔ unit = unit' ∧ segments path = segments path') := by
  refine ⟨?_, namesSeries_iff_components,
    fun f hf => ⟨components_of_file hf, seriesPath?_of_file hf, ?_⟩⟩
  · rw [namesSeries_iff]
    constructor
    · rintro ⟨f, hf⟩
      obtain ⟨hunit, hne, hpath, -⟩ := file_eq_foldl_child_iff.mp hf
      exact ⟨hunit, hne, hpath⟩
    · rintro ⟨hunit, hne, hpath⟩
      exact ⟨_, file_eq_foldl_child_iff.mpr ⟨hunit, hne, hpath, rfl⟩⟩
  · intro unit' path' f' hf'
    rw [components_of_file hf, components_of_file hf', List.append_cancel_left_eq,
      List.cons.injEq]

/-- A root with dots and slashes of its own, and one series with two spellings. -/
theorem file_determines_series_twoSpellings :
    Location.file ⟨"data/./"⟩ "u" "a..b." = .ok ⟨"data/./u/a/b"⟩ ∧
      Location.file ⟨"data/./"⟩ "u" "a.b" = .ok ⟨"data/./u/a/b"⟩ ∧
      segments "a..b." = segments "a.b" := by
  have hfirst : Location.file ⟨"data/./"⟩ "u" "a..b." = .ok ⟨"data/./u/a/b"⟩ := by decide
  have hsecond : Location.file ⟨"data/./"⟩ "u" "a.b" = .ok ⟨"data/./u/a/b"⟩ := by decide
  obtain ⟨-, -, hinj⟩ := (file_determines_series ⟨"data/./"⟩ "u" "a..b.").2.2 _ hfirst
  exact ⟨hfirst, hsecond, ((hinj "u" "a.b" _ hsecond).mp rfl).2⟩

end Location

end KeyedSeries

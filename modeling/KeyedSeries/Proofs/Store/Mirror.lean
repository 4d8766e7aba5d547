import KeyedSeries.Proofs.Catalog
import KeyedSeries.Proofs.Series.Document
import KeyedSeries.Proofs.Store.Saving

/-!
# Disks that mirror a catalog

Below the root of an engine there is one file for every series of a catalog, in it
the document of the series, and there are directories on the way
(`KeyedSeries.Mirrors`). **Whatever the store does to the file of a series it does
to the series**: it loads the document that the catalog has
(`KeyedSeries.Mirrors.load_eq`), and after a document was saved, a file erased or a
unit cleared the disk mirrors the catalog with the series put, taken away, or without
those of the unit.

Directories stay when their last series goes, and a file cannot stand where a
directory does. So the addresses that are ever used have to be fixed beforehand, and
none of them may lead through another one (`KeyedSeries.IsScheme`).
-/

namespace KeyedSeries

open Disk FilePath

/-- Whether an entry is a file. -/
def Entry.isFile : Entry → Bool
  | .file _ => true
  | .dir | .link _ => false

/-! ### Addresses that are used -/

/-- A segment of a path: a name without the characters that mean anything else in a
path. -/
structure IsSegment (s : String) : Prop where
  /-- It can be the name of an entry. -/
  fits : Fits s
  /-- Paths are cut at no place in it. -/
  noSeparator : Location.separator ∉ s.toList

/-- A unit and the segments of a path; the name of the hidden file of the last one
is not too long either. -/
inductive IsAddress : Address → Prop where
  /-- There is one segment at least. -/
  | mk {unit : String} {parents : List String} {name : String} (hunit : Fits unit)
    (hsegments : ∀ s ∈ parents ++ [name], IsSegment s)
    (hdraft : (DirectoryStore.draftName name).utf8ByteSize ≤ nameLimit) :
    IsAddress (unit :: (parents ++ [name]))

/-- Addresses of which none leads through another one. -/
structure IsScheme (used : Address → Prop) : Prop where
  /-- They are addresses. -/
  isAddress : ∀ {a}, used a → IsAddress a
  /-- None is the beginning of another one. -/
  apart : ∀ {a b}, used a → used b → a <+: b → a = b

theorem IsAddress.fits {a : Address} (h : IsAddress a) : ∀ n ∈ a, Fits n := by
  obtain ⟨hunit, hsegments, -⟩ := h
  intro n hn
  rcases List.mem_cons.mp hn with rfl | hn
  · exact hunit
  · exact (hsegments n hn).fits

/-- An address is not a unit alone. -/
theorem IsAddress.ne_unit {a : Address} (h : IsAddress a) (unit : String) : a ≠ [unit] := by
  obtain ⟨-, -, -⟩ := h
  simp

open DirectoryStore (draftName) in
/-- The hidden file of a segment has a name that no step of a path takes for
anything else. -/
theorem IsSegment.isPlain_draftName {name : String} (h : IsSegment name) :
    IsPlain (draftName name) where
  isEntryName := DirectoryStore.isEntryName_draftName h.fits.noSlash
  noZero := by simpa [draftName] using h.fits.noZero

/-- No hidden file has the name of a segment. -/
theorem IsSegment.ne_draftName {s : String} (h : IsSegment s) (name : String) :
    s ≠ DirectoryStore.draftName name := by
  rintro rfl
  exact h.noSeparator (by simp [DirectoryStore.draftName, Location.separator])

/-! ### Mirrors -/

/-- Whether a document can be stored and read again: its values are written
exactly, and its keys are below the greatest one. -/
structure Document.IsStorable (doc : Document) : Prop where
  /-- The values are written exactly. -/
  isExact : doc.IsExact
  /-- No key is the greatest one. -/
  lt_top : ∀ {k v}, doc.records.get? k = some v → k < Key.top

/-- The disk has a file below the root for every series of the catalog, and around
it directories that are on the way to addresses in use. -/
structure Mirrors (used : Address → Prop) (d : Disk) (root : Place) (c : Catalog) : Prop where
  /-- The disk is a tree. -/
  isTree : d.IsTree
  /-- The root is a directory. -/
  isDir : d.entry? root = some .dir
  /-- The file of a series has its document. -/
  file : ∀ {a doc}, c.get? a = some doc → d.entry? (root ++ a) = some (.file doc.bytes)
  /-- Every file is the file of a series. -/
  isSeries : ∀ {a content}, d.entry? (root ++ a) = some (.file content) → c.get? a ≠ none
  /-- There are no links. -/
  noLink : ∀ {a t}, d.entry? (root ++ a) ≠ some (.link t)
  /-- Every directory is on the way to an address in use. -/
  onTheWay : ∀ {a}, a ≠ [] → d.entry? (root ++ a) = some .dir → ∃ b, used b ∧ a <+: b ∧ a ≠ b
  /-- The addresses of the series are in use. -/
  isUsed : ∀ {a doc}, c.get? a = some doc → used a
  /-- Their documents can be stored. -/
  isStorable : ∀ {a doc}, c.get? a = some doc → doc.IsStorable

namespace Mirrors

variable {used : Address → Prop} {d : Disk} {root : Place} {c : Catalog} {a : Address}

/-- The names of the root and of an address. -/
theorem fits (h : Mirrors used d root c) (ha : ∀ n ∈ a, Fits n) : ∀ n ∈ root ++ a, Fits n := by
  intro n hn
  rcases List.mem_append.mp hn with hn | hn
  · exact h.isTree.fits h.isDir n hn
  · exact ha n hn

/-! ### What is on the way -/

/-- There is no series on the way to an address in use. -/
theorem get?_eq_none_of_prefix (h : Mirrors used d root c) (hs : IsScheme used) (ha : used a)
    {b : Address} (hb : b <+: a) (hne : b ≠ a) : c.get? b = none := by
  rw [Option.eq_none_iff_forall_ne_some]
  intro doc hdoc
  exact hne (hs.apart (h.isUsed hdoc) ha hb)

/-- Only directories are on the way to an address if no series is. -/
theorem vacant (h : Mirrors used d root c) (ha : ∀ b, b <+: a → c.get? b = none) :
    d.Vacant (root ++ a) := by
  intro r hr
  rcases List.prefix_or_prefix_of_prefix hr (List.prefix_append root a) with hr' | ⟨b, rfl⟩
  · by_cases hne : r = root
    · exact Or.inr (hne ▸ h.isDir)
    · exact Or.inr (h.isTree.dir_of_prefix hr' hne h.isDir)
  · have hb : b <+: a := List.prefix_append_right_inj root |>.mp hr
    cases hentry : d.entry? (root ++ b) with
    | none => exact Or.inl rfl
    | some e =>
      cases e with
      | dir => exact Or.inr rfl
      | file content => exact absurd (ha b hb) (h.isSeries hentry)
      | link t => exact absurd hentry h.noLink

theorem vacant_of_get?_eq_none (h : Mirrors used d root c) (hs : IsScheme used) (ha : used a)
    (hnone : c.get? a = none) : d.Vacant (root ++ a) := by
  refine h.vacant fun b hb => ?_
  by_cases hne : b = a
  · rw [hne, hnone]
  · exact h.get?_eq_none_of_prefix hs ha hb hne

/-- There is no directory at an address in use. -/
theorem not_dir (h : Mirrors used d root c) (hs : IsScheme used) (ha : used a) :
    d.entry? (root ++ a) ≠ some .dir := by
  intro hdir
  have hne : a ≠ [] := by
    rintro rfl
    cases hs.isAddress ha
  obtain ⟨b, hb, hab, hne⟩ := h.onTheWay hne hdir
  exact hne (hs.apart ha hb hab)

/-- Where the catalog has no series nothing stands. -/
theorem entry?_eq_none (h : Mirrors used d root c) (hs : IsScheme used) (ha : used a)
    (hnone : c.get? a = none) : d.entry? (root ++ a) = none :=
  (h.vacant_of_get?_eq_none hs ha hnone _ (List.prefix_refl _)).resolve_right (h.not_dir hs ha)

/-! ### Loading -/

/-- **What is loaded from the file of a series** is the document that the catalog
has. -/
theorem load_eq (h : Mirrors used d root c) (hs : IsScheme used) (ha : used a) :
    DirectoryStore.load d (ofPlace (root ++ a)) = .ok (c.get? a) := by
  have hfits := h.fits (hs.isAddress ha).fits
  cases hdoc : c.get? a with
  | none =>
    exact DirectoryStore.load_of_vacant h.isTree hfits (h.vacant_of_get?_eq_none hs ha hdoc)
  | some doc =>
    exact DirectoryStore.load_of_file h.isTree hfits (h.file hdoc)
      (Document.ofBytes?_bytes (h.isStorable hdoc).isExact)

theorem isDir_eq_false (h : Mirrors used d root c) (hs : IsScheme used) (ha : used a) :
    d.isDir (ofPlace (root ++ a)) = false := by
  have hfits := h.fits (hs.isAddress ha).fits
  have hway : d.Passable (root ++ a) := by
    cases hdoc : c.get? a with
    | none => exact (h.vacant_of_get?_eq_none hs ha hdoc).passable
    | some doc => exact h.isTree.passable_of_some (h.file hdoc) fun _ => nofun
  rw [isDir_ofPlace h.isTree hfits hway, decide_eq_false_iff_not]
  exact h.not_dir hs ha

/-! ### Saving -/

open DirectoryStore (draftName save)

/-- Nothing stands where the hidden file of a series is written. -/
theorem entry?_draft (h : Mirrors used d root c) (hs : IsScheme used) (unit : String)
    (parents : List String) (name : String) :
    d.entry? (root ++ unit :: parents ++ [draftName name]) = none := by
  have hunused : ∀ {b}, used b → ¬unit :: (parents ++ [draftName name]) <+: b := by
    rintro b hb ⟨rest, hrest⟩
    obtain ⟨-, hsegments, -⟩ := hs.isAddress hb
    rw [List.cons_append, List.cons.injEq] at hrest
    have hdraft : draftName name ∈ parents ++ [draftName name] ++ rest := by simp
    rw [hrest.2] at hdraft
    exact (hsegments _ hdraft).ne_draftName name rfl
  rw [List.append_assoc, List.cons_append]
  cases hentry : d.entry? (root ++ unit :: (parents ++ [draftName name])) with
  | none => rfl
  | some e =>
    cases e with
    | dir =>
      obtain ⟨b, hb, hpre, -⟩ := h.onTheWay (List.cons_ne_nil _ _) hentry
      exact absurd hpre (hunused hb)
    | file content =>
      obtain ⟨doc, hdoc⟩ := Option.ne_none_iff_exists'.mp (h.isSeries hentry)
      exact absurd (List.prefix_refl _) (hunused (h.isUsed hdoc))
    | link t => exact absurd hentry h.noLink

/-- What becomes of a mirror when a file is put below the root, with directories
around it, if its document is put into the catalog. -/
theorem of_put (h : Mirrors used d root c) (hs : IsScheme used) {p : Address} {name : String}
    (ha : used (p ++ [name])) {doc : Document} (hdoc : doc.IsStorable) {d' : Disk} (ht : d'.IsTree)
    (hd : ∀ b, d'.entry? (root ++ b) =
      if b = p ++ [name] then some (.file doc.bytes)
      else if b <+: p then some .dir else d.entry? (root ++ b)) :
    Mirrors used d' root (c.insert (p ++ [name]) doc) := by
  have hprefix : p <+: p ++ [name] := List.prefix_append p [name]
  exact
    { isTree := ht
      isDir := by
        have hroot := hd []
        rwa [List.append_nil, if_neg (by simp), if_pos List.nil_prefix] at hroot
      file := by
        intro b doc' hb
        rw [OrderedMap.get?_insert] at hb
        rw [hd]
        split at hb
        · next heq =>
          cases hb
          rw [if_pos heq]
        · next hne =>
          -- Another series does not lie on the way to this one.
          rw [if_neg hne, if_neg, h.file hb]
          exact fun hpre => hne (hs.apart (h.isUsed hb) ha (hpre.trans hprefix))
      isSeries := by
        intro b content hb
        rw [OrderedMap.get?_insert]
        rw [hd] at hb
        split
        · exact Option.some_ne_none doc
        · next hne =>
          rw [if_neg hne] at hb
          split at hb
          · cases hb
          · exact h.isSeries hb
      noLink := by
        intro b t
        rw [hd]
        split
        · simp
        · split
          · simp
          · exact h.noLink
      onTheWay := by
        intro b hne hb
        rw [hd] at hb
        split at hb
        · cases hb
        · next hnew =>
          split at hb
          · next hpre => exact ⟨_, ha, hpre.trans hprefix, hnew⟩
          · exact h.onTheWay hne hb
      isUsed := by
        intro b doc' hb
        rw [OrderedMap.get?_insert] at hb
        split at hb
        · next heq => exact heq ▸ ha
        · exact h.isUsed hb
      isStorable := by
        intro b doc' hb
        rw [OrderedMap.get?_insert] at hb
        split at hb
        · cases hb
          exact hdoc
        · exact h.isStorable hb }

/-- **A document is saved**: the disk mirrors the catalog with the document at the
address. -/
theorem save_eq (h : Mirrors used d root c) (hs : IsScheme used) (ha : used a) {doc : Document}
    (hdoc : doc.IsStorable) :
    ∃ d', save d (ofPlace (root ++ a)) doc = (.ok (), d') ∧
      Mirrors used d' root (c.insert a doc) := by
  have haddress := hs.isAddress ha
  have hfits := h.fits haddress.fits
  have hnodir := h.not_dir hs ha
  obtain ⟨hunit, hsegments, hdraft⟩ := haddress
  rename_i unit parents name
  have hassoc : root ++ unit :: (parents ++ [name]) = root ++ unit :: parents ++ [name] := by simp
  have hprefix : unit :: parents <+: unit :: (parents ++ [name]) := ⟨[name], rfl⟩
  have hname : IsSegment name := hsegments name (by simp)
  -- No series stands where the directories are to be.
  have hvacant : d.Vacant (root ++ unit :: parents) := by
    refine h.vacant fun b hb => h.get?_eq_none_of_prefix hs ha (hb.trans hprefix) ?_
    rintro rfl
    exact absurd hb.length_le (by simp)
  have hfree := h.entry?_draft hs unit parents name
  rw [hassoc] at hfits hnodir ⊢
  obtain ⟨d', hrun, ht', hd'⟩ := DirectoryStore.save_ofPlace h.isTree hfits
    ⟨hname.isPlain_draftName, hdraft⟩ hvacant (takesFile_of_none hfree)
    ⟨hnodir, fun {t} => hassoc ▸ h.noLink⟩ doc
  refine ⟨d', hrun, h.of_put hs (p := unit :: parents) ha hdoc ht' fun b => ?_⟩
  -- Where the hidden file was nothing stood before either.
  have hb : d'.entry? (root ++ b) =
      if root ++ b = root ++ unit :: parents ++ [name] then some (.file doc.bytes)
      else if root ++ b <+: root ++ unit :: parents then some .dir else d.entry? (root ++ b) := by
    rw [hd']
    by_cases hdraft : root ++ b = root ++ unit :: parents ++ [draftName name]
    · rw [hdraft, hfree]
      split
      · rfl
      · rw [if_pos rfl, if_neg fun hpre => absurd hpre.length_le (by simp)]
    · rw [if_neg hdraft]
  rw [hb, ← hassoc]
  simp only [List.append_cancel_left_eq, List.prefix_append_right_inj, List.cons_append]

/-! ### Erasing -/

open DirectoryStore (erase)

/-- What becomes of a mirror when entries below the root go, if the same series go
from the catalog. -/
theorem of_removed (h : Mirrors used d root c) {d' : Disk} {c' : Catalog} (ht : d'.IsTree)
    (gone : Address → Prop) [DecidablePred gone] (hroot : ¬gone [])
    (hd : ∀ b, d'.entry? (root ++ b) = if gone b then none else d.entry? (root ++ b))
    (hc : ∀ b, c'.get? b = if gone b then none else c.get? b) : Mirrors used d' root c' := by
  have hget : ∀ {b doc}, c'.get? b = some doc → ¬gone b ∧ c.get? b = some doc := by
    intro b doc hb
    rw [hc] at hb
    split at hb
    · cases hb
    · next hkept => exact ⟨hkept, hb⟩
  have hentry : ∀ {b e}, d'.entry? (root ++ b) = some e →
      ¬gone b ∧ d.entry? (root ++ b) = some e := by
    intro b e hb
    rw [hd] at hb
    split at hb
    · cases hb
    · next hkept => exact ⟨hkept, hb⟩
  exact
    { isTree := ht
      isDir := by
        have hb := hd []
        rwa [List.append_nil, if_neg hroot, h.isDir] at hb
      file := fun hb => by rw [hd, if_neg (hget hb).1, h.file (hget hb).2]
      isSeries := fun hb => by
        rw [hc, if_neg (hentry hb).1]
        exact h.isSeries (hentry hb).2
      noLink := fun hb => h.noLink (hentry hb).2
      onTheWay := fun hne hb => h.onTheWay hne (hentry hb).2
      isUsed := fun hb => h.isUsed (hget hb).2
      isStorable := fun hb => h.isStorable (hget hb).2 }

/-- **The file of a series is erased**: the disk mirrors the catalog without the
series. -/
theorem erase_eq (h : Mirrors used d root c) (hs : IsScheme used) (ha : used a) :
    ∃ d', erase d (ofPlace (root ++ a)) = (.ok (), d') ∧ Mirrors used d' root (c.erase a) := by
  have hfits := h.fits (hs.isAddress ha).fits
  have hne : a ≠ [] := by
    rintro rfl
    cases hs.isAddress ha
  cases hdoc : c.get? a with
  | none =>
    have hsame : c.erase a = c := OrderedMap.ext_get? fun b => by
      rw [OrderedMap.get?_erase]
      split
      · next heq => rw [heq, hdoc]
      · rfl
    rw [hsame]
    exact ⟨d, DirectoryStore.erase_of_none h.isTree hfits
      (h.vacant_of_get?_eq_none hs ha hdoc).passable (h.entry?_eq_none hs ha hdoc), h⟩
  | some doc =>
    refine ⟨_, DirectoryStore.erase_of_file h.isTree hfits (h.file hdoc),
      h.of_removed (h.isTree.drop (h.file hdoc)) (· = a) hne.symm (fun b => ?_) fun b => ?_⟩
    · rw [entry?_drop (by simp [hne])]
      simp only [List.append_cancel_left_eq]
    · rw [OrderedMap.get?_erase]

theorem inUnit_iff {unit : String} : Catalog.inUnit unit a = true ↔ [unit] <+: a := by
  cases a with
  | nil => simp [Catalog.inUnit]
  | cons n rest =>
    rw [Catalog.inUnit, List.head?_cons, beq_iff_eq, Option.some.injEq, List.cons_prefix_cons]
    exact ⟨fun h => ⟨h.symm, List.nil_prefix⟩, fun h => h.1.symm⟩

/-- What stands at a unit is a directory, or nothing. -/
theorem vacant_unit (h : Mirrors used d root c) (hs : IsScheme used) (unit : String) :
    d.Vacant (root ++ [unit]) := by
  refine h.vacant fun b hb => ?_
  rw [Option.eq_none_iff_forall_ne_some]
  intro doc hdoc
  have haddress := hs.isAddress (h.isUsed hdoc)
  have hb : b <+: [] ++ [unit] := hb
  rcases List.prefix_concat_iff.mp hb with heq | hb
  · exact haddress.ne_unit unit heq
  · rw [List.prefix_nil.mp hb] at haddress
    cases haddress

/-- **A unit is cleared**: the disk mirrors the catalog without its series. -/
theorem clear_eq (h : Mirrors used d root c) (hs : IsScheme used) {unit : String}
    (hunit : Fits unit) :
    ∃ d', erase d (ofPlace (root ++ [unit])) = (.ok (), d') ∧
      Mirrors used d' root (c.filter fun a _ => !Catalog.inUnit unit a) := by
  have hfits : ∀ n ∈ root ++ [unit], Fits n := h.fits (by simpa using hunit)
  have hvacant := h.vacant_unit hs unit
  have hfilter : ∀ b, (c.filter fun a _ => !Catalog.inUnit unit a).get? b =
      if [unit] <+: b then none else c.get? b := by
    intro b
    rw [OrderedMap.get?_filter_keys]
    by_cases hb : [unit] <+: b
    · rw [if_pos hb, inUnit_iff.mpr hb]
      rfl
    · rw [if_neg hb, Bool.eq_false_iff.mpr (mt inUnit_iff.mp hb)]
      rfl
  rcases hvacant _ (List.prefix_refl _) with hnone | hdir
  · -- Without the directory of the unit there are no series in it.
    have hsame : (c.filter fun a _ => !Catalog.inUnit unit a) = c := by
      refine OrderedMap.ext_get? fun b => ?_
      rw [hfilter]
      split
      · next hb =>
        rw [eq_comm, Option.eq_none_iff_forall_ne_some]
        intro doc hdoc
        have hbelow := h.isTree.none_of_prefix (List.prefix_append_right_inj root |>.mpr hb) hnone
        rw [h.file hdoc] at hbelow
        cases hbelow
      · rfl
    rw [hsame]
    exact ⟨d, DirectoryStore.erase_of_none h.isTree hfits hvacant.passable hnone, h⟩
  · obtain ⟨d', hrun, hd'⟩ := DirectoryStore.erase_of_dir h.isTree hfits hdir
    refine ⟨d', hrun, h.of_removed (h.isTree.of_cleared hd') ([unit] <+: ·) (by simp)
      (fun b => ?_) hfilter⟩
    simp only [hd', List.prefix_append_right_inj]

/-! ### Listing -/

open DirectoryStore (listFiles)

/-- No segment of an address is hidden. -/
theorem any_isHidden {unit : String} {segments : List String} (h : IsAddress (unit :: segments)) :
    segments.any DirectoryStore.isHidden = false := by
  obtain ⟨-, hsegments, -⟩ := h
  rw [List.any_eq_false]
  intro s hs hhidden
  rw [DirectoryStore.isHidden, beq_iff_eq, List.head?_eq_some_iff] at hhidden
  obtain ⟨rest, hrest⟩ := hhidden
  refine (hsegments s hs).noSeparator ?_
  rw [hrest]
  exact List.mem_cons_self

/-- The files below a unit stand at the addresses that the catalog has there. -/
theorem filesBelow_eq (h : Mirrors used d root c) (hs : IsScheme used) (unit : String) :
    ((d.below (root ++ [unit])).filter (·.2.isFile)).map (unit :: ·.1) =
      c.keys.filter (Catalog.inUnit unit) := by
  have hassoc : ∀ names, root ++ [unit] ++ names = root ++ unit :: names := by simp
  refine OrderedMap.eq_of_mem_iff id ?_ (c.pairwise_keys.filter _) fun a => ?_
  · refine List.pairwise_map.mpr (((d.pairwise_below _).filter _).imp fun {x y} hxy => ?_)
    exact (compare_append_left [unit] x.1 y.1).trans hxy
  · rw [List.mem_filter, inUnit_iff, OrderedMap.mem_keys_iff, List.mem_map]
    constructor
    · rintro ⟨⟨names, e⟩, hx, rfl⟩
      obtain ⟨hmem, hfile⟩ := List.mem_filter.mp hx
      obtain ⟨-, hentry⟩ := mem_below_iff.mp hmem
      cases e with
      | file content =>
        rw [hassoc] at hentry
        exact ⟨Option.ne_none_iff_exists'.mp (h.isSeries hentry), ⟨names, rfl⟩⟩
      | dir => cases hfile
      | link t => cases hfile
    · rintro ⟨⟨doc, hdoc⟩, ⟨names, rfl⟩⟩
      have hne : names ≠ [] := by
        rintro rfl
        exact (hs.isAddress (h.isUsed hdoc)).ne_unit unit rfl
      refine ⟨(names, .file doc.bytes), List.mem_filter.mpr ⟨mem_below_iff.mpr ⟨hne, ?_⟩, rfl⟩, rfl⟩
      rw [hassoc]
      exact h.file hdoc

/-- **The files below a unit** are those of its series, in the order of their
addresses. -/
theorem listFiles_eq (h : Mirrors used d root c) (hs : IsScheme used) {unit : String}
    (hunit : Fits unit) :
    listFiles d (ofPlace (root ++ [unit])) true =
      (c.keys.filter (Catalog.inUnit unit)).map fun a => ofPlace (root ++ a) := by
  have hfits : ∀ n ∈ root ++ [unit], Fits n := h.fits (by simpa using hunit)
  have hvacant := h.vacant_unit hs unit
  have hassoc : ∀ names, root ++ [unit] ++ names = root ++ unit :: names := by simp
  rw [listFiles, dirPlace?_ofPlace h.isTree hfits hvacant.passable, ← h.filesBelow_eq hs unit]
  rcases hvacant _ (List.prefix_refl _) with hnone | hdir
  · -- Without the unit there is nothing below it.
    have hempty : d.below (root ++ [unit]) = [] := by
      rw [List.eq_nil_iff_forall_not_mem]
      rintro ⟨names, e⟩ hmem
      have hentry := (mem_below_iff.mp hmem).2
      rw [h.isTree.none_of_prefix (List.prefix_append _ _) hnone] at hentry
      cases hentry
    rw [hempty, hnone]
    rfl
  · rw [if_pos hdir, List.map_map, ← List.filterMap_eq_map, List.filterMap_filter]
    refine List.filterMap_congr fun x hx => ?_
    obtain ⟨names, e⟩ := x
    obtain ⟨-, hentry⟩ := mem_below_iff.mp hx
    cases e with
    | dir => rfl
    | link t => rfl
    | file content =>
      -- Only the hidden files are left out, and there are none.
      have hbelow := hentry
      rw [hassoc] at hbelow
      obtain ⟨doc, hdoc⟩ := Option.ne_none_iff_exists'.mp (h.isSeries hbelow)
      have hhidden := any_isHidden (hs.isAddress (h.isUsed hdoc))
      simp [hhidden, Entry.isFile, foldl_child_ofPlace (h.isTree.fits hentry), hassoc]

end Mirrors

end KeyedSeries

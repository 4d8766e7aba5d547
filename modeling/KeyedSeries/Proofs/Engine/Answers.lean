import KeyedSeries.Proofs.Config.Roots
import KeyedSeries.Proofs.Engine.CatalogWrites

/-!
# Engines answer as catalogs do

An engine that was opened on an empty directory mirrors the empty catalog, and
every call keeps what the engine mirrors and what the catalog holds the same
(`KeyedSeries.Engine.outcome_perform`). So **an engine answers any calls as the
catalog does** (`KeyedSeries.Engine.answers_eq_of_resolve`): what was inserted and
removed shows in every projection and in the schema, and nothing else does.

The names of hidden files have to be short enough for this. Of a longer segment no
file can be written (`KeyedSeries.Engine.answers_longSegment`).
-/

namespace KeyedSeries

open Disk FilePath

/-- Whether a call uses no other addresses than those of a scheme, and values that
are written exactly. -/
def Call.IsWithin (used : Address → Prop) : Call → Prop
  | insert view unit =>
    (∀ series ∈ view.columns, ∃ segments, used (unit :: segments) ∧
      series.path = Catalog.pathOf segments) ∧ ∀ values ∈ view.values, ∀ v ∈ values, v.IsExact
  | delete paths _ _ unit => Fits unit ∧ PlainPathsIn used unit paths
  | project paths _ _ unit => Fits unit ∧ PlainPathsIn used unit paths
  | schema unit => Fits unit

/-- The engine of a configuration, once its roots are known. -/
def Config.engine (config : Config) (roots : Roots) : Engine DirectoryStore :=
  ⟨roots, config.readOnly, DirectoryStore.store config.chunkSize⟩

/-- An engine at the start of its work on a disk. -/
def EngineState.start (d : Disk) : EngineState DirectoryStore := { store := { disk := d } }

namespace Engine

/-- The answers of an engine to calls, one after the other. -/
def answers {σ : Type} (e : Engine σ) : List Call → EngineState σ → List (Except Failure Answer)
  | [], _ => []
  | call :: rest, s =>
    let (answer, s) := outcome (call.perform e) s
    answer :: answers e rest s

variable {used : Address → Prop} {e : Engine DirectoryStore} {s : EngineState DirectoryStore}
  {root : Place} {c : Catalog}

/-! ### One call -/

/-- **A call** is answered as the catalog answers it, and after it the disk mirrors
what the catalog has become. -/
theorem outcome_perform (he : e.Manages root) (hs : IsScheme used) (hshows : s.Shows used root c)
    {call : Call} (hcall : call.IsWithin used) :
    ∃ s', outcome (call.perform e) s = ((call.onCatalog root c).1, s') ∧
      s'.Shows used root (call.onCatalog root c).2 := by
  cases call with
  | insert view unit =>
    obtain ⟨s', hrun, hs'⟩ := outcome_insert he hs hshows hcall.1 hcall.2
    refine ⟨s', ?_, hs'⟩
    rw [Call.perform, outcome_bind, hrun]
    simp only [Call.onCatalog]
    cases (c.insertView view unit).1 <;> rfl
  | delete paths ranges tags unit =>
    obtain ⟨s', hrun, hs'⟩ := outcome_delete he hs hshows hcall.1 hcall.2 ranges tags
    refine ⟨s', ?_, hs'⟩
    rw [Call.perform, outcome_bind, hrun]
    rfl
  | project paths tags filter unit =>
    obtain ⟨s', hrun, hs'⟩ := outcome_project he hs hshows hcall.1 hcall.2 tags filter
    refine ⟨s', ?_, hs'⟩
    rw [Call.perform, outcome_bind, hrun]
    rfl
  | schema unit =>
    obtain ⟨s', hrun, hs'⟩ := outcome_schema he hs hshows hcall
    refine ⟨s', ?_, hs'⟩
    rw [Call.perform, outcome_bind, hrun]
    rfl

/-! ### Many calls -/

/-- Calls are answered as the catalog answers them. -/
theorem answers_eq (he : e.Manages root) (hs : IsScheme used) (hshows : s.Shows used root c)
    {calls : List Call} (hcalls : ∀ call ∈ calls, call.IsWithin used) :
    e.answers calls s = Catalog.answers root calls c := by
  induction calls generalizing s c with
  | nil => rfl
  | cons call rest ih =>
    obtain ⟨hcall, hrest⟩ := List.forall_mem_cons.mp hcalls
    obtain ⟨s', hrun, hs'⟩ := outcome_perform he hs hshows hcall
    rw [answers, hrun, Catalog.answers]
    exact congrArg _ (ih hs' hrest)

/-! ### The empty directory -/

/-- On an empty directory the empty catalog is mirrored. -/
theorem mirrors_empty {d : Disk} (ht : d.IsTree) (hroot : d.entry? root = some .dir)
    (hempty : d.below root = []) : Mirrors used d root .empty := by
  have hnone : ∀ {a : Address} {e}, d.entry? (root ++ a) = some e → a = [] := by
    intro a e ha
    by_contra hne
    have hmem := mem_below_iff.mpr ⟨hne, ha⟩
    rw [hempty] at hmem
    cases hmem
  exact
    { isTree := ht
      isDir := hroot
      file := nofun
      isSeries := by
        intro a content ha
        obtain rfl := hnone ha
        rw [List.append_nil, hroot] at ha
        cases ha
      noLink := by
        intro a t ha
        obtain rfl := hnone ha
        rw [List.append_nil, hroot] at ha
        cases ha
      onTheWay := fun hne ha => absurd (hnone ha) hne
      isUsed := nofun
      isStorable := nofun }

/-- What opening a writable engine without history makes of its root: the path of
the place where the directory is. -/
theorem roots_of_resolve {config : Config} {d d' : Disk} {roots : Roots} {dir : FilePath}
    (hopen : config.resolve d = (.ok roots, d')) (hwritable : config.readOnly = false)
    (hhistory : config.hasHistory = false) (hdir : config.dir = some dir)
    (hplace : d'.dirPlace? dir = some root) : roots = ⟨some (ofPlace root), none⟩ := by
  have hlocate := dirPlace?_eq_some_iff.mp hplace
  have hroot : Config.rootPath d' dir = .ok (ofPlace root) := by
    rw [Config.rootPath, exists?, canonical, hlocate]
    rfl
  rw [Config.resolve, hhistory] at hopen
  split at hopen
  · cases hopen
  · simp only [Bool.false_eq_true, if_false] at hopen
    split at hopen
    · cases hopen
    · next path d'' hmanaged =>
      cases hopen
      obtain ⟨dir', hdeclared, -, hpath⟩ := Config.managedRoot_eq_ok hmanaged hwritable
      obtain rfl : dir' = dir :=
        Option.some.inj ((Config.declared_eq_ok hdeclared).1.symm.trans hdir)
      rw [hroot] at hpath
      rw [Except.ok.inj hpath]

/-- **An engine answers calls as the catalog does** that is empty at first. It was
opened on a directory with nothing below it, it may write, and it has no history;
the calls may come in any order, and any of them may fail on the way. -/
theorem answers_eq_of_resolve {config : Config} {d d' : Disk} {roots : Roots} {dir : FilePath}
    (hopen : config.resolve d = (.ok roots, d')) (hwritable : config.readOnly = false)
    (hhistory : config.hasHistory = false) (hdir : config.dir = some dir)
    (hplace : d'.dirPlace? dir = some root) (hempty : d'.below root = []) (htree : d'.IsTree)
    (hs : IsScheme used) {calls : List Call} (hcalls : ∀ call ∈ calls, call.IsWithin used) :
    (config.engine roots).answers calls (.start d') = Catalog.answers root calls .empty := by
  have hroots := roots_of_resolve hopen hwritable hhistory hdir hplace
  have hroot : d'.entry? root = some .dir :=
    entry?_of_locate htree (dirPlace?_eq_some_iff.mp hplace)
  have hmanages : (config.engine roots).Manages root :=
    { store := ⟨config.chunkSize, rfl⟩
      managed := by rw [hroots]; rfl
      history := by rw [hroots]; rfl
      writable := hwritable }
  exact answers_eq hmanages hs ⟨rfl, rfl, mirrors_empty htree hroot hempty⟩ hcalls

/-! ### Calls on a small directory -/

/-- A disk with an empty directory. -/
def emptyDirectory : Disk := Disk.empty.put ["d"] .dir

theorem isTree_emptyDirectory : emptyDirectory.IsTree := by
  have hempty : Disk.empty.IsTree := by
    have hroot : ∀ {q e}, Disk.empty.entry? q = some e → q = [] := by
      intro q e hq
      by_contra hne
      rw [entry?_of_ne_nil _ hne] at hq
      cases hq
    refine ⟨fun hq n hn => ?_, fun hq => ?_⟩
    · rw [hroot hq] at hn
      cases hn
    · exact absurd (hroot hq) (by simp)
  have hname : Fits "d" := ⟨⟨by decide, by decide⟩, by decide⟩
  exact hempty.put (q := []) rfl hname fun _ => rfl

/-- Two columns, of which the second one lacks its first cell. -/
def twoColumns : DataView where
  orientation := .columns
  columns := [⟨"a.b", .long, .empty⟩, ⟨"c", .boolean, .empty⟩]
  keys := [1, 2]
  masks := [[true, true], [false, true]]
  values := [[.long 10, .long 20], [.boolean true]]
  consistent := by decide +kernel

/-- A column of another type than it had before. -/
def otherType : DataView where
  orientation := .rows
  columns := [⟨"a.b", .boolean, .empty⟩]
  keys := [3]
  masks := [[true]]
  values := [[.boolean false]]
  consistent := by decide +kernel

/-- The addresses of both columns. -/
def twoAddresses (a : Address) : Prop := a = ["u", "a", "b"] ∨ a = ["u", "c"]

theorem isScheme_twoAddresses : IsScheme twoAddresses where
  isAddress := by
    have hsegment : ∀ s ∈ ["a", "b", "c"], IsSegment s := by
      intro s hs
      simp only [List.mem_cons, List.not_mem_nil, or_false] at hs
      rcases hs with rfl | rfl | rfl <;> exact ⟨⟨⟨by decide, by decide⟩, by decide⟩, by decide⟩
    have hunit : Fits "u" := ⟨⟨by decide, by decide⟩, by decide⟩
    rintro a (rfl | rfl)
    · exact @IsAddress.mk "u" ["a"] "b" hunit
        (fun s hs => hsegment s (List.mem_of_mem_take (i := 2) hs)) (by decide)
    · exact @IsAddress.mk "u" [] "c" hunit
        (fun s hs => hsegment s (List.mem_of_mem_drop (i := 2) hs)) (by decide)
  apart := by
    rintro a b (rfl | rfl) (rfl | rfl) hab
    · rfl
    · revert hab; decide
    · revert hab; decide
    · rfl

/-- An insertion, a clash, a removal of one record, a projection, and a removal of
everything. -/
def someCalls : List Call :=
  [.insert twoColumns "u", .insert otherType "u", .delete ["a.*"] [⟨2, 3⟩] none "u",
    .project ["c", "*"] none (some (.key .ge 1)) "u", .delete ["*"] [] none "u", .schema "u"]

theorem isWithin_someCalls : ∀ call ∈ someCalls, call.IsWithin twoAddresses := by
  have hunit : Fits "u" := ⟨⟨by decide, by decide⟩, by decide⟩
  have hab : twoAddresses ("u" :: ["a", "b"]) := Or.inl rfl
  have hc : twoAddresses ("u" :: ["c"]) := Or.inr rfl
  have hplain : ∀ paths : List String, (∀ path ∈ paths, path = "c" ∨ Glob.isGlob path = true) →
      PlainPathsIn twoAddresses "u" paths := by
    intro paths h path hpath hglob
    rcases h path hpath with rfl | h
    · exact ⟨["c"], hc, by decide⟩
    · rw [hglob] at h
      cases h
  have hcells : ∀ l : List (List Value), (∀ values ∈ l, ∀ v ∈ values,
      v.dataType = .long ∨ v.dataType = .boolean) → ∀ values ∈ l, ∀ v ∈ values, v.IsExact := by
    intro l h values hvalues v hv
    rcases h values hvalues v hv with h | h <;> cases v <;> trivial
  intro call hcall
  simp only [someCalls, List.mem_cons, List.not_mem_nil, or_false] at hcall
  rcases hcall with rfl | rfl | rfl | rfl | rfl | rfl
  · refine ⟨?_, hcells _ (by decide)⟩
    intro series hseries
    simp only [twoColumns, List.mem_cons, List.not_mem_nil, or_false] at hseries
    rcases hseries with rfl | rfl
    · exact ⟨["a", "b"], hab, by decide⟩
    · exact ⟨["c"], hc, by decide⟩
  · refine ⟨?_, hcells _ (by decide)⟩
    intro series hseries
    obtain rfl := List.mem_singleton.mp hseries
    exact ⟨["a", "b"], hab, by decide⟩
  · exact ⟨hunit, hplain _ (by decide)⟩
  · exact ⟨hunit, hplain _ (by decide)⟩
  · exact ⟨hunit, hplain _ (by decide)⟩
  · exact hunit

theorem answers_eq_of_resolve_someCalls :
    let config : Config := { dir := some ⟨"/d"⟩ }
    let roots : Roots := ⟨some ⟨"/d"⟩, none⟩
    config.resolve emptyDirectory = (.ok roots, emptyDirectory) ∧
      emptyDirectory.dirPlace? ⟨"/d"⟩ = some ["d"] ∧ emptyDirectory.below ["d"] = [] ∧
      (config.engine roots).answers someCalls (.start emptyDirectory) =
        [.ok .done,
          .error (.task .insert (.argument (.valueType ⟨"/d/u/a/b"⟩ .long .boolean 3))),
          .ok .done,
          .ok (.rows ⟨[⟨"a.b", .long, .empty⟩, ⟨"c", .boolean, .empty⟩],
            [⟨1, [some (.long 10), none]⟩, ⟨2, [none, some (.boolean true)]⟩]⟩),
          .ok .done, .ok (.series [])] := by
  intro config roots
  have hopen : config.resolve emptyDirectory = (.ok roots, emptyDirectory) := by decide +kernel
  have hplace : emptyDirectory.dirPlace? ⟨"/d"⟩ = some ["d"] := by decide +kernel
  have hempty : emptyDirectory.below ["d"] = [] := by decide +kernel
  refine ⟨hopen, hplace, hempty, ?_⟩
  rw [answers_eq_of_resolve hopen rfl rfl rfl hplace hempty isTree_emptyDirectory
    isScheme_twoAddresses isWithin_someCalls]
  decide +kernel

/-- The answer to an insertion that fails is its failure. -/
theorem answers_of_insert_eq_error {view : DataView} {unit : String}
    {s' : EngineState DirectoryStore} {failure : Failure}
    (h : outcome (e.insert view unit) s = (.error failure, s')) :
    e.answers [.insert view unit] s = [.error failure] := by
  rw [answers, Call.perform, outcome_bind, h]
  rfl

/-- A name that an entry can have, but too long for a hidden file beside it. -/
def longName : String := String.ofList (List.replicate 251 'n')

theorem toList_longName : longName.toList = List.replicate 251 'n' := String.toList_ofList

theorem longName_ne {t : String} (ht : t.toList.length ≤ 2) : longName ≠ t := by
  rintro rfl
  rw [toList_longName, List.length_replicate] at ht
  omega

theorem notMem_longName {letter : Char} (h : letter ≠ 'n') : letter ∉ longName.toList := by
  intro hmem
  rw [toList_longName] at hmem
  exact h (List.eq_of_mem_replicate hmem)

theorem isSegment_longName : IsSegment longName := by
  have hentry : isEntryName longName = true := by
    rw [isEntryName_iff, isName_iff]
    exact ⟨longName_ne (by decide), notMem_longName (by decide), longName_ne (by decide),
      longName_ne (by decide), longName_ne (by decide)⟩
  exact ⟨⟨⟨hentry, notMem_longName (by decide)⟩, by decide +kernel⟩, notMem_longName (by decide)⟩

/-! Twice that name is too long for an entry. -/

theorem longerName_ne {t : String} (ht : t.toList.length ≤ 2) : longName ++ longName ≠ t := by
  rintro rfl
  rw [String.toList_append, toList_longName, List.length_append, List.length_replicate] at ht
  omega

theorem notMem_longerName {letter : Char} (h : letter ≠ 'n') :
    letter ∉ (longName ++ longName).toList := by
  simpa using notMem_longName h

theorem isEntryName_longerName : isEntryName (longName ++ longName) = true := by
  rw [isEntryName_iff, isName_iff]
  exact ⟨longerName_ne (by decide), notMem_longerName (by decide), longerName_ne (by decide),
    longerName_ne (by decide), longerName_ne (by decide)⟩

theorem nameLimit_lt_longerName : nameLimit < (longName ++ longName).utf8ByteSize := by
  rw [String.utf8ByteSize_append]
  exact Nat.lt_of_lt_of_le (by decide : nameLimit < 251 + 251) (by decide +kernel)

theorem segments_longerName : Location.segments (longName ++ longName) = [longName ++ longName] :=
  Location.segments_eq_singleton (longerName_ne (by decide)) (notMem_longerName (by decide))

/-- One cell of a series of such a name. -/
def longSegment : DataView where
  orientation := .columns
  columns := [⟨longName, .long, .empty⟩]
  keys := [1]
  masks := [[true]]
  values := [[.long 1]]
  consistent := by decide +kernel

/-- **Without a bound on the last segment** the engine does not answer as the
catalog does: the hidden file cannot be written. The directory is empty, the unit
has a directory, and nothing in the path means anything but itself. -/
theorem answers_longSegment :
    let config : Config := { dir := some ⟨"/d"⟩ }
    let roots : Roots := ⟨some ⟨"/d"⟩, none⟩
    config.resolve emptyDirectory = (.ok roots, emptyDirectory) ∧
      emptyDirectory.below ["d"] = [] ∧ Location.unitDir ⟨"/d"⟩ "u" = .ok ⟨"/d/u"⟩ ∧
      longName ≠ "" ∧ (∀ letter ∈ ['.', '*', '/', '\x00', '\n'], letter ∉ longName.toList) ∧
      (config.engine roots).answers [.insert longSegment "u"] (.start emptyDirectory) =
        [.error (.task .insert (.io .invalidFilename))] ∧
      Catalog.answers ["d"] [.insert longSegment "u"] .empty = [.ok .done] := by
  intro config roots
  have hopen : config.resolve emptyDirectory = (.ok roots, emptyDirectory) := by decide +kernel
  have hempty : emptyDirectory.below ["d"] = [] := by decide +kernel
  have hletters : ∀ letter ∈ ['.', '*', '/', '\x00', '\n'], letter ∉ longName.toList := by
    intro letter hletter
    refine notMem_longName ?_
    rintro rfl
    exact absurd hletter (by decide)
  refine ⟨hopen, hempty, by decide +kernel, longName_ne (by decide), hletters, ?_, rfl⟩
  have hmanages : (config.engine roots).Manages ["d"] := ⟨⟨config.chunkSize, rfl⟩, rfl, rfl, rfl⟩
  have hshows : (EngineState.start emptyDirectory).Shows (fun _ => False) ["d"] .empty :=
    ⟨rfl, rfl, mirrors_empty isTree_emptyDirectory rfl hempty⟩
  have hcells : longSegment.cells 0 = [(1, .long 1)] := by decide +kernel
  have htype : ∀ cell ∈ longSegment.cells 0, cell.2.dataType = .long := by
    rw [hcells]
    intro cell hcell
    obtain rfl := List.mem_singleton.mp hcell
    rfl
  have hunit : Fits "u" := ⟨⟨by decide, by decide⟩, by decide⟩
  have hpath : longName = Catalog.pathOf ([] ++ [longName]) := by
    rw [Catalog.pathOf, List.nil_append, String.intercalate_singleton]
  have hsegments : ∀ s ∈ [] ++ [longName], IsSegment s := by
    intro s hs
    rw [List.mem_singleton.mp hs]
    exact isSegment_longName
  have hcolumns : longSegment.columns = [⟨longName, .long, .empty⟩] := rfl
  obtain ⟨s', hrun⟩ := outcome_insert_of_longDraft hmanages hshows hcolumns hpath hunit hsegments
    (by decide +kernel) (fun _ _ => rfl) htype (by rw [hcells]; exact List.cons_ne_nil _ _)
  exact answers_of_insert_eq_error hrun

end Engine

end KeyedSeries

import KeyedSeries.Proofs.Engine.FailedInsert

/-!
# Columns of another type

A series has one type, the one it was made with. Every record that is written is compared
with it, and so **no insertion ever changes the type of a series that is there**, whether the
insertion succeeds or fails (`KeyedSeries.DirectoryStore.HoldsType.of_writeColumns`), and an
insertion of a column of another type fails if the column has a cell. But a column without
cells has no record that could be compared: it **takes part in an insertion that succeeds and
replaces the tags** of the series (`KeyedSeries.Engine.kept_of_otherType`). Nor do the columns
look at each other before the first one is written: where two spellings name one series, the
column of the right type is stored before the other one fails
(`KeyedSeries.Engine.changed_by_otherType`).

What is said here holds in a tree that may hold anything but links.
-/

namespace KeyedSeries

open Disk FilePath

/-- A document that is written is read, if at all, with its type. -/
theorem Document.dataType_of_ofBytes?_bytes {doc doc' : Document}
    (h : ofBytes? doc.bytes = some doc') : doc'.dataType = doc.dataType := by
  by_cases hfinite : doc.IsFinite
  · rw [ofBytes?_bytes_of_isFinite hfinite] at h
    cases h
    rfl
  · rw [ofBytes?_bytes_of_not_isFinite hfinite] at h
    cases h

namespace DirectoryStore

variable {d d' : Disk} {q : Place} {type : DataType}

/-! ### What keeps a type -/

/-- There is a file at a place, and if it can be read it has a type. A document with a number
that is not finite cannot be read once it is written, but then it has no other type either. -/
def HoldsType (d : Disk) (q : Place) (type : DataType) : Prop :=
  ∃ content, d.fileAt? q = some content ∧
    ∀ doc, Document.ofBytes? content = some doc → doc.dataType = type

theorem HoldsType.of_docAt? {doc : Document} (h : d.docAt? q = some doc) :
    HoldsType d q doc.dataType := by
  obtain ⟨content, hcontent, hdoc⟩ := Option.bind_eq_some_iff.mp h
  refine ⟨content, hcontent, fun doc' hdoc' => ?_⟩
  rw [hdoc] at hdoc'
  cases hdoc'
  rfl

theorem HoldsType.congr (h : HoldsType d q type) (hsame : d'.fileAt? q = d.fileAt? q) :
    HoldsType d' q type := by
  obtain ⟨content, hcontent, htype⟩ := h
  exact ⟨content, hsame.trans hcontent, htype⟩

section Series

variable {series : SeriesInfo} {cells : List (Key × Value)}

/-- A series is only written into a file that is a document. -/
theorem HoldsType.exists_docAt? (ht : d.IsPlainTree) (h : HoldsType d q type)
    (hwrite : writeSeries d (ofPlace q) (recordsOf series.dataType cells) series.tags =
      (.ok (), d')) : ∃ doc, d.docAt? q = some doc ∧ doc.dataType = type := by
  obtain ⟨content, hcontent, htype⟩ := h
  cases hdoc : Document.ofBytes? content with
  | none =>
    rw [writeSeries, load_of_unreadable ht.toIsTree hcontent hdoc] at hwrite
    cases hwrite
  | some doc => exact ⟨doc, by rw [docAt?, hcontent, Option.bind_some, hdoc], htype doc hdoc⟩

/-- **A series that is written into a file of another type** has no cells. -/
theorem HoldsType.cells_eq_nil (ht : d.IsPlainTree) (hq : IsFilePlace q) (h : HoldsType d q type)
    (hother : series.dataType ≠ type)
    (hwrite : writeSeries d (ofPlace q) (recordsOf series.dataType cells) series.tags =
      (.ok (), d')) : cells = [] := by
  obtain ⟨doc, hdoc, rfl⟩ := h.exists_docAt? ht hwrite
  obtain ⟨-, htype, -⟩ := files_of_writeSeries ht hq.isEntryName hq.ne_nil hwrite
  by_contra hne
  exact hother (htype doc hdoc hne)

/-- **A series that is written** keeps the type of every file that is not hidden. -/
theorem HoldsType.of_writeSeries (ht : d.IsPlainTree) {p : Place} (hp : IsFilePlace p)
    (hq : IsShown q) (h : HoldsType d q type)
    (hwrite : writeSeries d (ofPlace p) (recordsOf series.dataType cells) series.tags =
      (.ok (), d')) : HoldsType d' q type := by
  obtain ⟨-, -, hfiles⟩ := files_of_writeSeries ht hp.isEntryName hp.ne_nil hwrite
  by_cases heq : q = p
  · subst heq
    obtain ⟨doc, hdoc, rfl⟩ := h.exists_docAt? ht hwrite
    refine ⟨_, by rw [hfiles q hq, if_pos rfl, hdoc]; rfl, fun doc' hdoc' => ?_⟩
    have hsame := Document.dataType_of_ofBytes?_bytes hdoc'
    exact hsame
  · exact h.congr (by rw [hfiles q hq, if_neg heq])

end Series

section Columns

variable {place : SeriesInfo → Place}
  {columns before after : List (SeriesInfo × List (Key × Value))}
  {column : SeriesInfo × List (Key × Value)}

/-- **Columns that are written** keep it, whatever their types are. -/
theorem HoldsType.of_writeColumns (ht : d.IsPlainTree)
    (hplaces : ∀ column ∈ columns, IsFilePlace (place column.1)) (hq : IsShown q)
    (h : HoldsType d q type) (hwrite : forAll (writeColumn place) d columns = (.ok (), d')) :
    HoldsType d' q type := by
  induction columns generalizing d with
  | nil =>
    cases hwrite
    exact h
  | cons column rest ih =>
    obtain ⟨hplace, hrest⟩ := List.forall_mem_cons.mp hplaces
    obtain ⟨d₁, hcolumn, hwrite⟩ := forAll_cons_eq_ok_iff.mp hwrite
    obtain ⟨ht₁, -⟩ := files_of_writeSeries ht hplace.isEntryName hplace.ne_nil hcolumn
    exact ih ht₁ hrest (h.of_writeSeries ht hplace hq hcolumn) hwrite

/-- **A column of another type** that is written has no cells. -/
theorem HoldsType.cells_eq_nil_of_writeColumns (ht : d.IsPlainTree)
    (hplaces : ∀ other ∈ before ++ column :: after, IsFilePlace (place other.1))
    (h : HoldsType d (place column.1) type) (hother : column.1.dataType ≠ type)
    (hwrite : forAll (writeColumn place) d (before ++ column :: after) = (.ok (), d')) :
    column.2 = [] := by
  obtain ⟨hbefore, hplace, -⟩ :=
    List.forall_mem_append.mp hplaces |>.imp_right List.forall_mem_cons.mp
  obtain ⟨d₁, hfirst, hwrite⟩ := forAll_append_eq_ok_iff.mp hwrite
  obtain ⟨d₂, hcolumn, -⟩ := forAll_cons_eq_ok_iff.mp hwrite
  obtain ⟨ht₁, -⟩ := others_of_writeColumns ht hbefore hfirst
  exact (h.of_writeColumns ht hbefore hplace.isShown hfirst).cells_eq_nil ht₁ hplace hother hcolumn

/-- **A column of another type that is alone in its file** gives the document its tags when it
is written, and nothing else. -/
theorem retagged_of_alone (ht : d.IsPlainTree)
    (hplaces : ∀ other ∈ before ++ column :: after, IsFilePlace (place other.1))
    (halone : ∀ other ∈ before ++ after, place other.1 ≠ place column.1) {doc : Document}
    (hdoc : d.docAt? (place column.1) = some doc) (hother : column.1.dataType ≠ doc.dataType)
    (hwrite : forAll (writeColumn place) d (before ++ column :: after) = (.ok (), d')) :
    column.2 = [] ∧
      d'.fileAt? (place column.1) = some { doc with tags := column.1.tags }.bytes := by
  have hnil :=
    (HoldsType.of_docAt? hdoc).cells_eq_nil_of_writeColumns ht hplaces hother hwrite
  obtain ⟨-, hfile⟩ := taken_of_alone ht hplaces halone hwrite
  rw [hdoc, hnil] at hfile
  exact ⟨hnil, hfile⟩

end Columns

end DirectoryStore

namespace Engine

open Location DirectoryStore

variable {e : Engine DirectoryStore} {s s' : EngineState DirectoryStore} {root : Place}
  {unit : String} {view : DataView} {result : Except Failure Unit}

/-- **Whatever an insertion comes to**, it has changed nothing, or it has written the first
columns and of the others at most hidden files; if it succeeds, it has written all columns. -/
theorem shown_of_insert (h : e.WorksOn s root)
    (hinsert : outcome (e.insert view unit) s = (result, s')) :
    s'.store.disk = s.store.disk ∧ result ≠ .ok () ∨
      (∀ column ∈ view.cellColumns, IsFilePlace (placeOf root unit column.1.path)) ∧
        ∃ k d, forAll (writeColumn fun series => placeOf root unit series.path) s.store.disk
            (view.cellColumns.take k) = (.ok (), d) ∧
          SameShown d s'.store.disk ∧
            (result = .ok () → view.cellColumns.take k = view.cellColumns) := by
  cases result with
  | ok u =>
    obtain ⟨-, -, -, -, hfiles, hwrite⟩ := outcome_insert_eq_ok h hinsert
    refine .inr ⟨fun column hcolumn => isFilePlace_of_columns h hfiles hcolumn,
      view.cellColumns.length, s'.store.disk, ?_, .refl _, fun _ => List.take_length⟩
    rw [List.take_length, hwrite]
  | error failure =>
    rcases outcome_insert_eq_error hinsert with
      ⟨-, hsame⟩ | ⟨-, path, files, cause, hpath, hfiles, -, hwrite⟩
    · exact .inl ⟨by rw [hsame], nofun⟩
    · obtain rfl := writableRoot_eq_ok h.managed hpath
      obtain ⟨rfl, hall⟩ := filesOf_eq_ok h.isEntryName hfiles
      obtain ⟨chunkSize, hstore⟩ := h.store
      rw [hstore] at hwrite
      cases hopen : s.store.closed with
      | true =>
        rw [outcome_write_of_closed chunkSize hopen] at hwrite
        exact .inl ⟨by rw [← (Prod.mk.inj hwrite).2], nofun⟩
      | false =>
        have hplaces : ∀ column ∈ view.cellColumns,
            IsFilePlace (placeOf root unit column.1.path) :=
          fun column hcolumn => isFilePlace_of_columns h hall hcolumn
        obtain ⟨k, d, -, hbefore, hshown⟩ := shown_of_writeColumns_error h.isPlainTree hplaces
          (writeColumns_of_outcome_write hopen hwrite)
        exact .inr ⟨hplaces, k, d, hbefore, hshown, nofun⟩

/-- **A series that is there and a column of another type.** The tree may hold anything but
links, and the insertion may come to anything. If the column has cells, the insertion fails.
Whether it has or not, the series keeps its type. If no other column of the view has the same
file, the file is as it was and the insertion has failed, or the column has no cells and the
series has the tags of the column, with its type and its records as before. -/
theorem kept_of_otherType (h : e.WorksOn s root)
    {before after : List (SeriesInfo × List (Key × Value))}
    {column : SeriesInfo × List (Key × Value)}
    (hcolumns : view.cellColumns = before ++ column :: after)
    {doc : Document} (hdoc : s.store.disk.docAt? (placeOf root unit column.1.path) = some doc)
    (htype : column.1.dataType ≠ doc.dataType)
    (hinsert : outcome (e.insert view unit) s = (result, s')) :
    (column.2 ≠ [] → result ≠ .ok ()) ∧
      HoldsType s'.store.disk (placeOf root unit column.1.path) doc.dataType ∧
      ((∀ other ∈ before ++ after,
          placeOf root unit other.1.path ≠ placeOf root unit column.1.path) →
        s'.store.disk.fileAt? (placeOf root unit column.1.path) =
            s.store.disk.fileAt? (placeOf root unit column.1.path) ∧ result ≠ .ok () ∨
          column.2 = [] ∧ s'.store.disk.fileAt? (placeOf root unit column.1.path) =
            some { doc with tags := column.1.tags }.bytes) := by
  have hholds := HoldsType.of_docAt? hdoc
  rcases shown_of_insert h hinsert with ⟨hsame, hfails⟩ | ⟨hplaces, k, d, hwrite, hshown, hall⟩
  · exact ⟨fun _ => hfails, hholds.congr (by rw [hsame]), fun _ => .inl ⟨by rw [hsame], hfails⟩⟩
  have hplace := hplaces column (by rw [hcolumns]; simp)
  have hplaces' : ∀ other ∈ view.cellColumns.take k,
      IsFilePlace (placeOf root unit other.1.path) :=
    fun other hother => hplaces other (List.mem_of_mem_take hother)
  refine ⟨fun hne hok => ?_, ?_, fun halone => ?_⟩
  · rw [hall hok, hcolumns] at hwrite
    exact hne (hholds.cells_eq_nil_of_writeColumns h.isPlainTree (hcolumns ▸ hplaces) htype hwrite)
  · exact (hholds.of_writeColumns h.isPlainTree hplaces' hplace.isShown hwrite).congr
      (hshown _ hplace.isShown)
  · rw [hshown _ hplace.isShown]
    rw [hcolumns] at hwrite hplaces' hall
    rcases Nat.lt_or_ge before.length k with hlt | hle
    · -- The insertion has come to the column.
      obtain ⟨m, rfl⟩ := Nat.exists_eq_add_of_lt hlt
      rw [Nat.add_assoc, List.take_length_add_append, List.take_succ_cons] at hwrite hplaces'
      refine .inr (retagged_of_alone h.isPlainTree hplaces' (fun other hother => ?_) hdoc htype
        hwrite)
      rw [List.mem_append] at hother
      exact halone other (List.mem_append.mpr (hother.imp_right List.mem_of_mem_take))
    · -- The insertion has not come so far.
      have hfails : result ≠ .ok () := by
        intro hok
        have hlength := congrArg List.length (hall hok)
        simp only [List.length_take, List.length_append, List.length_cons] at hlength
        omega
      rw [List.take_append_of_le_length hle] at hwrite hplaces'
      obtain ⟨-, hothers⟩ := others_of_writeColumns h.isPlainTree hplaces' hwrite
      refine .inl ⟨hothers _ hplace.isShown fun other hother => ?_, hfails⟩
      exact (halone other (List.mem_append_left _ (List.mem_of_mem_take hother))).symm

/-- A series of integers with one record and no tags. -/
def oneLong : Document := ⟨.long, .empty, .ofList [(1, .long 1)]⟩

/-- A unit with this series alone, under a name of two segments. -/
def oneLongSeries : Disk :=
  ⟨.ofList [(["d"], .dir), (["d", "u"], .dir), (["d", "u", "a"], .dir),
    (["d", "u", "a", "b"], .file oneLong.bytes)]⟩

/-- A tag of a column of another type. -/
def someTags : Tags := .ofList [("k", "v")]

/-- A view of two columns with a cell each, the second one of another type than the series. -/
def clashing : DataView where
  orientation := .rows
  columns := [⟨"c", .long, .empty⟩, ⟨"a.b", .boolean, someTags⟩]
  keys := [2]
  masks := [[true, true]]
  values := [[.long 2, .boolean true]]
  consistent := by decide

/-- The insertion of the two columns fails, and the file of the series is as it was. -/
theorem kept_of_otherType_clashing :
    let s := EngineState.start oneLongSeries
    let s' := (outcome (ofDirectory.insert clashing "u") s).2
    (outcome (ofDirectory.insert clashing "u") s).1 ≠ .ok () ∧
      s'.store.disk.fileAt? ["d", "u", "a", "b"] = some oneLong.bytes := by
  intro s s'
  have hworks : ofDirectory.WorksOn s ["d"] :=
    ⟨⟨1, rfl⟩, by decide, by decide, by decide +kernel⟩
  have hcolumns : clashing.cellColumns = [(⟨"c", .long, .empty⟩, [(2, .long 2)])] ++
      (⟨"a.b", .boolean, someTags⟩, [(2, .boolean true)]) :: [] := by decide
  have hdoc : s.store.disk.docAt? (placeOf ["d"] "u" "a.b") = some oneLong := by decide +kernel
  obtain ⟨hfails, -, hfile⟩ := kept_of_otherType hworks hcolumns hdoc (by decide) rfl
  rcases hfile (by decide) with ⟨hsame, -⟩ | ⟨hnil, -⟩
  · exact ⟨hfails (by simp), hsame⟩
  · simp at hnil

/-- A view of one column of another type that has no cells, and a tag. -/
def untold : DataView where
  orientation := .rows
  columns := [⟨"a.b", .boolean, someTags⟩]
  keys := [2]
  masks := [[false]]
  values := [[]]
  consistent := by decide

/-- A view of two spellings of one series, the second one of another type. -/
def clashingSpellings : DataView where
  orientation := .rows
  columns := [⟨"a.b", .long, .empty⟩, ⟨"a..b", .boolean, .empty⟩]
  keys := [2]
  masks := [[true, true]]
  values := [[.long 2, .boolean true]]
  consistent := by decide

/-- **A column of another type changes a series**: without cells it replaces the tags, and the
insertion succeeds; with a cell it fails, but not before another spelling of the series has
added a record. -/
theorem changed_by_otherType :
    let s := EngineState.start oneLongSeries
    let retagged := outcome (ofDirectory.insert untold "u") s
    let clashed := outcome (ofDirectory.insert clashingSpellings "u") s
    s.store.disk.docAt? ["d", "u", "a", "b"] = some oneLong ∧
      retagged.1 = .ok () ∧
      retagged.2.store.disk.docAt? ["d", "u", "a", "b"] = some { oneLong with tags := someTags } ∧
      clashed.1 = .error (.task .insert
        (.argument (.valueType ⟨"/d/u/a/b"⟩ .long .boolean 2))) ∧
      clashed.2.store.disk.docAt? ["d", "u", "a", "b"] =
        some { oneLong with records := .ofList [(1, .long 1), (2, .long 2)] } := by
  decide +kernel

end Engine

end KeyedSeries

import KeyedSeries.Proofs.Engine.Stored

/-!
# Columns that share a file

No two columns of a view have the same path, but paths are compared as they are
spelled, and the file of a path is that of its segments: `a.b` and `a..b` are two
columns and one file. The columns are written one after the other, and so an
insertion that succeeds shows, at every key, **the cell of the last column of the
file that has one there** (`KeyedSeries.Engine.project_of_insert_last`). A cell is
lost if and only if a later column of the same file has one at the same key.

What is said here holds in a tree that may hold anything but links. The documents
that the cells go to hold no floating-point numbers: a number that is read from a
document that somebody else wrote need not be finite, and then it makes the
document unreadable once it is written.
-/

namespace KeyedSeries

open Disk FilePath

/-! ### Documents with cells added -/

/-- Adding cells changes nothing at any other key. -/
theorem get?_addCells_of_notMem {records : OrderedMap Key Value} {cells : List (Key × Value)}
    {k : Key} (h : ∀ v, (k, v) ∉ cells) : (addCells records cells).get? k = records.get? k := by
  induction cells generalizing records with
  | nil => rfl
  | cons cell rest ih =>
    have hrest : (addCells (records.insert cell.1 cell.2) rest).get? k =
        (records.insert cell.1 cell.2).get? k := ih fun v hv => h v (List.mem_cons_of_mem _ hv)
    rw [addCells, List.foldl_cons, ← addCells, hrest, OrderedMap.get?_insert, if_neg]
    rintro rfl
    exact h cell.2 List.mem_cons_self

/-- What is found with cells added is one of them, or was there. -/
theorem get?_addCells {records : OrderedMap Key Value} {cells : List (Key × Value)} {k : Key}
    {v : Value} (h : (addCells records cells).get? k = some v) :
    (k, v) ∈ cells ∨ records.get? k = some v := by
  induction cells generalizing records with
  | nil => exact .inr h
  | cons cell rest ih =>
    have hrest : (addCells (records.insert cell.1 cell.2) rest).get? k = some v := h
    rcases ih hrest with hmem | hold
    · exact .inl (List.mem_cons_of_mem _ hmem)
    · rw [OrderedMap.get?_insert] at hold
      split at hold
      · next heq =>
        cases hold
        exact .inl (by rw [heq]; exact List.mem_cons_self)
      · exact .inr hold

/-- A document stays exact if exact cells are added. -/
theorem Document.isExact_of_upsert? {old : Option Document} {series : SeriesInfo}
    {cells : List (Key × Value)} {doc : Document} (hold : ∀ doc, old = some doc → doc.IsExact)
    (hcells : ∀ cell ∈ cells, cell.2.IsExact) (h : upsert? old series cells = some doc) :
    doc.IsExact := by
  have hadd : ∀ records : OrderedMap Key Value, (∀ k v, records.get? k = some v → v.IsExact) →
      ∀ k v, (addCells records cells).get? k = some v → v.IsExact := by
    intro records hrecords k v hv
    rcases get?_addCells hv with hmem | hget
    · exact hcells _ hmem
    · exact hrecords k v hget
  cases old with
  | none =>
    rw [upsert?, Option.ite_none_left_eq_some] at h
    obtain rfl := Option.some.inj h.2
    exact hadd .empty fun k v hv => by cases hv
  | some doc =>
    cases h
    exact hadd doc.records (hold doc rfl)

namespace DirectoryStore

variable {d d' : Disk} {q : Place}

/-! ### What a place holds after columns were written -/

/-- **A series that is written leaves its document with the cells**, if there are no
floating-point numbers in it. -/
theorem docAt?_of_writeSeries (ht : d.IsPlainTree) (hq : IsFilePlace q) {series : SeriesInfo}
    {cells : List (Key × Value)} (hold : ∀ doc, d.docAt? q = some doc → doc.IsExact)
    (hcells : ∀ cell ∈ cells, cell.2.IsExact)
    (h : writeSeries d (ofPlace q) (recordsOf series.dataType cells) series.tags = (.ok (), d')) :
    d'.docAt? q = Document.upsert? (d.docAt? q) series cells := by
  obtain ⟨-, -, hfiles⟩ := files_of_writeSeries ht hq.isEntryName hq.ne_nil h
  rw [docAt?, hfiles q hq.isShown, if_pos rfl]
  cases hdoc : Document.upsert? (d.docAt? q) series cells with
  | none => rfl
  | some doc =>
    rw [Option.map_some, Option.bind_some,
      Document.ofBytes?_bytes (Document.isExact_of_upsert? hold hcells hdoc)]

section Columns

variable {place : SeriesInfo → Place} {columns : List (SeriesInfo × List (Key × Value))}

/-- **What columns leave of a document.** It stays there, exact and of its type, and it
has the values that it had at all keys where none of the columns of its file has a
cell. -/
theorem docAt?_of_writeColumns (ht : d.IsPlainTree)
    (h : forAll (writeColumn place) d columns = (.ok (), d'))
    (hplaces : ∀ column ∈ columns, IsFilePlace (place column.1))
    (hcells : ∀ column ∈ columns, ∀ cell ∈ column.2, cell.2.IsExact) (hq : IsShown q)
    (hexact : ∀ doc, d.docAt? q = some doc → doc.IsExact) :
    d'.IsPlainTree ∧ (∀ doc, d'.docAt? q = some doc → doc.IsExact) ∧
      ∀ doc, d.docAt? q = some doc → ∃ doc', d'.docAt? q = some doc' ∧
        doc'.dataType = doc.dataType ∧ ∀ k v, doc.records.get? k = some v →
          (∀ column ∈ columns, place column.1 = q → ∀ w, (k, w) ∉ column.2) →
            doc'.records.get? k = some v := by
  induction columns generalizing d with
  | nil =>
    cases h
    exact ⟨ht, hexact, fun doc hdoc => ⟨doc, hdoc, rfl, fun k v hv _ => hv⟩⟩
  | cons column rest ih =>
    obtain ⟨hplace, hrest⟩ := List.forall_mem_cons.mp hplaces
    obtain ⟨hcolumn, hcells⟩ := List.forall_mem_cons.mp hcells
    obtain ⟨d₁, hwrite, h⟩ := forAll_cons_eq_ok_iff.mp h
    obtain ⟨ht₁, -, hfiles⟩ := files_of_writeSeries ht hplace.isEntryName hplace.ne_nil hwrite
    by_cases heq : place column.1 = q
    · subst heq
      have hdoc₁ := docAt?_of_writeSeries ht hplace hexact hcolumn hwrite
      have hexact₁ : ∀ doc, d₁.docAt? (place column.1) = some doc → doc.IsExact :=
        fun doc hdoc => Document.isExact_of_upsert? hexact hcolumn (hdoc₁ ▸ hdoc)
      obtain ⟨ht', hexact', hkept⟩ := ih ht₁ h hrest hcells hexact₁
      refine ⟨ht', hexact', fun doc hdoc => ?_⟩
      rw [hdoc, Document.upsert?] at hdoc₁
      obtain ⟨doc', hdoc', htype, hvalues⟩ := hkept _ hdoc₁
      refine ⟨doc', hdoc', htype, fun k v hv hnone => hvalues k v ?_ ?_⟩
      · rw [get?_addCells_of_notMem (hnone column List.mem_cons_self rfl), hv]
      · exact fun other hother => hnone other (List.mem_cons_of_mem _ hother)
    · -- The column has another file, and the document is the same behind it.
      have hsame : d₁.docAt? q = d.docAt? q := by
        rw [docAt?, hfiles q hq, if_neg fun h => heq h.symm, docAt?]
      obtain ⟨ht', hexact', hkept⟩ := ih ht₁ h hrest hcells (hsame ▸ hexact)
      refine ⟨ht', hexact', fun doc hdoc => ?_⟩
      obtain ⟨doc', hdoc', htype, hvalues⟩ := hkept doc (hsame.trans hdoc)
      exact ⟨doc', hdoc', htype, fun k v hv hnone => hvalues k v hv fun other hother =>
        hnone other (List.mem_cons_of_mem _ hother)⟩

/-- **A column with cells is found in its document**, but for the cells that later
columns of the same file have taken the places of. -/
theorem docAt?_of_writeColumn_of_cells (ht : d.IsPlainTree)
    {before after : List (SeriesInfo × List (Key × Value))}
    {column : SeriesInfo × List (Key × Value)}
    (h : forAll (writeColumn place) d (before ++ column :: after) = (.ok (), d'))
    (hplaces : ∀ other ∈ before ++ column :: after, IsFilePlace (place other.1))
    (hcells : ∀ other ∈ before ++ column :: after, ∀ cell ∈ other.2, cell.2.IsExact)
    (hexact : ∀ doc, d.docAt? (place column.1) = some doc → doc.IsExact)
    (hne : column.2 ≠ []) (hkeys : column.2.Pairwise fun a b => a.1 < b.1) :
    ∃ doc, d'.docAt? (place column.1) = some doc ∧ doc.dataType = column.1.dataType ∧
      ∀ k v, (k, v) ∈ column.2 →
        (∀ later ∈ after, place later.1 = place column.1 → ∀ w, (k, w) ∉ later.2) →
          doc.records.get? k = some v := by
  simp only [List.forall_mem_append, List.forall_mem_cons] at hplaces hcells
  obtain ⟨hbefore, hplace, hafter⟩ := hplaces
  obtain ⟨hcellsBefore, hcolumn, hcellsAfter⟩ := hcells
  obtain ⟨d₁, h₁, h⟩ := forAll_append_eq_ok_iff.mp h
  obtain ⟨d₂, hwrite, h₂⟩ := forAll_cons_eq_ok_iff.mp h
  obtain ⟨ht₁, hexact₁, -⟩ :=
    docAt?_of_writeColumns ht h₁ hbefore hcellsBefore hplace.isShown hexact
  obtain ⟨ht₂, htype, -⟩ := files_of_writeSeries ht₁ hplace.isEntryName hplace.ne_nil hwrite
  have hdoc₂ := docAt?_of_writeSeries ht₁ hplace hexact₁ hcolumn hwrite
  have hexact₂ : ∀ doc, d₂.docAt? (place column.1) = some doc → doc.IsExact :=
    fun doc hdoc => Document.isExact_of_upsert? hexact₁ hcolumn (hdoc₂ ▸ hdoc)
  -- Right after it was written the document has all cells of the column.
  obtain ⟨doc, hdoc, hdocType, hvalues⟩ : ∃ doc, d₂.docAt? (place column.1) = some doc ∧
      doc.dataType = column.1.dataType ∧
        ∀ cell ∈ column.2, doc.records.get? cell.1 = some cell.2 := by
    rw [hdoc₂]
    cases hold : d₁.docAt? (place column.1) with
    | none =>
      rw [Document.upsert?, if_neg (by simpa using hne)]
      exact ⟨_, rfl, rfl, fun cell hcell => get?_addCells_of_mem hkeys hcell⟩
    | some old =>
      exact ⟨_, rfl, (htype old hold hne).symm, fun cell hcell => get?_addCells_of_mem hkeys hcell⟩
  obtain ⟨-, -, hkept⟩ :=
    docAt?_of_writeColumns ht₂ h₂ hafter hcellsAfter hplace.isShown hexact₂
  obtain ⟨doc', hdoc', hsame, hkeeps⟩ := hkept doc hdoc
  exact ⟨doc', hdoc', hsame.trans hdocType, fun k v hv hlast => hkeeps k v (hvalues _ hv) hlast⟩

end Columns

end DirectoryStore

namespace Engine

open Location

/-- The value of the last column of a file that has a cell at a key. The file is that
of the segments. -/
def LastCell (columns : List (SeriesInfo × List (Key × Value))) (names : List String) (k : Key)
    (v : Value) : Prop :=
  ∃ before column after, columns = before ++ column :: after ∧ segments column.1.path = names ∧
    (k, v) ∈ column.2 ∧
      ∀ later ∈ after, segments later.1.path = names → ∀ w, (k, w) ∉ later.2

variable {e : Engine DirectoryStore} {s s' : EngineState DirectoryStore} {root : Place}
  {unit : String}

/-- A column without floating-point numbers has cells that are read back as they are. -/
theorem isExact_of_dataType {view : DataView} {column : SeriesInfo × List (Key × Value)}
    (hcolumn : column ∈ view.cellColumns) (hfloat : column.1.dataType ≠ .float)
    (hdouble : column.1.dataType ≠ .double) : ∀ cell ∈ column.2, cell.2.IsExact := by
  intro cell hcell
  have htype := DataView.dataType_of_mem_cellColumns hcolumn hcell
  cases hvalue : cell.2 with
  | float x => exact hfloat (by rw [← htype, hvalue]; rfl)
  | double x => exact hdouble (by rw [← htype, hvalue]; rfl)
  | _ => trivial

/-- **The last cell of a file at a key is shown.** The tree may hold anything but links,
the view has no floating-point columns, and no floating-point numbers are in the
documents that its cells go to. After an insertion that succeeds every column with
cells is shown alone under its path, with its type, and at every key with the value
of the last column of the same file that has a cell there. -/
theorem project_of_insert_last (h : e.WorksOn s root) {view : DataView}
    (htypes : ∀ series ∈ view.columns, series.dataType ≠ .float ∧ series.dataType ≠ .double)
    (hglob : ∀ series ∈ view.columns, Glob.isGlob series.path = false)
    (hdocs : ∀ column ∈ view.cellColumns, column.2 ≠ [] → ∀ doc,
      s.store.disk.docAt? (placeOf root unit column.1.path) = some doc → doc.IsExact)
    (hinsert : outcome (e.insert view unit) s = (.ok (), s'))
    {column : SeriesInfo × List (Key × Value)} (hcolumn : column ∈ view.cellColumns)
    (hne : column.2 ≠ []) :
    ∃ rows tags, (outcome (e.project [column.1.path] none none unit false) s').1 = .ok rows ∧
      rows.header = [⟨column.1.path, column.1.dataType, tags⟩] ∧
        ∀ k v, LastCell view.cellColumns (segments column.1.path) k v →
          ⟨k, [some v]⟩ ∈ rows.rows := by
  obtain ⟨-, -, hopen, hstoreOpen, hfiles, hwrite⟩ := outcome_insert_eq_ok h hinsert
  have hplaces : ∀ other ∈ view.cellColumns,
      DirectoryStore.IsFilePlace (placeOf root unit other.1.path) :=
    fun other hother => isFilePlace_of_columns h hfiles hother
  have hexact : ∀ other ∈ view.cellColumns, ∀ cell ∈ other.2, cell.2.IsExact := by
    intro other hother
    obtain ⟨hfloat, hdouble⟩ := htypes _ (DataView.mem_columns hother)
    exact isExact_of_dataType hother hfloat hdouble
  -- Every column with cells is found in its document, wherever it stands in the view.
  have hfound : ∀ {before : List (SeriesInfo × List (Key × Value))} {other after},
      view.cellColumns = before ++ other :: after → other.2 ≠ [] →
        ∃ doc, s'.store.disk.docAt? (placeOf root unit other.1.path) = some doc ∧
          doc.dataType = other.1.dataType ∧ ∀ k v, (k, v) ∈ other.2 →
            (∀ later ∈ after, placeOf root unit later.1.path = placeOf root unit other.1.path →
              ∀ w, (k, w) ∉ later.2) → doc.records.get? k = some v := by
    intro before other after hsplit hother
    have hmem : other ∈ view.cellColumns := by rw [hsplit]; simp
    obtain ⟨i, -, hcells⟩ := DataView.mem_cellColumns hmem
    have hkeys : other.2.Pairwise fun a b => a.1 < b.1 := hcells ▸ view.pairwise_cells i
    rw [hsplit] at hwrite hplaces hexact
    exact DirectoryStore.docAt?_of_writeColumn_of_cells h.isPlainTree hwrite hplaces hexact
      (hdocs other hmem hother) hother hkeys
  obtain ⟨before, after, hsplit⟩ := List.append_of_mem hcolumn
  obtain ⟨doc, hdoc, htype, -⟩ := hfound hsplit hne
  obtain ⟨file, hfile⟩ := hfiles column.1 (DataView.mem_columns hcolumn)
  obtain ⟨ht', -⟩ := DirectoryStore.docAt?_of_writeColumns h.isPlainTree hwrite hplaces hexact
    (hplaces column hcolumn).isShown (hdocs column hcolumn hne)
  have h' : e.WorksOn s' root := ⟨h.store, h.managed, h.isEntryName, ht'⟩
  have hload : DirectoryStore.load s'.store.disk file = .ok (some doc) := by
    obtain ⟨content, hcontent, hread⟩ := Option.bind_eq_some_iff.mp hdoc
    rw [((file_eq_ok_iff h.isEntryName).mp hfile).2.2.2]
    exact DirectoryStore.load_of_fileAt? ht'.toIsTree hcontent hread
  obtain ⟨rows, hrun, hheader, hrows⟩ := outcome_project_of_load h' hopen hstoreOpen
    (hglob _ (DataView.mem_columns hcolumn)) hfile hload
  refine ⟨rows, doc.tags, hrun, by rw [hheader, htype], ?_⟩
  rintro k v ⟨before', other, after', hsplit', hnames, hcell, hlast⟩
  have hmem : other ∈ view.cellColumns := by rw [hsplit']; simp
  have hplace : placeOf root unit other.1.path = placeOf root unit column.1.path := by
    rw [placeOf, hnames, placeOf]
  obtain ⟨doc', hdoc', -, hvalues⟩ := hfound hsplit' (List.ne_nil_of_mem hcell)
  rw [hplace, hdoc] at hdoc'
  cases hdoc'
  have htop := lt_top_of_mem_cellColumns hmem hcell
  refine hrows k v (hvalues k v hcell fun later hlater heq => hlast later hlater ?_) htop
  simpa [placeOf, hnames] using heq

/-- A view of two columns that are spelled differently and have one file. -/
def twoSpellings : DataView where
  orientation := .columns
  columns := [⟨"a.b", .long, .empty⟩, ⟨"a..b", .long, .empty⟩]
  keys := [1, 2]
  masks := [[true, true], [true, false]]
  values := [[.long 1, .long 3], [.long 2]]
  consistent := by decide

/-- At the first key the second column has the last cell, and at the second key the
first column. -/
theorem project_of_insert_last_twoSpellings :
    let s := EngineState.start emptyDirectory
    let s' := (outcome (ofDirectory.insert twoSpellings "u") s).2
    (outcome (ofDirectory.insert twoSpellings "u") s).1 = .ok () ∧
      ∃ rows, (outcome (ofDirectory.project ["a.b"] none none "u" false) s').1 = .ok rows ∧
        ⟨1, [some (.long 2)]⟩ ∈ rows.rows ∧ ⟨2, [some (.long 3)]⟩ ∈ rows.rows := by
  intro s s'
  have hrun : (outcome (ofDirectory.insert twoSpellings "u") s).1 = .ok () := by decide +kernel
  have hcells : twoSpellings.cellColumns =
      [(⟨"a.b", .long, .empty⟩, [(1, .long 1), (2, .long 3)]),
        (⟨"a..b", .long, .empty⟩, [(1, .long 2)])] := by decide
  have hdocs : ∀ column ∈ twoSpellings.cellColumns, column.2 ≠ [] → ∀ doc,
      s.store.disk.docAt? (placeOf ["d"] "u" column.1.path) = some doc → doc.IsExact := by
    have hnone : ∀ column ∈ twoSpellings.cellColumns,
        emptyDirectory.docAt? (placeOf ["d"] "u" column.1.path) = none := by decide +kernel
    intro column hcolumn _ doc hdoc
    rw [show s.store.disk = emptyDirectory from rfl, hnone column hcolumn] at hdoc
    cases hdoc
  have hcolumn : (⟨"a.b", .long, .empty⟩, [(1, .long 1), (2, .long 3)]) ∈
      twoSpellings.cellColumns := by
    rw [hcells]
    exact List.mem_cons_self
  obtain ⟨rows, -, hproject, -, hrows⟩ := project_of_insert_last worksOn_ofDirectory (by decide)
    (by decide) hdocs (outcome_of_fst hrun) hcolumn (by simp)
  rw [hcells] at hrows
  refine ⟨hrun, rows, hproject, hrows 1 _ ?_, hrows 2 _ ?_⟩
  · exact ⟨[_], _, [], rfl, by decide, List.mem_cons_self, nofun⟩
  · refine ⟨[], _, [_], rfl, rfl, List.mem_cons_of_mem _ List.mem_cons_self, ?_⟩
    intro later hlater _ w
    rw [List.mem_singleton.mp hlater]
    simp

/-- **A cell is lost**: the first column has 1 at the first key, and its projection shows
2 there. -/
theorem lost_cell_twoSpellings :
    let s := EngineState.start emptyDirectory
    let s' := (outcome (ofDirectory.insert twoSpellings "u") s).2
    (outcome (ofDirectory.insert twoSpellings "u") s).1 = .ok () ∧
      (∃ column ∈ twoSpellings.cellColumns, column.1.path = "a.b" ∧ (1, .long 1) ∈ column.2) ∧
      (outcome (ofDirectory.project ["a.b"] none none "u" false) s').1.map (·.rows) =
        .ok [⟨1, [some (.long 2)]⟩, ⟨2, [some (.long 3)]⟩] := by
  decide +kernel

end Engine

end KeyedSeries

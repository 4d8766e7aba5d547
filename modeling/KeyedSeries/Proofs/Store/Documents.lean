import KeyedSeries.Proofs.Store.Files

/-!
# Documents and their bytes

A document that holds no floating-point numbers comes back from its bytes, and its bytes are
those of no other document, whatever that one holds (`KeyedSeries.Document.eq_of_bytes_eq`): a
document with a number that is not finite cannot be read at all, and one with other
floating-point numbers is read as a document that still holds floating-point numbers
(`KeyedSeries.Value.isExact_reread_iff`). So **a document is determined by the bytes that are
stored of it** (`KeyedSeries.DirectoryStore.bytes_determine_document`), and it is what is loaded
from its file.
-/

namespace KeyedSeries

/-! ### Values -/

namespace Value

/-- The type tells whether a value is written exactly. -/
theorem isExact_iff {v : Value} : v.IsExact ↔ v.dataType ≠ .float ∧ v.dataType ≠ .double := by
  cases v <;> simp [IsExact, dataType]

/-- What is read of a value is written exactly just if the value was. -/
theorem isExact_reread_iff {v : Value} : v.reread.IsExact ↔ v.IsExact := by
  rw [isExact_iff, isExact_iff, dataType_reread]

end Value

/-! ### Documents -/

namespace Document

variable {doc other : Document}

theorem isExact_reread_iff : doc.reread.IsExact ↔ doc.IsExact := by
  have hget (k : Key) : doc.reread.records.get? k = (doc.records.get? k).map Value.reread :=
    OrderedMap.get?_map Value.reread doc.records k
  constructor
  · intro h k v hv
    refine Value.isExact_reread_iff.mp (h k v.reread ?_)
    rw [hget, hv, Option.map_some]
  · intro h k w hw
    rw [hget] at hw
    obtain ⟨v, hv, rfl⟩ := Option.map_eq_some_iff.mp hw
    exact Value.isExact_reread_iff.mpr (h k v hv)

/-- **No other document has the bytes** of one that holds no floating-point numbers. -/
theorem eq_of_bytes_eq (h : doc.IsExact) (hbytes : other.bytes = doc.bytes) : other = doc := by
  have hread : ofBytes? other.bytes = some doc := by rw [hbytes, ofBytes?_bytes h]
  have hfinite : other.IsFinite := by
    by_contra hnot
    rw [ofBytes?_bytes_of_not_isFinite hnot] at hread
    cases hread
  rw [ofBytes?_bytes_of_isFinite hfinite] at hread
  have hreread : other.reread = doc := Option.some.inj hread
  have hexact : other.IsExact := isExact_reread_iff.mp (hreread ▸ h)
  rw [← hreread, reread_of_isExact hexact]

end Document

/-! ### Files -/

namespace DirectoryStore

open Disk FilePath

/-- What is loaded from the file of a document that was saved is the document. -/
theorem load_of_save {d d' : Disk} {q : Place} {name : String} {doc : Document}
    (hdoc : doc.IsExact) (ht : d.IsPlainTree) (hq : ∀ n ∈ q ++ [name], isEntryName n = true)
    (h : save d (ofPlace (q ++ [name])) doc = (.ok (), d')) :
    d'.fileAt? (q ++ [name]) = some doc.bytes ∧
      load d' (ofPlace (q ++ [name])) = .ok (some doc) := by
  obtain ⟨ht', hfiles⟩ := files_of_save ht hq h
  have hne : q ++ [name] ≠ q ++ [draftName name] := by simpa using (draftName_ne name).symm
  have hfile : d'.fileAt? (q ++ [name]) = some doc.bytes := by rw [hfiles _ hne, if_pos rfl]
  exact ⟨hfile, load_of_fileAt? ht'.toIsTree hfile (Document.ofBytes?_bytes hdoc)⟩

/-- **A document without floating-point numbers is determined by the bytes that are stored of
it**, whatever type it declares, whatever texts its tags are, and whatever keys its records
have. It is read back from these bytes; a document that differs is stored as different bytes;
and where it was saved, its file holds these bytes and the document is loaded from it. -/
theorem bytes_determine_document {doc : Document} (h : doc.IsExact) :
    Document.ofBytes? doc.bytes = some doc ∧
      (∀ other : Document, other ≠ doc → other.bytes ≠ doc.bytes) ∧
      ∀ {d d' : Disk} {q : Place} {name : String}, d.IsPlainTree →
        (∀ n ∈ q ++ [name], isEntryName n = true) →
        save d (ofPlace (q ++ [name])) doc = (.ok (), d') →
          d'.fileAt? (q ++ [name]) = some doc.bytes ∧
            load d' (ofPlace (q ++ [name])) = .ok (some doc) := by
  refine ⟨Document.ofBytes?_bytes h, fun other hne hbytes => ?_, fun ht hq hsave => ?_⟩
  · exact hne (Document.eq_of_bytes_eq h hbytes)
  · exact load_of_save h ht hq hsave

/-- A document of a type that none of its records has, with tags that need escapes, and with
records under the first key, the last one and a negative one. -/
def mixedRecords : Document where
  dataType := .double
  tags := .ofList [("\"\\", "\n\x01é"), ("", "\x7f")]
  records := .ofList [(Key.first, .boolean true), (-7, .integer (-2147483648)),
    (Int64.maxValue, .binary [0, 0x22, 0xff]), (0, .long 9223372036854775807)]

theorem isExact_mixedRecords : mixedRecords.IsExact := by
  have hall : ∀ e ∈ mixedRecords.records.toList,
      e.2.dataType ≠ .float ∧ e.2.dataType ≠ .double := by decide +kernel
  exact fun k v hv => Value.isExact_iff.mpr (hall (k, v) (OrderedMap.mem_toList_iff.mpr hv))

/-- The document is saved in a directory that holds nothing else, and read back there. -/
theorem bytes_determine_mixedRecords :
    let d : Disk := ⟨.ofList [(["u"], .dir)]⟩
    let saved := save d ⟨"/u/s"⟩ mixedRecords
    mixedRecords.IsExact ∧ d.IsPlainTree ∧ saved.1 = .ok () ∧
      Document.ofBytes? mixedRecords.bytes = some mixedRecords ∧
      ({ mixedRecords with tags := .empty } : Document).bytes ≠ mixedRecords.bytes ∧
      saved.2.fileAt? ["u", "s"] = some mixedRecords.bytes ∧
      load saved.2 ⟨"/u/s"⟩ = .ok (some mixedRecords) := by
  intro d saved
  have htree : d.IsPlainTree := by decide +kernel
  have hpath : ofPlace (["u"] ++ ["s"]) = ⟨"/u/s"⟩ := by decide +kernel
  have hsave : saved.1 = .ok () := by decide +kernel
  have hnames : ∀ n ∈ ["u"] ++ ["s"], isEntryName n = true := by decide
  have hother : ({ mixedRecords with tags := .empty } : Document) ≠ mixedRecords := by
    decide +kernel
  obtain ⟨hread, hdiffer, hsaved⟩ := bytes_determine_document isExact_mixedRecords
  have hrun : save d (ofPlace (["u"] ++ ["s"])) mixedRecords = (.ok (), saved.2) := by
    rw [hpath, ← hsave]
  obtain ⟨hfile, hload⟩ := hsaved htree hnames hrun
  rw [hpath] at hload
  exact ⟨isExact_mixedRecords, htree, hsave, hread, hdiffer _ hother, hfile, hload⟩

end DirectoryStore

end KeyedSeries

import KeyedSeries.Proofs.OrderedMap
import KeyedSeries.Proofs.Value.Stored
import KeyedSeries.Series.Document

/-!
# Series documents read back

A document is read from what is written of it if all its values are
(`KeyedSeries.Document.ofBytes?_bytes_of_isFinite`), and **one value that is not finite
makes the whole document unreadable**
(`KeyedSeries.Document.ofBytes?_bytes_of_not_isFinite`). It is the same document if it
holds no floating-point numbers (`KeyedSeries.Document.ofBytes?_bytes`); everything else
is written exactly (`KeyedSeries.Value.IsExact`). Tags may be any texts, and keys any
numbers of 64 bits.
-/

namespace KeyedSeries

namespace Document

/-- Whether all values of the document are written exactly. -/
def IsExact (doc : Document) : Prop := ∀ k v, doc.records.get? k = some v → v.IsExact

theorem IsExact.of_mem {doc : Document} (h : doc.IsExact) {e : Key × Value}
    (he : e ∈ doc.records.toList) : e.2.IsExact := h e.1 e.2 (OrderedMap.mem_toList_iff.mp he)

/-- Whether no value of the document is a number that is not finite. -/
def IsFinite (doc : Document) : Prop := ∀ e ∈ doc.records.toList, e.2.IsFinite

/-- The document with the values that are read where its values are stored. -/
def reread (doc : Document) : Document := { doc with records := doc.records.map Value.reread }

theorem IsExact.isFinite {doc : Document} (h : doc.IsExact) : doc.IsFinite :=
  fun _ he => (h.of_mem he).isFinite

theorem reread_of_isExact {doc : Document} (h : doc.IsExact) : doc.reread = doc := by
  have hrecords : doc.records.map Value.reread = doc.records := by
    refine OrderedMap.ext_get? fun k => ?_
    rw [OrderedMap.get?_map]
    cases hget : doc.records.get? k with
    | none => rfl
    | some v => rw [Option.map_some, Value.reread_of_isShort (h k v hget).isShort]
  rw [reread, hrecords]

/-! ### Parts of a document -/

theorem isReadable_toJson (doc : Document) : doc.toJson.IsReadable := by
  refine JsonTree.isReadable_ofMembers fun m hm => ?_
  simp only [List.mem_cons, List.not_mem_nil, or_false] at hm
  rcases hm with rfl | rfl | rfl
  · exact JsonTree.isReadable_ofText _
  · refine JsonTree.isReadable_ofMembers fun m hm => ?_
    obtain ⟨⟨name, value⟩, -, rfl⟩ := List.mem_map.mp hm
    exact JsonTree.isReadable_ofText _
  · refine .object ?_ ?_
    · intro m hm rest
      obtain ⟨e, -, rfl⟩ := List.mem_map.mp hm
      exact Quoted.split?_plain (fun _ hb => Numeral.plain_of_mem_ofInt hb) rest
    · intro m hm
      obtain ⟨e, he, rfl⟩ := List.mem_map.mp hm
      exact Value.isReadable_toJson _

/-- Texts are read back, one member after the other. -/
theorem mapM_texts (l : List (String × String)) :
    (l.map fun (name, value) => (name, JsonTree.ofText value)).mapM
      (fun (name, value) => value.text?.map (name, ·)) = some l := by
  induction l with
  | nil => rfl
  | cons e rest ih =>
    obtain ⟨name, value⟩ := e
    rw [List.map_cons, List.mapM_cons, ih]
    simp [JsonTree.ofText, JsonTree.text?]

/-- Stored tags are the tags again. -/
theorem tags?_tagsJson (tags : Tags) : tags? (tagsJson tags) = some tags := by
  rw [tags?, tagsJson, JsonTree.members?_ofMembers]
  simp only [Option.bind_eq_bind, Option.bind_some]
  rw [mapM_texts, Option.bind_some, OrderedMap.ofList_toList]

/-- A stored key is the key again. -/
theorem key?_ofInt (k : Key) : key? (Numeral.ofInt k.toInt) = some k := by
  have hle : Int64.minValue.toInt ≤ k.toInt := k.minValue_le_toInt
  have hle' : k.toInt ≤ Int64.maxValue.toInt := k.toInt_le
  have hint := JsonTree.intIn?_ofInt hle hle'
  rw [JsonTree.ofInt] at hint
  rw [key?, hint]
  simp only [Option.bind_eq_bind, Option.bind_some, Int64.ofInt_toInt]

/-- Stored values are read with their keys, one member after the other. -/
theorem mapM_records {l : List (Key × Value)} (h : ∀ e ∈ l, e.2.IsFinite) :
    (l.map fun (key, value) => (Numeral.ofInt key.toInt, value.toJson)).mapM
      (fun (name, value) => do some (← key? name, ← Value.ofJson? value)) =
        some (l.map fun e => (e.1, e.2.reread)) := by
  induction l with
  | nil => rfl
  | cons e rest ih =>
    obtain ⟨hvalue, hrest⟩ := List.forall_mem_cons.mp h
    have hread : Value.ofJson? e.2.toJson = some e.2.reread := by
      obtain ⟨w, hw⟩ := Option.isSome_iff_exists.mp (Value.isSome_reread?_iff.mpr hvalue)
      rw [Value.reread, hw, Option.getD_some]
      exact hw
    rw [List.map_cons, List.mapM_cons, ih hrest]
    simp [key?_ofInt, hread]

/-- A value that is not read keeps all of them from being read. -/
theorem mapM_records_eq_none {l : List (Key × Value)} (h : ¬ ∀ e ∈ l, e.2.IsFinite) :
    (l.map fun (key, value) => (Numeral.ofInt key.toInt, value.toJson)).mapM
      (fun (name, value) => do some (← key? name, ← Value.ofJson? value)) = none := by
  induction l with
  | nil => exact absurd nofun h
  | cons e rest ih =>
    rw [List.forall_mem_cons, not_and] at h
    rw [List.map_cons, List.mapM_cons]
    by_cases hvalue : e.2.IsFinite
    · rw [ih (h hvalue)]
      simp
    · have hnone : Value.ofJson? e.2.toJson = none := by
        rw [← Value.isSome_reread?_iff, Value.reread?, Bool.not_eq_true,
          Option.isSome_eq_false_iff, Option.isNone_iff_eq_none] at hvalue
        exact hvalue
      simp [hnone]

/-- Stored records are what is read of them. -/
theorem records?_recordsJson {records : OrderedMap Key Value}
    (h : ∀ e ∈ records.toList, e.2.IsFinite) :
    records? (recordsJson records) = some (records.map Value.reread) := by
  rw [recordsJson, records?, mapM_records h]
  exact congrArg some (OrderedMap.ofList_toList (records.map Value.reread))

theorem records?_recordsJson_eq_none {records : OrderedMap Key Value}
    (h : ¬ ∀ e ∈ records.toList, e.2.IsFinite) : records? (recordsJson records) = none := by
  rw [recordsJson, records?, mapM_records_eq_none h]
  rfl

/-! ### Documents -/

/-- What is read of a document is its type, its tags, and what is read of its records. -/
theorem ofBytes?_bytes_eq (doc : Document) :
    ofBytes? doc.bytes = (records? (recordsJson doc.records)).map fun records =>
      { doc with records := records } := by
  rw [ofBytes?, bytes, JsonTree.ofBytes?_bytes (isReadable_toJson doc), Option.bind_some, ofJson?,
    toJson, JsonTree.record?_ofMembers]
  have hfields : ["data_type", "tags", "records"].mapM (JsonTree.member?
      [("data_type", .ofText doc.dataType.label), ("tags", tagsJson doc.tags),
        ("records", recordsJson doc.records)]) =
      some [some (.ofText doc.dataType.label), some (tagsJson doc.tags),
        some (recordsJson doc.records)] := by
    simp [JsonTree.member?]
  rw [hfields]
  simp only [Option.bind_eq_bind, Option.bind_some, DataType.ofJson?_ofText, fieldOr,
    tags?_tagsJson]
  cases records? (recordsJson doc.records) <;> rfl

/-- **A document without numbers that are not finite is read**, every value as what is read
where it is stored. -/
theorem ofBytes?_bytes_of_isFinite {doc : Document} (h : doc.IsFinite) :
    ofBytes? doc.bytes = some doc.reread := by
  rw [ofBytes?_bytes_eq, records?_recordsJson h]
  rfl

/-- **A document with a number that is not finite cannot be read.** -/
theorem ofBytes?_bytes_of_not_isFinite {doc : Document} (h : ¬ doc.IsFinite) :
    ofBytes? doc.bytes = none := by
  rw [ofBytes?_bytes_eq, records?_recordsJson_eq_none h]
  rfl

/-- **A document is read back** from what is written of it. -/
theorem ofBytes?_bytes {doc : Document} (h : doc.IsExact) : ofBytes? doc.bytes = some doc := by
  rw [ofBytes?_bytes_of_isFinite h.isFinite, reread_of_isExact h]

end Document

end KeyedSeries

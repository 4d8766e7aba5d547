import KeyedSeries.Proofs.Json.Tree
import KeyedSeries.Proofs.Number.Stored

/-!
# Stored values read back

A value is stored together with its type, and reading asks for the content that the type
demands. **Everything but a number that is not finite is read**
(`KeyedSeries.Value.isSome_reread?_iff`), and as what it was, if it is no floating-point
number or one with a short decimal (`KeyedSeries.Value.reread?_of_isShort`). Other finite
numbers may come back as a neighbour.
-/

namespace KeyedSeries

/-! ### Members of written records -/

namespace JsonTree

/-- The names of written members are the texts they were. -/
theorem members?_ofMembers (members : List (String × JsonTree)) :
    (ofMembers members).members? = some members := by
  rw [ofMembers, members?]
  induction members with
  | nil => rfl
  | cons m rest ih =>
    obtain ⟨name, value⟩ := m
    rw [List.map_cons, named?, ih, Quoted.text?_body]

/-- A written record of given fields is a record of these fields. -/
theorem record?_ofMembers (fields : List String) (members : List (String × JsonTree)) :
    (ofMembers members).record? fields = fields.mapM (member? members) := by
  have h := members?_ofMembers members
  rw [ofMembers] at h ⊢
  rw [record?, h, Option.bind_some]
  exact nofun

theorem label?_ofText (s : String) : (ofText s).label? = some s := Quoted.text?_body s

theorem intIn?_ofInt {least greatest i : Int} (h : least ≤ i) (h' : i ≤ greatest) :
    (ofInt i).intIn? least greatest = some i := by
  rw [intIn?, Numeral.int?_ofInt]
  simp [h, h']

end JsonTree

theorem DataType.ofJson?_ofText (t : DataType) : ofJson? (.ofText t.label) = some t := by
  rw [ofJson?, JsonTree.label?_ofText, Option.bind_some, ofLabel?_label]

/-! ### What is read of a value -/

/-- A stored number, finite or not, is readable as a tree. -/
theorem BinaryFloat.isReadable_toJson {f : BinaryFormat} (hf : f.IsNarrow) (x : BinaryFloat f) :
    x.toJson.IsReadable := by
  cases hx : x.datum with
  | finite negative m e =>
    obtain ⟨n, text, -, hshows, heq⟩ := exists_stored hf hx
    rw [heq]
    exact .number (fun b => Numeral.isNumeralByte_of_mem_bytes hshows.isProper)
      (by rw [Numeral.ofBytes?_bytes hshows.isProper]; rfl)
  | nan =>
    rw [toJson, hx]
    exact .null
  | infinity negative =>
    rw [toJson, hx]
    exact .null

namespace Value

/-- Whether the value is written exactly. -/
def IsExact : Value → Prop
  | boolean _ | integer _ | long _ | binary _ => True
  | float _ | double _ => False

/-- Whether the value is anything but a number that is not finite. -/
def IsFinite : Value → Prop
  | float x => x.isFinite = true
  | double x => x.isFinite = true
  | boolean _ | integer _ | long _ | binary _ => True

/-- Whether the value is no floating-point number, or one that is written with fifteen
digits at most and not too many of them behind the point. -/
def IsShort : Value → Prop
  | float x => x.IsShort 8
  | double x => x.IsShort 22
  | boolean _ | integer _ | long _ | binary _ => True

theorem IsExact.isFinite {v : Value} (h : v.IsExact) : v.IsFinite := by
  cases v <;> trivial

theorem IsExact.isShort {v : Value} (h : v.IsExact) : v.IsShort := by
  cases v <;> trivial

/-- What is read where the value is stored. -/
def reread? (v : Value) : Option Value := ofJson? v.toJson

/-- The value that is read where the value is stored, and the value itself where nothing
is read. -/
def reread (v : Value) : Value := v.reread?.getD v

theorem isReadable_toJson (v : Value) : v.toJson.IsReadable := by
  refine JsonTree.isReadable_ofMembers fun m hm => ?_
  rcases List.mem_cons.mp hm with rfl | hm
  · exact JsonTree.isReadable_ofText _
  · obtain rfl := List.mem_singleton.mp hm
    cases v with
    | boolean b => exact .bool b
    | integer i => exact JsonTree.isReadable_ofInt _
    | long i => exact JsonTree.isReadable_ofInt _
    | binary b =>
      refine .array fun item hitem => ?_
      obtain ⟨byte, -, rfl⟩ := List.mem_map.mp hitem
      exact JsonTree.isReadable_ofInt _
    | float x => exact x.isReadable_toJson BinaryFormat.isNarrow_single
    | double x => exact x.isReadable_toJson BinaryFormat.isNarrow_double

theorem mapM_bytes (b : Bytes) :
    (b.map fun byte => JsonTree.ofInt byte.toNat).mapM
      (fun item => (item.intIn? 0 255).map (·.toNat.toUInt8)) = some b := by
  induction b with
  | nil => rfl
  | cons byte rest ih =>
    have hbyte := byte.toNat_lt
    rw [List.map_cons, List.mapM_cons, ih, JsonTree.intIn?_ofInt (by omega) (by omega)]
    simp

/-- What is stored of a value besides its type, and its type, are the value. -/
theorem ofContent?_contentJson {v : Value} (h : v.IsExact) :
    ofContent? v.contentJson v.dataType = some v := by
  cases v with
  | boolean b => rfl
  | integer i =>
    have hle : Int32.minValue.toInt ≤ i.toInt := i.minValue_le_toInt
    have hle' : i.toInt ≤ Int32.maxValue.toInt := i.toInt_le
    rw [contentJson, dataType, ofContent?, JsonTree.intIn?_ofInt hle hle', Option.map_some,
      Int32.ofInt_toInt]
  | long i =>
    have hle : Int64.minValue.toInt ≤ i.toInt := i.minValue_le_toInt
    have hle' : i.toInt ≤ Int64.maxValue.toInt := i.toInt_le
    rw [contentJson, dataType, ofContent?, JsonTree.intIn?_ofInt hle hle', Option.map_some,
      Int64.ofInt_toInt]
  | binary b =>
    rw [contentJson, dataType, ofContent?, mapM_bytes, Option.map_some]
  | float x => exact h.elim
  | double x => exact h.elim

/-- The type is read, and the content as one of the type. -/
theorem reread?_eq (v : Value) : v.reread? = ofContent? v.contentJson v.dataType := by
  rw [reread?, ofJson?, toJson, JsonTree.record?_ofMembers]
  have hfields :
      ["t", "v"].mapM (JsonTree.member? [("t", .ofText v.dataType.label), ("v", v.contentJson)]) =
      some [some (.ofText v.dataType.label), some v.contentJson] := by
    simp [JsonTree.member?]
  rw [hfields]
  show (DataType.ofJson? _).bind _ = _
  rw [DataType.ofJson?_ofText, Option.bind_some]

theorem reread?_of_isExact {v : Value} (h : v.IsExact) : v.reread? = some v := by
  rw [reread?_eq, ofContent?_contentJson h]

/-! ### Floating-point numbers -/

/-- What is read of a number is read of its numeral. -/
theorem numeral?_stored {f : BinaryFormat} {x : BinaryFloat f} {n : Numeral} {text : List Char}
    {v : ℚ} (h : n.Shows text v 18) (heq : x.toJson = .number n.bytes) :
    x.toJson.numeral? = some n := by
  rw [heq, JsonTree.numeral?, Numeral.ofBytes?_bytes h.isProper]

/-- A number that is not finite is stored as nothing, which is no numeral. -/
theorem numeral?_of_not_isFinite {f : BinaryFormat} {x : BinaryFloat f} (h : ¬ x.isFinite = true) :
    x.toJson.numeral? = none := by
  rw [BinaryFloat.isFinite_iff] at h
  rw [BinaryFloat.toJson]
  split
  · next hx => exact absurd ⟨_, _, _, hx⟩ h
  · rfl

/-- **A stored value is read exactly if it is not a number that is not finite.** -/
theorem isSome_reread?_iff {v : Value} : v.reread?.isSome = true ↔ v.IsFinite := by
  by_cases hexact : v.IsExact
  · exact iff_of_true (by rw [reread?_of_isExact hexact]; rfl) hexact.isFinite
  cases v with
  | boolean | integer | long | binary => exact absurd trivial hexact
  | float x =>
    rw [reread?_eq, contentJson, dataType, ofContent?, Option.isSome_map, IsFinite]
    by_cases hx : x.isFinite = true
    · obtain ⟨negative, m, e, hdatum⟩ := BinaryFloat.isFinite_iff.mp hx
      obtain ⟨n, text, -, hshows, heq⟩ :=
        BinaryFloat.exists_stored BinaryFormat.isNarrow_single hdatum
      obtain ⟨hhas, -⟩ := BinaryFloat.eq_ofPattern_of_datum hdatum
      refine iff_of_true ?_ hx
      rw [numeral?_stored hshows heq, Option.bind_some, Numeral.single?]
      split
      · rfl
      · rw [Option.isSome_map]
        exact BinaryFloat.isSome_double?_stored hshows (BinaryFloat.written_single_le hhas)
    · rw [numeral?_of_not_isFinite hx]
      exact iff_of_false Bool.false_ne_true hx
  | double x =>
    rw [reread?_eq, contentJson, dataType, ofContent?, Option.isSome_map, IsFinite]
    by_cases hx : x.isFinite = true
    · obtain ⟨negative, m, e, hdatum⟩ := BinaryFloat.isFinite_iff.mp hx
      obtain ⟨n, text, -, hshows, heq⟩ :=
        BinaryFloat.exists_stored BinaryFormat.isNarrow_double hdatum
      obtain ⟨hhas, -⟩ := BinaryFloat.eq_ofPattern_of_datum hdatum
      refine iff_of_true ?_ hx
      rw [numeral?_stored hshows heq, Option.bind_some]
      exact BinaryFloat.isSome_double?_stored hshows (BinaryFloat.written_double_le hhas)
    · rw [numeral?_of_not_isFinite hx]
      exact iff_of_false Bool.false_ne_true hx

-- The largest odd number of 53 bits is written with all its digits and read as the even
-- number below it.
example : (double ⟨0x433fffffffffffff⟩).reread? = some (double ⟨0x433ffffffffffffe⟩) := by
  decide +kernel

/-- **A value with a short decimal is read back.** -/
theorem reread?_of_isShort {v : Value} (h : v.IsShort) : v.reread? = some v := by
  by_cases hexact : v.IsExact
  · exact reread?_of_isExact hexact
  cases v with
  | boolean | integer | long | binary => exact absurd trivial hexact
  | float x =>
    have hshort := h
    obtain ⟨negative, m, e, -, -, hdatum, -⟩ := h
    obtain ⟨n, text, rfl, hshows, heq⟩ :=
      BinaryFloat.exists_stored BinaryFormat.isNarrow_single hdatum
    rw [reread?_eq, contentJson, dataType, ofContent?, numeral?_stored hshows heq, Option.bind_some,
      BinaryFloat.single?_stored hdatum hshort hshows, Option.map_some]
  | double x =>
    have hshort := h
    obtain ⟨negative, m, e, -, -, hdatum, -⟩ := h
    obtain ⟨n, text, rfl, hshows, heq⟩ :=
      BinaryFloat.exists_stored BinaryFormat.isNarrow_double hdatum
    rw [reread?_eq, contentJson, dataType, ofContent?, numeral?_stored hshows heq, Option.bind_some,
      BinaryFloat.double?_stored hdatum hshort hshows, Option.map_some]

theorem reread_of_isShort {v : Value} (h : v.IsShort) : v.reread = v := by
  rw [reread, reread?_of_isShort h, Option.getD_some]

/-- What is read has the type of what was stored. -/
theorem dataType_reread (v : Value) : v.reread.dataType = v.dataType := by
  have hcontent : ∀ {t : JsonTree} {d : DataType} {w : Value}, ofContent? t d = some w →
      w.dataType = d := by
    intro t d w h
    cases d <;> simp only [ofContent?] at h
    · split at h
      · cases h
        rfl
      · cases h
    · obtain ⟨i, -, rfl⟩ := Option.map_eq_some_iff.mp h
      rfl
    · obtain ⟨i, -, rfl⟩ := Option.map_eq_some_iff.mp h
      rfl
    · obtain ⟨x, -, rfl⟩ := Option.map_eq_some_iff.mp h
      rfl
    · obtain ⟨x, -, rfl⟩ := Option.map_eq_some_iff.mp h
      rfl
    · split at h
      · obtain ⟨b, -, rfl⟩ := Option.map_eq_some_iff.mp h
        rfl
      · cases h
  rw [reread]
  cases h : v.reread? with
  | none => rfl
  | some w =>
    rw [reread?_eq] at h
    exact hcontent h

end Value

end KeyedSeries

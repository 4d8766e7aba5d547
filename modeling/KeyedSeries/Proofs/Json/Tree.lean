import KeyedSeries.Proofs.Json.Numeral
import KeyedSeries.Proofs.Json.Quoted

/-!
# Document trees read back

A tree whose numerals are numerals and whose bodies end where they should
(`KeyedSeries.JsonTree.IsReadable`) is read back from what is written of it
(`KeyedSeries.JsonTree.ofBytes?_bytes`). The reader may stand anywhere in a
document: it reads the tree and leaves what comes behind it, which must not go on
like a numeral, as a numeral has no end of its own.
-/

namespace KeyedSeries.JsonTree

/-- What is written of the tree can be read: numerals are numerals, and bodies end
at the quote behind them. -/
inductive IsReadable : JsonTree → Prop
  /-- Nothing. -/
  | null : IsReadable null
  /-- A truth value. -/
  | bool (b : Bool) : IsReadable (bool b)
  /-- A numeral. -/
  | number {text : Bytes} : (∀ b ∈ text, isNumeralByte b = true) →
    (Numeral.ofBytes? text).isSome = true → IsReadable (number text)
  /-- A text. -/
  | string {body : Bytes} : (∀ rest, Quoted.split? (body ++ 0x22 :: rest) = some (body, rest)) →
    IsReadable (string body)
  /-- A list. -/
  | array {items : List JsonTree} : (∀ item ∈ items, IsReadable item) → IsReadable (array items)
  /-- Members. -/
  | object {members : List (Bytes × JsonTree)} :
    (∀ m ∈ members, ∀ rest, Quoted.split? (m.1 ++ 0x22 :: rest) = some (m.1, rest)) →
      (∀ m ∈ members, IsReadable m.2) → IsReadable (object members)

theorem isReadable_ofText (s : String) : IsReadable (ofText s) :=
  .string fun rest => Quoted.split?_body s rest

theorem isReadable_ofInt (i : Int) : IsReadable (ofInt i) :=
  .number (fun _ hb => Numeral.isNumeralByte_of_mem_ofInt hb)
    (by rw [Numeral.ofBytes?_ofInt]; rfl)

theorem isReadable_ofMembers {members : List (String × JsonTree)}
    (h : ∀ m ∈ members, IsReadable m.2) : IsReadable (ofMembers members) := by
  refine .object ?_ ?_
  · intro m hm
    obtain ⟨⟨name, value⟩, -, rfl⟩ := List.mem_map.mp hm
    exact Quoted.split?_body name
  · intro m hm
    obtain ⟨⟨name, value⟩, hmem, rfl⟩ := List.mem_map.mp hm
    exact h _ hmem

/-! ### What comes behind a tree -/

/-- What comes behind a numeral does not go on with it. -/
def EndsNumeral (rest : Bytes) : Prop := ∀ b ∈ rest.head?, isNumeralByte b = false

theorem endsNumeral_nil : EndsNumeral [] := nofun

theorem endsNumeral_cons {b : UInt8} {rest : Bytes} (h : isNumeralByte b = false) :
    EndsNumeral (b :: rest) := by
  intro c hc
  cases hc
  exact h

theorem endsNumeral_itemsBytes (items : List JsonTree) (rest : Bytes) :
    EndsNumeral (itemsBytes items ++ rest) := by
  cases items with
  | nil => exact endsNumeral_cons (by decide)
  | cons item items => exact endsNumeral_cons (by decide)

theorem endsNumeral_membersBytes (members : List (Bytes × JsonTree)) (rest : Bytes) :
    EndsNumeral (membersBytes members ++ rest) := by
  cases members with
  | nil => exact endsNumeral_cons (by decide)
  | cons m members => exact endsNumeral_cons (by decide)

theorem takeWhile_numeral {text rest : Bytes} (h : ∀ b ∈ text, isNumeralByte b = true)
    (hrest : EndsNumeral rest) : (text ++ rest).takeWhile isNumeralByte = text ∧
      (text ++ rest).dropWhile isNumeralByte = rest := by
  rw [List.takeWhile_append_of_pos h, List.dropWhile_append_of_pos h]
  cases rest with
  | nil => simp
  | cons b rest => simp [hrest b rfl]

/-! ### How what is written starts -/

theorem skipBlanks_cons {b : UInt8} {rest : Bytes} (h : isBlank b = false) :
    skipBlanks (b :: rest) = b :: rest := by
  rw [skipBlanks, List.dropWhile_cons_of_neg (by simp [h])]

/-- A byte of a numeral is none that starts anything else. -/
theorem isNumeralByte_spec {b : UInt8} (h : isNumeralByte b = true) :
    isBlank b = false ∧ b ≠ 0x6e ∧ b ≠ 0x74 ∧ b ≠ 0x66 ∧ b ≠ 0x22 ∧ b ≠ 0x5b ∧ b ≠ 0x7b ∧
      b ≠ 0x5d := by
  simp only [isBlank, Bool.or_eq_false_iff, decide_eq_false_iff_not, and_assoc]
  refine ⟨?_, ?_, ?_, ?_, ?_, ?_, ?_, ?_, ?_, ?_, ?_⟩ <;>
    · rintro rfl
      exact absurd h (by decide)

/-- What is written of a tree starts neither with a blank nor with the end of a
list. -/
theorem IsReadable.bytes_eq_cons {t : JsonTree} (h : t.IsReadable) :
    ∃ b rest, t.bytes = b :: rest ∧ isBlank b = false ∧ b ≠ 0x5d := by
  cases h with
  | null => exact ⟨_, _, by rw [bytes], by decide, by decide⟩
  | bool b => cases b <;> exact ⟨_, _, by rw [bytes], by decide, by decide⟩
  | @number text hbytes hsome =>
    rw [bytes]
    cases text with
    | nil => simp [Numeral.ofBytes?, Numeral.sign, Numeral.whole?, Numeral.someDigits?] at hsome
    | cons b rest =>
      have hspec := isNumeralByte_spec (hbytes b List.mem_cons_self)
      exact ⟨b, rest, rfl, hspec.1, hspec.2.2.2.2.2.2.2⟩
  | string => exact ⟨_, _, by rw [bytes]; rfl, by decide, by decide⟩
  | @array items _ =>
    cases items with
    | nil => exact ⟨_, _, by rw [bytes], by decide, by decide⟩
    | cons item items => exact ⟨_, _, by rw [bytes]; rfl, by decide, by decide⟩
  | @object members _ _ =>
    cases members with
    | nil => exact ⟨_, _, by rw [bytes], by decide, by decide⟩
    | cons m members => exact ⟨_, _, by rw [bytes]; rfl, by decide, by decide⟩

theorem skipBlanks_bytes {t : JsonTree} (h : t.IsReadable) (rest : Bytes) :
    skipBlanks (t.bytes ++ rest) = t.bytes ++ rest := by
  obtain ⟨b, tail, heq, hblank, -⟩ := h.bytes_eq_cons
  rw [heq, List.cons_append]
  exact skipBlanks_cons hblank

/-! ### Reading -/

theorem readNumber?_append {text rest : Bytes} (h : ∀ b ∈ text, isNumeralByte b = true)
    (hnumeral : (Numeral.ofBytes? text).isSome = true) (hrest : EndsNumeral rest) :
    readNumber? (text ++ rest) = some (number text, rest) := by
  obtain ⟨htake, hdrop⟩ := takeWhile_numeral h hrest
  rw [readNumber?, htake, hdrop, if_pos hnumeral]

/-- A numeral is read where a value is expected. -/
theorem readValue?_number {text rest : Bytes} (h : ∀ b ∈ text, isNumeralByte b = true)
    (hnumeral : (Numeral.ofBytes? text).isSome = true) (hrest : EndsNumeral rest) (steps : Nat) :
    readValue? (steps + 1) (text ++ rest) = some (number text, rest) := by
  have hread := readNumber?_append h hnumeral hrest
  have hskip := skipBlanks_bytes (.number h hnumeral) rest
  rw [bytes] at hskip
  obtain ⟨b, tail, heq, -⟩ := (IsReadable.number h hnumeral).bytes_eq_cons
  rw [bytes] at heq
  subst heq
  obtain ⟨-, h1, h2, h3, h4, h5, h6, -⟩ := isNumeralByte_spec (h b List.mem_cons_self)
  rw [readValue?, hskip]
  split <;> simp_all

/-- The reader, wherever it stands, reads the tree and leaves what comes behind it.
The allowance it needs is twice the number of bytes. -/
def ReadsBack (t : JsonTree) : Prop :=
  ∀ steps rest, 2 * t.bytes.length ≤ steps → EndsNumeral rest →
    readValue? steps (t.bytes ++ rest) = some (t, rest)

/-- The items of a list are read up to its end. -/
theorem readItems?_bytes {item : JsonTree} {items : List JsonTree}
    (hreadable : ∀ t ∈ item :: items, t.IsReadable) (hback : ∀ t ∈ item :: items, t.ReadsBack)
    (steps : Nat) (rest : Bytes)
    (hsteps : 2 * (item.bytes.length + (itemsBytes items).length) ≤ steps) :
    readItems? steps (item.bytes ++ (itemsBytes items ++ rest)) = some (item :: items, rest) := by
  induction items generalizing item steps with
  | nil =>
    simp only [itemsBytes, List.length_singleton] at hsteps
    obtain ⟨steps, rfl⟩ : ∃ k, steps = k + 1 := ⟨steps - 1, by omega⟩
    have hread := hback item List.mem_cons_self steps (itemsBytes [] ++ rest) (by omega)
      (endsNumeral_itemsBytes [] rest)
    rw [readItems?, hread, itemsBytes, List.singleton_append]
    simp only [skipBlanks_cons (show isBlank 0x5d = false by decide)]
  | cons next items ih =>
    simp only [itemsBytes, List.length_append, List.length_cons] at hsteps
    obtain ⟨steps, rfl⟩ : ∃ k, steps = k + 1 := ⟨steps - 1, by omega⟩
    obtain ⟨-, hreadable'⟩ := List.forall_mem_cons.mp hreadable
    obtain ⟨hitem, hback'⟩ := List.forall_mem_cons.mp hback
    have hread := hitem steps (itemsBytes (next :: items) ++ rest) (by omega)
      (endsNumeral_itemsBytes (next :: items) rest)
    have hrest := ih hreadable' hback' steps (by omega)
    rw [readItems?, hread, itemsBytes]
    simp only [List.cons_append, List.append_assoc,
      skipBlanks_cons (show isBlank 0x2c = false by decide), hrest, Option.map_some]

/-- The members of an object are read up to its end. -/
theorem readMembers?_bytes {name : Bytes} {value : JsonTree} {members : List (Bytes × JsonTree)}
    (hnames : ∀ m ∈ (name, value) :: members, ∀ rest,
      Quoted.split? (m.1 ++ 0x22 :: rest) = some (m.1, rest))
    (hback : ∀ m ∈ (name, value) :: members, m.2.ReadsBack) (steps : Nat) (rest : Bytes)
    (hsteps : 2 * (value.bytes.length + (membersBytes members).length) ≤ steps) :
    readMembers? steps
      (0x22 :: (name ++ 0x22 :: 0x3a :: (value.bytes ++ (membersBytes members ++ rest)))) =
        some ((name, value) :: members, rest) := by
  induction members generalizing name value steps with
  | nil =>
    simp only [membersBytes, List.length_singleton] at hsteps
    obtain ⟨steps, rfl⟩ : ∃ k, steps = k + 1 := ⟨steps - 1, by omega⟩
    have hname := hnames (name, value) List.mem_cons_self
    have hvalue : value.ReadsBack := hback (name, value) List.mem_cons_self
    have hread := hvalue steps (membersBytes [] ++ rest) (by omega)
      (endsNumeral_membersBytes [] rest)
    rw [readMembers?]
    simp only [skipBlanks_cons (show isBlank 0x22 = false by decide), hname,
      skipBlanks_cons (show isBlank 0x3a = false by decide), hread]
    rw [membersBytes, List.singleton_append]
    simp only [skipBlanks_cons (show isBlank 0x7d = false by decide)]
  | cons m members ih =>
    obtain ⟨name', value'⟩ := m
    simp only [membersBytes, List.length_append, List.length_cons, List.cons_append] at hsteps
    obtain ⟨steps, rfl⟩ : ∃ k, steps = k + 1 := ⟨steps - 1, by omega⟩
    obtain ⟨hname, hnames'⟩ := List.forall_mem_cons.mp hnames
    obtain ⟨hvalue, hback'⟩ := List.forall_mem_cons.mp hback
    simp only at hvalue
    have hread := hvalue steps (membersBytes ((name', value') :: members) ++ rest) (by omega)
      (endsNumeral_membersBytes ((name', value') :: members) rest)
    have hrest := ih hnames' hback' steps (by omega)
    rw [readMembers?]
    simp only [skipBlanks_cons (show isBlank 0x22 = false by decide), hname,
      skipBlanks_cons (show isBlank 0x3a = false by decide), hread]
    rw [membersBytes]
    simp only [List.cons_append, List.append_assoc,
      skipBlanks_cons (show isBlank 0x2c = false by decide), hrest, Option.map_some]

/-- Something is written of every tree, and so there is a step to spend on it; and
it does not start with a blank. -/
theorem IsReadable.readsBack_of_succ {t : JsonTree} (h : t.IsReadable)
    (hstep : ∀ steps rest, 2 * t.bytes.length ≤ steps + 1 → EndsNumeral rest →
      skipBlanks (t.bytes ++ rest) = t.bytes ++ rest →
        readValue? (steps + 1) (t.bytes ++ rest) = some (t, rest)) : t.ReadsBack := by
  intro steps rest hsteps hrest
  obtain ⟨b, tail, heq, -⟩ := h.bytes_eq_cons
  cases steps with
  | zero =>
    rw [heq, List.length_cons] at hsteps
    omega
  | succ steps => exact hstep steps rest hsteps hrest (skipBlanks_bytes h rest)

/-- **The reader reads what is written of a tree**, wherever it stands. -/
theorem IsReadable.readsBack {t : JsonTree} (h : t.IsReadable) : t.ReadsBack := by
  induction h with
  | null =>
    refine IsReadable.null.readsBack_of_succ fun steps rest _ _ _ => ?_
    simp [bytes, readValue?, skipBlanks, isBlank]
  | bool b =>
    refine (IsReadable.bool b).readsBack_of_succ fun steps rest _ _ _ => ?_
    cases b <;> simp [bytes, readValue?, skipBlanks, isBlank]
  | number hbytes hnumeral =>
    refine (IsReadable.number hbytes hnumeral).readsBack_of_succ fun steps rest _ hrest _ => ?_
    rw [bytes]
    exact readValue?_number hbytes hnumeral hrest steps
  | string hbody =>
    refine (IsReadable.string hbody).readsBack_of_succ fun steps rest _ _ hskip => ?_
    rw [readValue?, hskip, bytes]
    simp [hbody]
  | @array items hitems ih =>
    refine (IsReadable.array hitems).readsBack_of_succ fun steps rest hsteps _ hskip => ?_
    cases items with
    | nil => simp [bytes, readValue?, skipBlanks, isBlank]
    | cons item items =>
      rw [bytes, List.length_append, List.length_cons] at hsteps
      have hitem := hitems item List.mem_cons_self
      have hread := readItems?_bytes hitems ih steps rest (by omega)
      obtain ⟨c, tail, heq, -, hend⟩ := hitem.bytes_eq_cons
      rw [readValue?, hskip, bytes]
      simp only [List.cons_append, List.append_assoc, skipBlanks_bytes hitem]
      rw [heq, List.cons_append] at hread ⊢
      split
      · next hclose =>
        -- The first item would close the list.
        cases hclose
        exact absurd rfl hend
      · rw [hread, Option.map_some]
  | @object members hnames hvalues ih =>
    refine (IsReadable.object hnames hvalues).readsBack_of_succ fun steps rest hsteps _ hskip => ?_
    cases members with
    | nil => simp [bytes, readValue?, skipBlanks, isBlank]
    | cons m members =>
      obtain ⟨name, value⟩ := m
      rw [bytes] at hsteps
      simp only [List.length_append, List.length_cons, List.cons_append] at hsteps
      have hread := readMembers?_bytes hnames ih steps rest (by omega)
      rw [readValue?, hskip, bytes]
      simp only [List.cons_append, List.append_assoc,
        skipBlanks_cons (show isBlank 0x22 = false by decide)]
      split
      · next hclose => cases hclose
      · rw [hread, Option.map_some]

/-- **A tree is read back** from what is written of it. -/
theorem ofBytes?_bytes {t : JsonTree} (h : t.IsReadable) : ofBytes? t.bytes = some t := by
  have hread := h.readsBack (2 * t.bytes.length + 2) [] (by omega) endsNumeral_nil
  rw [List.append_nil] at hread
  rw [ofBytes?, hread]
  rfl

end KeyedSeries.JsonTree

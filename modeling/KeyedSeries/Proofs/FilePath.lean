import KeyedSeries.Disk.Change
import KeyedSeries.Series.Location

/-!
# Paths of places

Every place of a disk has a path, the one that is written from the root down
(`KeyedSeries.FilePath.ofPlace`). If its names are such as entries can have
(`KeyedSeries.FilePath.Fits`), the path says exactly what the place says: its steps
(`KeyedSeries.FilePath.stepsOf_ofPlace`) and its components
(`KeyedSeries.FilePath.components_ofPlace`) are the names, and going down to an
entry or up to a parent is adding a name to the place or taking one away.
-/

namespace KeyedSeries

/-! ### Texts between separators -/

theorem joined_cons {separator : Char} (p : List Char) {ps : List (List Char)} (h : ps ≠ []) :
    joined separator (p :: ps) = p ++ separator :: joined separator ps := by
  cases ps with
  | nil => exact absurd rfl h
  | cons q qs => rfl

theorem joined_concat {separator : Char} {ps : List (List Char)} (h : ps ≠ []) (p : List Char) :
    joined separator (ps ++ [p]) = joined separator ps ++ separator :: p := by
  induction ps with
  | nil => exact absurd rfl h
  | cons q qs ih =>
    cases qs with
    | nil => rfl
    | cons r rs =>
      have hne : r :: rs ≠ [] := List.cons_ne_nil r rs
      rw [List.cons_append, joined_cons q (by simp), ih hne, joined_cons q hne, List.append_assoc,
        List.cons_append]

/-- A text without separators is one piece. -/
theorem pieces_of_notMem {separator : Char} {t : List Char} (h : separator ∉ t) :
    pieces separator t = [t] := by
  induction t with
  | nil => rfl
  | cons c t ih =>
    rw [List.mem_cons, not_or] at h
    rw [pieces, if_neg (Ne.symm h.1), ih h.2]

/-- Behind the last separator there is one piece more. -/
theorem pieces_append_cons {separator : Char} (t : List Char) {piece : List Char}
    (h : separator ∉ piece) :
    pieces separator (t ++ separator :: piece) = pieces separator t ++ [piece] := by
  induction t with
  | nil => simp [pieces, pieces_of_notMem h]
  | cons c rest ih =>
    rw [List.cons_append, pieces, pieces, ih]
    split
    · rfl
    · cases hrest : pieces separator rest with
      | nil => exact absurd hrest (pieces_ne_nil separator rest)
      | cons first others => rfl

/-- **Pieces without separators are the pieces of what is joined of them.** -/
theorem pieces_joined {separator : Char} {ps : List (List Char)} (hne : ps ≠ [])
    (h : ∀ p ∈ ps, separator ∉ p) : pieces separator (joined separator ps) = ps := by
  have happend : ∀ (p t : List Char), separator ∉ p →
      pieces separator (p ++ separator :: t) = p :: pieces separator t := by
    intro p t hp
    induction p with
    | nil => simp [pieces]
    | cons c p ih =>
      rw [List.mem_cons, not_or] at hp
      rw [List.cons_append, pieces, if_neg (Ne.symm hp.1), ih hp.2]
  induction ps with
  | nil => exact absurd rfl hne
  | cons p ps ih =>
    obtain ⟨hp, hps⟩ := List.forall_mem_cons.mp h
    cases ps with
    | nil => rw [joined, pieces_of_notMem hp]
    | cons q qs =>
      rw [joined_cons p (List.cons_ne_nil q qs), happend p _ hp, ih (List.cons_ne_nil q qs) hps]

/-- Between separators there are none. -/
theorem notMem_of_mem_pieces {separator : Char} {t p : List Char} (h : p ∈ pieces separator t) :
    separator ∉ p := by
  induction t generalizing p with
  | nil => simp_all [pieces]
  | cons c rest ih =>
    rw [pieces] at h
    split at h
    · rcases List.mem_cons.mp h with rfl | h
      · exact List.not_mem_nil
      · exact ih h
    · next hc =>
      split at h
      · next hnil => exact absurd hnil (pieces_ne_nil separator rest)
      · next q qs hcons =>
        rw [hcons] at ih
        rcases List.mem_cons.mp h with rfl | h
        · rw [List.mem_cons, not_or]
          exact ⟨Ne.symm hc, ih List.mem_cons_self⟩
        · exact ih (List.mem_cons_of_mem _ h)

/-- The characters of texts with a separator between every two of them. -/
theorem toList_intercalate_singleton (separator : Char) (l : List String) :
    ((String.singleton separator).intercalate l).toList =
      joined separator (l.map String.toList) := by
  induction l with
  | nil => simp [joined]
  | cons s rest ih =>
    cases rest with
    | nil => simp [joined]
    | cons t rest =>
      rw [String.intercalate_cons_cons]
      simp only [String.toList_append, String.toList_singleton, ih, List.map_cons, joined,
        List.append_assoc, List.singleton_append]

namespace FilePath

/-! ### Names -/

/-- A text that no step of a path takes for anything else than a name. -/
structure IsPlain (name : String) : Prop where
  /-- It is the name of one entry. -/
  isEntryName : isEntryName name = true
  /-- It has no zero in it. -/
  noZero : '\x00' ∉ name.toList

/-- A text that can be the name of an entry: a plain one that is not too long. -/
structure Fits (name : String) : Prop extends IsPlain name where
  /-- It is not too long. -/
  short : name.utf8ByteSize ≤ Disk.nameLimit

theorem isEntryName_iff {name : String} :
    isEntryName name = true ↔ name ≠ "" ∧ '/' ∉ name.toList ∧ isName name = true := by
  simp [isEntryName, and_assoc]

theorem isName_iff {name : String} :
    isName name = true ↔ name ≠ rootName ∧ name ≠ hereName ∧ name ≠ upName := by
  simp [isName, and_assoc]

theorem toList_ne_here {name : String} (h : isName name = true) : name.toList ≠ ['.'] := fun heq =>
  (isName_iff.mp h).2.1 (String.toList_inj.mp heq)

theorem fits_iff {name : String} : Fits name ↔
    isEntryName name = true ∧ '\x00' ∉ name.toList ∧ name.utf8ByteSize ≤ Disk.nameLimit :=
  ⟨fun h => ⟨h.isEntryName, h.noZero, h.short⟩, fun ⟨h, h', h''⟩ => ⟨⟨h, h'⟩, h''⟩⟩

instance (name : String) : Decidable (Fits name) := decidable_of_iff' _ fits_iff

namespace IsPlain

variable {name : String}

theorem ne_empty (h : IsPlain name) : name ≠ "" := (isEntryName_iff.mp h.isEntryName).1

theorem noSlash (h : IsPlain name) : '/' ∉ name.toList := (isEntryName_iff.mp h.isEntryName).2.1

theorem isName (h : IsPlain name) : FilePath.isName name = true :=
  (isEntryName_iff.mp h.isEntryName).2.2

theorem ne_here (h : IsPlain name) : name ≠ hereName := (isName_iff.mp h.isName).2.1

theorem ne_up (h : IsPlain name) : name ≠ upName := (isName_iff.mp h.isName).2.2

end IsPlain

/-! ### The path of a place -/

/-- The path of a place, written from the root down. -/
def ofPlace (q : Place) : FilePath := ofComponents (rootName :: q)

theorem toList_ofPlace (q : Place) :
    (ofPlace q).text.toList = '/' :: joined '/' (q.map String.toList) := by
  have hslash : ("/" : String) = String.singleton '/' := rfl
  rw [ofPlace, ofComponents, if_pos rfl, String.toList_append]
  rw [hslash, toList_intercalate_singleton]
  rfl

variable {q : Place}

/-- Names between slashes are the pieces of their text. -/
theorem pieces_names (h : ∀ n ∈ q, isEntryName n = true) :
    pieces '/' (joined '/' (q.map String.toList)) =
      if q = [] then [[]] else q.map String.toList := by
  split
  · next hq => rw [hq]; rfl
  · next hq =>
    refine pieces_joined (by simpa using hq) fun p hp => ?_
    obtain ⟨n, hn, rfl⟩ := List.mem_map.mp hp
    exact (isEntryName_iff.mp (h n hn)).2.1

/-- The path of a place starts with a slash, and so with a piece before it in which
nothing stands. -/
theorem pieces_ofPlace (h : ∀ n ∈ q, isEntryName n = true) :
    pieces '/' (ofPlace q).text.toList =
      [] :: if q = [] then [[]] else q.map String.toList := by
  rw [toList_ofPlace, pieces, if_pos rfl, pieces_names h]

theorem stepsOf_ofPlace (h : ∀ n ∈ q, isEntryName n = true) :
    Disk.stepsOf (ofPlace q).text = "" :: if q = [] then [""] else q := by
  rw [Disk.stepsOf, pieces_ofPlace h]
  split
  · rfl
  · simp [Function.comp_def]

/-- **The components of the path of a place** are the root and the names. -/
theorem components_ofPlace (h : ∀ n ∈ q, isEntryName n = true) :
    (ofPlace q).components = rootName :: q := by
  have hnames : names (pieces '/' (joined '/' (q.map String.toList))) = q := by
    rw [pieces_names h]
    split
    · next hq => rw [hq]; rfl
    · rw [names, List.filter_eq_self.mpr]
      · simp [Function.comp_def]
      · intro p hp
        obtain ⟨n, hn, rfl⟩ := List.mem_map.mp hp
        obtain ⟨hempty, -, hname⟩ := isEntryName_iff.mp (h n hn)
        rw [decide_eq_true_eq]
        exact ⟨fun heq => hempty (String.toList_inj.mp heq), toList_ne_here hname⟩
  rw [components, toList_ofPlace, componentsOf, hnames]

/-- Places are told apart by their paths. -/
theorem ofPlace_inj {q' : Place} (h : ∀ n ∈ q, isEntryName n = true)
    (h' : ∀ n ∈ q', isEntryName n = true) (heq : ofPlace q = ofPlace q') : q = q' := by
  have hcomponents := congrArg components heq
  rw [components_ofPlace h, components_ofPlace h'] at hcomponents
  exact (List.cons.inj hcomponents).2

theorem text_ofPlace_ne (q : Place) : (ofPlace q).text ≠ "" := by
  intro h
  have ht := toList_ofPlace q
  rw [h] at ht
  cases ht

/-- A letter other than a slash stands in the path of a place if it stands in one of
the names. -/
theorem mem_text_ofPlace {letter : Char} (hletter : letter ≠ '/') :
    letter ∈ (ofPlace q).text.toList ↔ ∃ n ∈ q, letter ∈ n.toList := by
  have hjoined : letter ∈ joined '/' (q.map String.toList) ↔ ∃ n ∈ q, letter ∈ n.toList := by
    induction q with
    | nil => simp [joined]
    | cons n rest ih =>
      cases rest with
      | nil => simp [joined]
      | cons m rest =>
        rw [List.map_cons, joined_cons n.toList (by simp), List.mem_append, List.mem_cons, ih]
        simp [hletter]
  rw [toList_ofPlace, List.mem_cons, hjoined, or_iff_right hletter]

/-- The path of a place has no zero in it if no name has. -/
theorem noZero_ofPlace : (ofPlace q).text.toList.contains '\x00' = false ↔
    ∀ n ∈ q, '\x00' ∉ n.toList := by
  simp [mem_text_ofPlace (by decide : '\x00' ≠ '/')]

/-- The last character of the path of a place is a slash only at the root. -/
theorem getLast?_ofPlace (h : ∀ n ∈ q, isEntryName n = true) (hq : q ≠ []) :
    (ofPlace q).text.toList.getLast? ≠ some '/' := by
  have hjoined : ∀ q : Place, q ≠ [] → (∀ n ∈ q, isEntryName n = true) →
      ∃ c, (joined '/' (q.map String.toList)).getLast? = some c ∧ c ≠ '/' := by
    intro q hne hq
    induction q with
    | nil => exact absurd rfl hne
    | cons n rest ih =>
      obtain ⟨hn, hrest⟩ := List.forall_mem_cons.mp hq
      cases rest with
      | nil =>
        obtain ⟨hempty, hslash, -⟩ := isEntryName_iff.mp hn
        have hne : n.toList ≠ [] := fun heq => hempty (String.toList_inj.mp heq)
        refine ⟨n.toList.getLast hne, List.getLast?_eq_some_getLast hne, fun heq => hslash ?_⟩
        rw [← heq]
        exact List.getLast_mem hne
      | cons m rest =>
        obtain ⟨c, hc, hslash⟩ := ih (List.cons_ne_nil m rest) hrest
        refine ⟨c, ?_, hslash⟩
        rw [List.map_cons, joined_cons n.toList (by simp), List.getLast?_append,
          List.getLast?_cons, hc]
        simp
  obtain ⟨c, hc, hslash⟩ := hjoined q hq h
  rw [toList_ofPlace, List.getLast?_cons, hc]
  simpa using hslash

theorem endsInSlash_ofPlace (h : ∀ n ∈ q, isEntryName n = true) (hq : q ≠ []) :
    Disk.endsInSlash (ofPlace q) = false := by
  rw [Disk.endsInSlash, beq_eq_false_iff_ne]
  exact getLast?_ofPlace h hq

/-- No slashes stand at the end of the path of a place, apart from that of the
root. -/
theorem withoutSlashes_ofPlace (h : ∀ n ∈ q, isEntryName n = true) :
    Disk.withoutSlashes (ofPlace q) = ofPlace q := by
  by_cases hq : q = []
  · rw [hq]
    rfl
  · have hlast := getLast?_ofPlace h hq
    have hreverse : (ofPlace q).text.toList.reverse.dropWhile (· == '/') =
        (ofPlace q).text.toList.reverse := by
      cases hr : (ofPlace q).text.toList.reverse with
      | nil => rfl
      | cons c rest =>
        have hc : c ≠ '/' := by
          rintro rfl
          rw [List.getLast?_eq_head?_reverse, hr] at hlast
          exact hlast rfl
        rw [List.dropWhile_cons_of_neg (by simpa using hc)]
    rw [Disk.withoutSlashes, hreverse, List.reverse_reverse]
    split
    · next hnil => rfl
    · rw [String.ofList_toList]

theorem lastStep?_ofPlace (h : ∀ n ∈ q, Fits n) : Disk.lastStep? (ofPlace q) = q.getLast? := by
  rw [Disk.lastStep?, stepsOf_ofPlace fun n hn => (h n hn).isEntryName]
  split
  · next hq => rw [hq]; rfl
  · rw [List.filter_cons_of_neg (by simp), List.filter_eq_self.mpr]
    intro n hn
    simpa using (h n hn).ne_empty

/-! ### Up and down -/

/-- Going down to an entry adds its name to the place. -/
theorem child_ofPlace (h : ∀ n ∈ q, isEntryName n = true) (name : String) :
    (ofPlace q).child name = ofPlace (q ++ [name]) := by
  have hext : ∀ a b : FilePath, a.text.toList = b.text.toList → a = b := by
    rintro ⟨a⟩ ⟨b⟩ h
    exact congrArg mk (String.toList_inj.mp h)
  refine hext _ _ ?_
  rw [child]
  by_cases hq : q = []
  · subst hq
    rw [if_pos (by decide), String.toList_append, toList_ofPlace, toList_ofPlace]
    rfl
  · have hlast : ((ofPlace q).text.toList.getLast? == some '/') = false :=
      endsInSlash_ofPlace h hq
    rw [if_neg (by simp [text_ofPlace_ne, hlast]), String.toList_append, String.toList_append,
      toList_ofPlace, toList_ofPlace, List.map_append, List.map_singleton,
      joined_concat (by simpa using hq), List.cons_append, List.cons_append, List.append_assoc]
    rfl

theorem foldl_child_ofPlace {names : List String} (h : ∀ n ∈ q ++ names, Fits n) :
    names.foldl child (ofPlace q) = ofPlace (q ++ names) := by
  induction names generalizing q with
  | nil => simp
  | cons n rest ih =>
    rw [List.foldl_cons, child_ofPlace (fun m hm => (h m (List.mem_append_left _ hm)).isEntryName),
      ih (by simpa using h)]
    simp

/-- Going up takes the last name away. -/
theorem parent?_ofPlace {name : String} (h : ∀ n ∈ q ++ [name], isEntryName n = true) :
    (ofPlace (q ++ [name])).parent? = some (ofPlace q) := by
  rw [parent?, components_ofPlace h]
  cases q with
  | nil => rfl
  | cons n rest =>
    show some (ofComponents ((rootName :: n :: rest) ++ [name]).dropLast) = _
    rw [List.dropLast_concat]
    rfl

theorem fileName?_ofPlace {name : String} (h : ∀ n ∈ q ++ [name], isEntryName n = true) :
    (ofPlace (q ++ [name])).fileName? = some name := by
  have hname : isName name = true := (isEntryName_iff.mp (h name (by simp))).2.2
  rw [fileName?, components_ofPlace h, ← List.cons_append, List.getLast?_append]
  simp [hname]

theorem around_ofPlace {name : String} (h : ∀ n ∈ q ++ [name], isEntryName n = true) :
    (ofPlace (q ++ [name])).around = ofPlace q :: (ofPlace q).around := by
  have hq : ∀ n ∈ q, isEntryName n = true := fun n hn => h n (List.mem_append_left _ hn)
  have hlength : (rootName :: (q ++ [name])).length - 1 = q.length + 1 := by simp
  rw [around, around, components_ofPlace h, components_ofPlace hq]
  simp only [hlength]
  rw [List.range_succ_eq_map, List.map_cons, List.map_map]
  have hfirst : ofComponents ((rootName :: (q ++ [name])).take (q.length + 1 - 0)) = ofPlace q := by
    rw [Nat.sub_zero, List.take_succ_cons, List.take_left']
    · rfl
    · rfl
  rw [hfirst]
  refine congrArg _ (List.map_congr_left fun i _ => ?_)
  have htake : q.length + 1 - (i + 1) ≤ (rootName :: q).length := by
    rw [List.length_cons]
    omega
  show ofComponents ((rootName :: (q ++ [name])).take (q.length + 1 - (i + 1))) = _
  rw [← List.cons_append, List.take_append_of_le_length htake]
  congr 2
  rw [List.length_cons]
  omega

theorem below?_ofPlace {names : List String} (h : ∀ n ∈ q ++ names, isEntryName n = true) :
    (ofPlace q).below? (ofPlace (q ++ names)) = some names := by
  have hq : ∀ n ∈ q, isEntryName n = true := fun n hn => h n (List.mem_append_left _ hn)
  rw [below?, components_ofPlace h, components_ofPlace hq]
  simp

end FilePath

end KeyedSeries

import KeyedSeries.Proofs.Disk.Walk

/-!
# Entries of a directory, by any path to it

A directory may be known by any path that leads to it. The path of an entry is that path
with the name behind it (`KeyedSeries.FilePath.child`), and it says what it should:
**its components are those of the directory and the name**
(`KeyedSeries.FilePath.components_child`), and **it leads to the entry**
(`KeyedSeries.Disk.locate_child`). So from the files that are found below a directory the
names can be read off again (`KeyedSeries.FilePath.below?_foldl_child`).
-/

namespace KeyedSeries

namespace FilePath

variable {base : FilePath} {name : String}

/-! ### Components -/

theorem names_append (ps qs : List (List Char)) : names (ps ++ qs) = names ps ++ names qs := by
  rw [names, List.filter_append, List.map_append]
  rfl

/-- The names of the pieces of a path that does not start at the root: a step to the same
directory counts where it comes first. -/
def relativeNames : List (List Char) → List String
  | ['.'] :: rest => hereName :: names rest
  | ps => names ps

/-- One piece more is one name more, unless it does not count. -/
theorem relativeNames_append {ps : List (List Char)} (hne : ps ≠ []) (qs : List (List Char)) :
    relativeNames (ps ++ qs) = relativeNames ps ++ names qs := by
  obtain ⟨p, ps, rfl⟩ := List.exists_cons_of_ne_nil hne
  by_cases hp : p = ['.']
  · rw [hp, List.cons_append, relativeNames, relativeNames, names_append, List.cons_append]
  · rw [List.cons_append, relativeNames, relativeNames, ← List.cons_append, names_append]
    all_goals
      rintro rest heq
      exact hp (List.cons.inj heq).1

/-- The components of a path that does not start at the root. -/
theorem componentsOf_cons_of_ne {c : Char} (hc : c ≠ '/') (t : List Char) :
    componentsOf (c :: t) = relativeNames (pieces '/' (c :: t)) := by
  rw [componentsOf]
  · rfl
  · rintro rest heq
    exact hc (List.cons.inj heq).1

/-- What stands behind a slash is one component more, unless it does not count. -/
theorem componentsOf_append_cons {t piece : List Char} (ht : t ≠ []) (h : '/' ∉ piece) :
    componentsOf (t ++ '/' :: piece) = componentsOf t ++ names [piece] := by
  obtain ⟨c, rest, rfl⟩ := List.exists_cons_of_ne_nil ht
  by_cases hc : c = '/'
  · subst hc
    rw [List.cons_append, componentsOf, componentsOf, pieces_append_cons rest h, names_append,
      List.cons_append]
  · rw [List.cons_append, componentsOf_cons_of_ne hc, componentsOf_cons_of_ne hc,
      ← List.cons_append, pieces_append_cons (c :: rest) h,
      relativeNames_append (pieces_ne_nil '/' (c :: rest))]

/-- The names that count are those that entries can have. -/
theorem names_singleton (h : isEntryName name = true) : names [name.toList] = [name] := by
  obtain ⟨hempty, -, hname⟩ := isEntryName_iff.mp h
  have hne : name.toList ≠ [] := fun heq => hempty (String.toList_inj.mp heq)
  simp [names, hne, toList_ne_here hname]

theorem componentsOf_of_notMem {t : List Char} (h : '/' ∉ t) (hhere : t ≠ ['.']) :
    componentsOf t = names [t] := by
  rw [componentsOf, pieces_of_notMem h]
  · split
    · next heq =>
      cases heq
      exact absurd rfl hhere
    · rfl
  · rintro rest rfl
    exact h List.mem_cons_self

/-- **The components of the path of an entry** are those of the directory and the name. -/
theorem components_child (h : isEntryName name = true) :
    (base.child name).components = base.components ++ [name] := by
  obtain ⟨-, hslash, hname⟩ := isEntryName_iff.mp h
  have hhere := toList_ne_here hname
  have hsingle := names_singleton h
  rw [components, components, child]
  by_cases hempty : base.text = ""
  · rw [hempty]
    simp only [decide_true, Bool.true_or, if_true, String.empty_append, String.toList_empty]
    rw [componentsOf_of_notMem hslash hhere, hsingle]
    rfl
  · have htext : base.text.toList ≠ [] := fun heq => hempty (String.toList_inj.mp heq)
    by_cases hend : base.text.toList.getLast? = some '/'
    · -- The slash is there already.
      obtain ⟨t, ht⟩ := List.getLast?_eq_some_iff.mp hend
      rw [if_pos (by simp [hend]), String.toList_append, ht, List.append_assoc,
        List.singleton_append]
      cases t with
      | nil =>
        rw [List.nil_append, List.nil_append, componentsOf, componentsOf, pieces_of_notMem hslash,
          hsingle]
        rfl
      | cons c rest =>
        have hne : c :: rest ≠ [] := List.cons_ne_nil c rest
        rw [componentsOf_append_cons hne hslash, componentsOf_append_cons hne (by simp), hsingle]
        simp [names]
    · rw [if_neg (by simp [hempty, hend]), String.toList_append, String.toList_append,
        List.append_assoc]
      rw [show ("/" : String).toList = ['/'] from rfl, List.singleton_append,
        componentsOf_append_cons htext hslash, hsingle]

theorem components_foldl_child {names : List String} (h : ∀ n ∈ names, isEntryName n = true) :
    (names.foldl child base).components = base.components ++ names := by
  induction names generalizing base with
  | nil => simp
  | cons n rest ih =>
    obtain ⟨hn, hrest⟩ := List.forall_mem_cons.mp h
    rw [List.foldl_cons, ih hrest, components_child hn, List.append_assoc, List.singleton_append]

/-- The names that lead down to an entry can be read off its path. -/
theorem below?_foldl_child {names : List String} (h : ∀ n ∈ names, isEntryName n = true) :
    base.below? (names.foldl child base) = some names := by
  rw [below?, components_foldl_child h]
  simp

end FilePath

namespace Disk

open FilePath

variable {d : Disk} {base : FilePath} {place : Place} {name : String}

/-! ### Walking on -/

/-- Behind a walk to a directory another one may start there. Empty steps at its end do not
count. -/
theorem descend_append {here steps : List String} {n : Nat}
    (h : d.descend true here (steps ++ List.replicate n "") = .ok (.spot (.found place .dir)))
    (more : List String) :
    d.descend true here (steps ++ more) = d.descend true place more := by
  induction steps generalizing here with
  | nil =>
    obtain rfl : here = place := by
      induction n with
      | zero =>
        cases h
        rfl
      | succ n ih =>
        rw [List.nil_append, List.replicate_succ, descend, if_pos (Or.inl rfl)] at h
        exact ih (by simpa using h)
    rfl
  | cons name rest ih =>
    rw [List.cons_append] at h ⊢
    rcases descend_cons_eq_ok h with ⟨there, hgoes, hbehind⟩ | hends
    · rw [descend_of_goes hgoes]
      exact ih hbehind
    · cases hends

/-- The steps of the path of an entry are those of the directory and the name. -/
theorem stepsOf_child (hbase : base.text ≠ "") (h : '/' ∉ name.toList) :
    ∃ steps n, stepsOf base.text = steps ++ List.replicate n "" ∧
      stepsOf (base.child name).text = steps ++ [name] := by
  rw [child]
  by_cases hend : base.text.toList.getLast? = some '/'
  · obtain ⟨t, ht⟩ := List.getLast?_eq_some_iff.mp hend
    refine ⟨(pieces '/' t).map String.ofList, 1, ?_, ?_⟩
    · rw [stepsOf, ht, pieces_append_cons t List.not_mem_nil, List.map_append]
      rfl
    · rw [if_pos (by simp [hend]), stepsOf, String.toList_append, ht, List.append_assoc,
        List.singleton_append, pieces_append_cons t h]
      simp
  · refine ⟨stepsOf base.text, 0, by simp, ?_⟩
    rw [if_neg (by simp [hbase, hend]), stepsOf, stepsOf, String.toList_append,
      String.toList_append, List.append_assoc]
    rw [show ("/" : String).toList = ['/'] from rfl, List.singleton_append,
      pieces_append_cons _ h]
    simp

/-- **The path of an entry leads to it**, by whatever path its directory is known. -/
theorem locate_child (ht : d.IsPlainTree) (hbase : d.dirPlace? base = some place) {e : Entry}
    (he : d.entry? (place ++ [name]) = some e) :
    d.locate true (base.child name) = .ok (.found (place ++ [name]) e) := by
  have hname : Fits name := ht.fits he name (by simp)
  have hlocate := dirPlace?_eq_some_iff.mp hbase
  obtain ⟨hzero, hdescend⟩ := descend_of_locate ht hlocate
  have htext : base.text ≠ "" := (walk_of_locate hlocate).1
  obtain ⟨steps, n, hsteps, hchild⟩ := stepsOf_child htext hname.noSlash
  rw [hsteps] at hdescend
  have hlast : d.descend true place [name] = .ok (.spot (.found (place ++ [name]) e)) := by
    have hdir : d.entry? place = some .dir := ht.closed he
    have hlink : ∀ t, e ≠ .link t := fun t heq => ht.noLinks _ t (heq ▸ he)
    rw [descend_names ht.toIsTree hdir (by simpa using hname) (ht.passable_of_some he hlink),
      spot_of_some he]
    rfl
  have hnonempty : (base.child name).text ≠ "" ∧ '\x00' ∉ (base.child name).text.toList := by
    rw [child]
    split <;> simp [String.append_eq_empty_iff, hname.ne_empty, hname.noZero, hzero]
  rw [locate_eq_walk hnonempty.1 hnonempty.2, walk, hchild, descend_append hdescend, hlast]

/-- A path that leads down from a directory to a file leads to the file. -/
theorem locate_foldl_child (ht : d.IsPlainTree) (hbase : d.dirPlace? base = some place)
    {names : List String} (hne : names ≠ []) {content : Bytes}
    (hfile : d.entry? (place ++ names) = some (.file content)) :
    d.locate true (names.foldl child base) = .ok (.found (place ++ names) (.file content)) := by
  induction names generalizing base place with
  | nil => exact absurd rfl hne
  | cons n rest ih =>
    cases rest with
    | nil => exact locate_child ht hbase hfile
    | cons m rest =>
      have hassoc : place ++ n :: m :: rest = place ++ [n] ++ m :: rest := by simp
      rw [hassoc] at hfile ⊢
      have hdir := ht.dir_of_append (List.cons_ne_nil m rest) hfile
      rw [List.foldl_cons]
      have hplace := dirPlace?_eq_some_iff.mpr (locate_child ht hbase hdir)
      exact ih hplace (List.cons_ne_nil m rest) hfile

end Disk

end KeyedSeries

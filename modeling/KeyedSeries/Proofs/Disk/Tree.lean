import KeyedSeries.Proofs.FilePath
import KeyedSeries.Proofs.OrderedMap

/-!
# Disks that are trees

On a disk that is a tree (`KeyedSeries.Disk.IsTree`) every entry stands in a
directory. A walk along the path of a place is then decided by two entries, the
one at the place and the one of the directory around it
(`KeyedSeries.Disk.spot`): **if nothing but directories is on the way, the path of
a place leads to the place** (`KeyedSeries.Disk.locate_ofPlace`).
-/

namespace KeyedSeries.Disk

open FilePath

/-! ### Entries after a change -/

variable {d : Disk} {p q : Place}

@[simp] theorem entry?_nil (d : Disk) : d.entry? [] = some .dir := rfl

theorem entry?_of_ne_nil (d : Disk) (h : q ≠ []) : d.entry? q = d.entries.get? q := if_neg h

theorem entry?_put (hp : p ≠ []) (e : Entry) (q : Place) :
    Disk.entry? (d.put p e) q = if q = p then some e else d.entry? q := by
  by_cases hq : q = []
  · subst hq
    rw [if_neg (Ne.symm hp)]
    rfl
  · rw [entry?_of_ne_nil _ hq, entry?_of_ne_nil _ hq, put, OrderedMap.get?_insert]

theorem entry?_drop (hp : p ≠ []) (q : Place) :
    Disk.entry? (d.drop p) q = if q = p then none else d.entry? q := by
  by_cases hq : q = []
  · subst hq
    rw [if_neg (Ne.symm hp)]
    rfl
  · rw [entry?_of_ne_nil _ hq, entry?_of_ne_nil _ hq, drop, OrderedMap.get?_erase]

theorem entry?_dropBelow (q : Place) :
    Disk.entry? (d.dropBelow p) q = if p <+: q ∧ q ≠ p then none else d.entry? q := by
  by_cases hq : q = []
  · subst hq
    rw [if_neg fun h => h.2 (List.prefix_nil.mp h.1).symm]
    rfl
  · rw [entry?_of_ne_nil _ hq, entry?_of_ne_nil _ hq, dropBelow, OrderedMap.get?_filter_keys]
    have hbelow : (p.isPrefixOf q && q != p) = true ↔ p <+: q ∧ q ≠ p := by
      rw [Bool.and_eq_true, List.isPrefixOf_iff_prefix, bne_iff_ne]
    by_cases h : p <+: q ∧ q ≠ p
    · rw [if_pos h, hbelow.mpr h]
      rfl
    · rw [if_neg h, Bool.eq_false_iff.mpr (mt hbelow.mp h)]
      rfl

/-- What lies below a place. -/
theorem mem_below_iff {names : List String} {e : Entry} :
    (names, e) ∈ d.below p ↔ names ≠ [] ∧ d.entry? (p ++ names) = some e := by
  rw [below, List.mem_filterMap]
  constructor
  · rintro ⟨⟨q, e'⟩, hmem, h⟩
    simp only [Option.ite_none_right_eq_some, Bool.and_eq_true, List.isPrefixOf_iff_prefix,
      bne_iff_ne, Option.some.injEq, Prod.mk.injEq] at h
    obtain ⟨⟨⟨r, rfl⟩, hne⟩, hdrop, rfl⟩ := h
    rw [List.drop_left] at hdrop
    subst hdrop
    have hr : r ≠ [] := fun hr => hne (by rw [hr, List.append_nil])
    have hget := OrderedMap.mem_toList_iff.mp hmem
    exact ⟨hr, by rw [entry?_of_ne_nil _ (by simp [hr]), hget]⟩
  · rintro ⟨hne, h⟩
    rw [entry?_of_ne_nil _ (by simp [hne])] at h
    refine ⟨(p ++ names, e), OrderedMap.mem_toList_iff.mpr h, ?_⟩
    simp [hne]

/-- Names before two places do not matter to their order. -/
theorem compare_append_left (p q r : Place) : compare (p ++ q) (p ++ r) = compare q r := by
  induction p with
  | nil => rfl
  | cons n p ih =>
    have hcons : compare (n :: (p ++ q)) (n :: (p ++ r)) =
        (compare n n).then (compare (p ++ q) (p ++ r)) := List.compareLex_cons_cons
    have hname : compare n n = .eq := Std.ReflCmp.compare_self
    rw [List.cons_append, List.cons_append, hcons, ih, hname]
    rfl

/-- What lies below a place goes by ascending names. -/
theorem pairwise_below (d : Disk) (p : Place) :
    (d.below p).Pairwise fun a b => compare a.1 b.1 = .lt := by
  refine List.pairwise_filterMap.mpr (d.entries.ascending.imp fun {a b} hab x hx y hy => ?_)
  simp only [Option.ite_none_right_eq_some, Bool.and_eq_true, List.isPrefixOf_iff_prefix,
    Option.some.injEq] at hx hy
  obtain ⟨⟨⟨q, hq⟩, -⟩, rfl⟩ := hx
  obtain ⟨⟨⟨r, hr⟩, -⟩, rfl⟩ := hy
  rw [← hq, ← hr, compare_append_left] at hab
  simpa [← hq, ← hr] using hab

/-! ### Trees -/

/-- Every entry of a disk has a name that entries can have and stands in a
directory. -/
structure IsTree (d : Disk) : Prop where
  /-- The names that lead to an entry are such as entries can have. -/
  fits : ∀ {q e}, d.entry? q = some e → ∀ n ∈ q, Fits n
  /-- Around an entry there is a directory. -/
  closed : ∀ {q n e}, d.entry? (q ++ [n]) = some e → d.entry? q = some .dir

/-- Above every entry of a tree there are directories only. -/
theorem IsTree.dir_of_append (h : d.IsTree) {names : List String} {e : Entry} (hne : names ≠ [])
    (he : d.entry? (q ++ names) = some e) : d.entry? q = some .dir := by
  induction names using List.reverseRecOn generalizing e with
  | nil => exact absurd rfl hne
  | append_singleton names n ih =>
    rw [← List.append_assoc] at he
    have hdir : d.entry? (q ++ names) = some .dir := h.closed he
    by_cases hnil : names = []
    · rwa [hnil, List.append_nil] at hdir
    · exact ih hnil hdir

theorem IsTree.dir_of_prefix (h : d.IsTree) {r : Place} {e : Entry} (hqr : q <+: r) (hne : q ≠ r)
    (he : d.entry? r = some e) : d.entry? q = some .dir := by
  obtain ⟨names, rfl⟩ := hqr
  refine h.dir_of_append (fun hnil => hne ?_) he
  rw [hnil, List.append_nil]

/-- Below a place where nothing stands there is nothing. -/
theorem IsTree.none_of_prefix (h : d.IsTree) {r : Place} (hqr : q <+: r)
    (hq : d.entry? q = none) : d.entry? r = none := by
  by_contra hr
  obtain ⟨e, he⟩ := Option.ne_none_iff_exists'.mp hr
  have hne : q ≠ r := by
    rintro rfl
    rw [hq] at he
    cases he
  rw [h.dir_of_prefix hqr hne he] at hq
  cases hq

/-! ### Walking to a place -/

/-- Nothing on the way to a place keeps a walk from it: a file would if it stood
before the end, a link anywhere. -/
structure Passable (d : Disk) (q : Place) : Prop where
  /-- There is no file on the way. -/
  noFile : ∀ {r c}, r <+: q → r ≠ q → d.entry? r ≠ some (.file c)
  /-- There is no link on the way, nor at its end. -/
  noLink : ∀ {r t}, r <+: q → d.entry? r ≠ some (.link t)

/-- Where a walk to a place leads if nothing is in the way. -/
def spot (d : Disk) (q : Place) : Except IoKind Spot :=
  match d.entry? q with
  | some e => .ok (.found q e)
  | none => if d.entry? q.dropLast = some .dir then .ok (.vacant q false) else .error .notFound

theorem spot_of_some {e : Entry} (h : d.entry? q = some e) : d.spot q = .ok (.found q e) := by
  rw [spot, h]

theorem descend_names (ht : d.IsTree) {follow : Bool} {here names : List String}
    (hhere : d.entry? here = some .dir) (hfits : ∀ n ∈ names, Fits n)
    (hway : d.Passable (here ++ names)) :
    d.descend follow here names = (d.spot (here ++ names)).map .spot := by
  induction names generalizing here with
  | nil =>
    rw [List.append_nil, spot_of_some hhere]
    rfl
  | cons n rest ih =>
    obtain ⟨hn, hrest⟩ := List.forall_mem_cons.mp hfits
    have hassoc : here ++ n :: rest = here ++ [n] ++ rest := by simp
    have hlong : ¬nameLimit < n.utf8ByteSize := Nat.not_lt.mpr hn.short
    rw [descend, if_neg (by simp [hn.ne_empty, hn.ne_here]), if_neg hn.ne_up, if_neg hlong]
    have hpre : here ++ [n] <+: here ++ n :: rest := ⟨rest, hassoc.symm⟩
    cases hentry : d.entry? (here ++ [n]) with
    | none =>
      cases rest with
      | nil =>
        rw [spot, hentry]
        simp [hhere, Except.map]
      | cons m rest =>
        have hm : m ≠ "" := (hrest m List.mem_cons_self).ne_empty
        have hlast : here ++ [n] <+: (here ++ n :: m :: rest).dropLast := by
          rw [hassoc, List.dropLast_append_of_ne_nil (List.cons_ne_nil m rest)]
          exact List.prefix_append _ _
        rw [spot, ht.none_of_prefix hpre hentry, ht.none_of_prefix hlast hentry]
        simp [hm, Except.map]
    | some e =>
      cases e with
      | dir =>
        rw [hassoc] at hway ⊢
        exact ih hentry hrest hway
      | file c =>
        -- A file can only stand at the end.
        have hend : here ++ [n] = here ++ n :: rest := by
          by_contra hne
          exact hway.noFile hpre hne hentry
        have hnil : rest = [] := by simpa using hend
        subst hnil
        rw [spot_of_some hentry]
        rfl
      | link t => exact absurd hentry (hway.noLink hpre)

theorem locate_eq_walk {path : FilePath} (htext : path.text ≠ "")
    (hzero : '\x00' ∉ path.text.toList) (follow : Bool) :
    d.locate follow path = d.walk follow (linkLimit + 1) [] (stepsOf path.text) := by
  rw [locate, if_neg htext, if_neg (by simpa using hzero)]

theorem locate_ofPlace_eq_walk (hzero : ∀ n ∈ q, '\x00' ∉ n.toList) (follow : Bool) :
    d.locate follow (ofPlace q) = d.walk follow (linkLimit + 1) [] (stepsOf (ofPlace q).text) :=
  locate_eq_walk (text_ofPlace_ne q) (by simpa using noZero_ofPlace.mpr hzero) follow

/-- **The path of a place leads to the place** if nothing but directories is on the
way. -/
theorem locate_ofPlace (ht : d.IsTree) (hfits : ∀ n ∈ q, Fits n) (hway : d.Passable q)
    (follow : Bool) : d.locate follow (ofPlace q) = d.spot q := by
  have hsteps : d.descend follow [] (stepsOf (ofPlace q).text) = (d.spot q).map .spot := by
    -- The path starts with a slash, and so its first step is empty.
    rw [stepsOf_ofPlace fun n hn => (hfits n hn).isEntryName, descend, if_pos (Or.inl rfl)]
    by_cases hq : q = []
    · subst hq
      rfl
    · rw [if_neg hq]
      exact descend_names ht (entry?_nil d) hfits hway
  rw [locate_ofPlace_eq_walk fun n hn => (hfits n hn).noZero, walk, hsteps]
  cases d.spot q <;> rfl

/-- A walk into a directory for a name that is too long fails. -/
theorem locate_of_tooLong (ht : d.IsTree) {name : String} (hplain : IsPlain name)
    (hlong : nameLimit < name.utf8ByteSize) (hdir : d.entry? q = some .dir) (follow : Bool) :
    d.locate follow (ofPlace (q ++ [name])) = .error .invalidFilename := by
  have hfits : ∀ n ∈ q, Fits n := ht.fits hdir
  have hnames : ∀ n ∈ q ++ [name], IsPlain n := by
    intro n hn
    rcases List.mem_append.mp hn with hn | hn
    · exact (hfits n hn).toIsPlain
    · rwa [List.mem_singleton.mp hn]
  -- From any directory on the way the walk comes to the name.
  have hwalk : ∀ rest here : List String, here ++ rest = q →
      d.descend follow here (rest ++ [name]) = .error .invalidFilename := by
    intro rest
    induction rest with
    | nil =>
      intro here _
      rw [List.nil_append, descend, if_neg (by simp [hplain.ne_empty, hplain.ne_here]),
        if_neg hplain.ne_up, if_pos hlong]
    | cons n rest ih =>
      intro here hq
      have hassoc : here ++ [n] ++ rest = q := by simp [hq]
      have hn : Fits n := hfits n (by simp [← hq])
      have hentry : d.entry? (here ++ [n]) = some .dir := by
        by_cases hend : here ++ [n] = q
        · rw [hend, hdir]
        · exact ht.dir_of_prefix ⟨rest, hassoc⟩ hend hdir
      rw [List.cons_append, descend, if_neg (by simp [hn.ne_empty, hn.ne_here]), if_neg hn.ne_up,
        if_neg (Nat.not_lt.mpr hn.short), hentry]
      exact ih _ hassoc
  have hsteps : d.descend follow [] (stepsOf (ofPlace (q ++ [name])).text) =
      .error .invalidFilename := by
    rw [stepsOf_ofPlace fun n hn => (hnames n hn).isEntryName, if_neg (by simp), descend,
      if_pos (Or.inl rfl)]
    exact hwalk q [] rfl
  rw [locate_ofPlace_eq_walk fun n hn => (hnames n hn).noZero, walk, hsteps]

/-! ### Ways -/

/-- Nothing is in the way to an entry, if it is no link itself. -/
theorem IsTree.passable_of_some (h : d.IsTree) {e : Entry} (he : d.entry? q = some e)
    (hlink : ∀ t, e ≠ .link t) : d.Passable q where
  noFile := by
    intro r c hr hne
    rw [h.dir_of_prefix hr hne he]
    exact nofun
  noLink := by
    intro r t hr
    by_cases hne : r = q
    · rw [hne, he]
      exact fun heq => hlink t (Option.some.inj heq)
    · rw [h.dir_of_prefix hr hne he]
      exact nofun

/-- Nothing is in the way to a place in a directory. -/
theorem IsTree.passable_child (h : d.IsTree) {name : String} (hdir : d.entry? q = some .dir)
    (hlink : ∀ t, d.entry? (q ++ [name]) ≠ some (.link t)) : d.Passable (q ++ [name]) := by
  have hway : d.Passable q := h.passable_of_some hdir fun _ => nofun
  have hstep : ∀ {r}, r <+: q ++ [name] → r ≠ q ++ [name] → d.entry? r = some .dir := by
    intro r hr hne
    rcases List.prefix_concat_iff.mp hr with heq | hr
    · exact absurd heq hne
    · by_cases hrq : r = q
      · rw [hrq, hdir]
      · exact h.dir_of_prefix hr hrq hdir
  refine ⟨fun hr hne => ?_, fun {r t} hr => ?_⟩
  · rw [hstep hr hne]
    exact nofun
  · by_cases hne : r = q ++ [name]
    · rw [hne]
      exact hlink t
    · rw [hstep hr hne]
      exact nofun

/-! ### Looking at a place -/

/-- The place of a directory is where its path leads. -/
theorem dirPlace?_eq_some_iff {path : FilePath} :
    d.dirPlace? path = some q ↔ d.locate true path = .ok (.found q .dir) := by
  rw [dirPlace?]
  constructor
  · intro h
    split at h
    · next hlocate => rw [hlocate, Option.some.inj h]
    · cases h
  · intro h
    rw [h]

theorem isDir_eq_true_iff {path : FilePath} :
    d.isDir path = true ↔ ∃ place, d.locate true path = .ok (.found place .dir) := by
  rw [isDir, Option.isSome_iff_exists]
  exact exists_congr fun _ => dirPlace?_eq_some_iff

theorem locateName_ofPlace (ht : d.IsTree) (hfits : ∀ n ∈ q, Fits n) (hway : d.Passable q) :
    d.locateName (ofPlace q) = d.spot q := by
  rw [locateName, withoutSlashes_ofPlace fun n hn => (hfits n hn).isEntryName,
    locate_ofPlace ht hfits hway]

theorem dirPlace?_ofPlace (ht : d.IsTree) (hfits : ∀ n ∈ q, Fits n) (hway : d.Passable q) :
    d.dirPlace? (ofPlace q) = if d.entry? q = some .dir then some q else none := by
  rw [dirPlace?, locate_ofPlace ht hfits hway, spot]
  cases d.entry? q with
  | none => by_cases h : d.entry? q.dropLast = some .dir <;> simp [h]
  | some e => cases e <;> simp

theorem isDir_ofPlace (ht : d.IsTree) (hfits : ∀ n ∈ q, Fits n) (hway : d.Passable q) :
    d.isDir (ofPlace q) = decide (d.entry? q = some .dir) := by
  rw [isDir, dirPlace?_ofPlace ht hfits hway]
  by_cases h : d.entry? q = some .dir <;> simp [h]

/-- What is read at a place is the content of the file there. -/
theorem read_ofPlace (ht : d.IsTree) (hfits : ∀ n ∈ q, Fits n) (hway : d.Passable q) :
    d.read (ofPlace q) =
      match d.entry? q with
      | some (.file content) => .ok content
      | some _ => .error .isADirectory
      | none => .error .notFound := by
  rw [read, locate_ofPlace ht hfits hway, spot]
  cases d.entry? q with
  | none => by_cases h : d.entry? q.dropLast = some .dir <;> simp [h]
  | some e => cases e <;> rfl

/-! ### Steps of a walk -/

/-- A step that may be the name of an entry: it is not empty, leads neither to the same
directory nor up, and is not too long. -/
structure IsEntryStep (name : String) : Prop where
  /-- It is a step at all. -/
  counts : ¬(name = "" ∨ name = hereName)
  /-- It does not lead up. -/
  notUp : name ≠ upName
  /-- It is not too long. -/
  short : name.utf8ByteSize ≤ nameLimit

/-- How a walk goes on at a step: it stays, goes up, or goes into a directory. -/
inductive Goes (d : Disk) (here : Place) (name : String) : Place → Prop
  /-- The step does not count. -/
  | stay (hskip : name = "" ∨ name = hereName) : Goes d here name here
  /-- The directory around, which for the root is the root. -/
  | up (hup : name = upName) : Goes d here name here.dropLast
  /-- A directory with the name. -/
  | down (hstep : IsEntryStep name) (hdir : d.entry? (here ++ [name]) = some .dir) :
    Goes d here name (here ++ [name])

/-- How a walk ends at a step, with others behind it. -/
inductive Ends (d : Disk) (follow : Bool) (here : Place) (name : String) (rest : List String) :
    Stop → Prop
  /-- The name is free, and nothing but slashes is behind it. -/
  | vacant (hstep : IsEntryStep name) (hnone : d.entry? (here ++ [name]) = none)
    (hrest : ∀ n ∈ rest, n = "") :
    Ends d follow here name rest (.spot (.vacant (here ++ [name]) (!rest.isEmpty)))
  /-- A file, with nothing behind it. -/
  | file {content : Bytes} (hstep : IsEntryStep name)
    (hfile : d.entry? (here ++ [name]) = some (.file content)) (hrest : rest = []) :
    Ends d follow here name rest (.spot (.found (here ++ [name]) (.file content)))
  /-- A link that is not followed, with nothing behind it. -/
  | link {target : String} (hfollow : follow = false)
    (hlink : d.entry? (here ++ [name]) = some (.link target)) :
    Ends d follow here name rest (.spot (.found (here ++ [name]) (.link target)))
  /-- A link that is followed. -/
  | detour {target : String} (hstep : IsEntryStep name)
    (hlink : d.entry? (here ++ [name]) = some (.link target)) :
    Ends d follow here name rest (.detour here target rest)

/-- A walk that goes on is the walk from where the step led. -/
theorem descend_of_goes {here there : Place} {name : String} (h : d.Goes here name there)
    (follow : Bool) (rest : List String) :
    d.descend follow here (name :: rest) = d.descend follow there rest := by
  cases h with
  | stay hskip => rw [descend, if_pos hskip]
  | up hup => rw [descend, if_neg (by subst hup; decide), if_pos hup]
  | down hstep hdir =>
    rw [descend, if_neg hstep.counts, if_neg hstep.notUp, if_neg (Nat.not_lt.mpr hstep.short), hdir]

/-- **A walk that succeeds** goes on at its first step or ends there. -/
theorem descend_cons_eq_ok {follow : Bool} {here : Place} {name : String} {rest : List String}
    {stop : Stop} (h : d.descend follow here (name :: rest) = .ok stop) :
    (∃ there, d.Goes here name there ∧ d.descend follow there rest = .ok stop) ∨
      d.Ends follow here name rest stop := by
  rw [descend] at h
  split at h
  · next hskip => exact .inl ⟨here, .stay hskip, h⟩
  · next hcounts =>
    split at h
    · next hup => exact .inl ⟨here.dropLast, .up hup, h⟩
    · next hup =>
      split at h
      · cases h
      · next hshort =>
        have hstep : IsEntryStep name := ⟨hcounts, hup, Nat.not_lt.mp hshort⟩
        split at h
        · next hnone =>
          split at h
          · next hrest =>
            cases h
            exact .inr (.vacant hstep hnone fun n hn => by
              simpa using List.all_eq_true.mp hrest n hn)
          · cases h
        · next hdir => exact .inl ⟨here ++ [name], .down hstep hdir, h⟩
        · next content hfile =>
          split at h
          · next hrest =>
            cases h
            exact .inr (.file hstep hfile (List.isEmpty_iff.mp hrest))
          · cases h
        · next target hlink =>
          split at h
          · next hend =>
            cases h
            exact .inr (.link (by simpa using (Bool.and_eq_true_iff.mp hend).2) hlink)
          · cases h
            exact .inr (.detour hstep hlink)

/-- **A walk through several stretches succeeds** if it ends in the first one, or goes on behind
a link: from the root, or from where the link stands. -/
theorem walk_succ_eq_ok_iff {follow : Bool} {stretches : Nat} {here steps : List String}
    {s : Spot} :
    d.walk follow (stretches + 1) here steps = .ok s ↔
      d.descend follow here steps = .ok (.spot s) ∨
        ∃ base target rest, d.descend follow here steps = .ok (.detour base target rest) ∧
          d.walk follow stretches (if FilePath.isRooted ⟨target⟩ then [] else base)
            (stepsOf target ++ rest) = .ok s := by
  rw [walk]
  constructor
  · intro h
    split at h
    · cases h
    · next hdescend =>
      cases h
      exact .inl hdescend
    · next base target rest hdescend => exact .inr ⟨base, target, rest, hdescend, h⟩
  · rintro (hdescend | ⟨base, target, rest, hdescend, hwalk⟩)
    · rw [hdescend]
    · rw [hdescend]
      exact hwalk

/-- A path that leads somewhere is not empty, and no zero is in it. -/
theorem walk_of_locate {path : FilePath} {follow : Bool} {s : Spot}
    (h : d.locate follow path = .ok s) :
    path.text ≠ "" ∧ '\x00' ∉ path.text.toList ∧
      d.walk follow (linkLimit + 1) [] (stepsOf path.text) = .ok s := by
  rw [locate] at h
  split at h
  · cases h
  · next htext =>
    split at h
    · cases h
    · next hzero => exact ⟨htext, by simpa using hzero, h⟩

/-- From a directory a step leads to a directory. -/
theorem Goes.dir (ht : d.IsTree) {here there : Place} {name : String}
    (h : d.Goes here name there) (hhere : d.entry? here = some .dir) :
    d.entry? there = some .dir := by
  cases h with
  | stay => exact hhere
  | up =>
    rcases List.eq_nil_or_concat here with rfl | ⟨up, n, rfl⟩
    · rfl
    · rw [List.concat_eq_append] at hhere ⊢
      rw [List.dropLast_concat]
      exact ht.closed hhere
  | down _ hdir => exact hdir

/-! ### What is found -/

/-- What was found stands where it was found, and a link is followed from a
directory. -/
def Stands (d : Disk) : Stop → Prop
  | .spot (.found q e) => d.entry? q = some e
  | .spot (.vacant ..) => True
  | .detour base _ _ => d.entry? base = some .dir

theorem stands_of_descend (ht : d.IsTree) {follow : Bool} {here steps : List String}
    (hhere : d.entry? here = some .dir) {stop : Stop}
    (h : d.descend follow here steps = .ok stop) : d.Stands stop := by
  induction steps generalizing here with
  | nil =>
    cases h
    exact hhere
  | cons name rest ih =>
    rcases descend_cons_eq_ok h with ⟨there, hgoes, hrest⟩ | hends
    · exact ih (hgoes.dir ht hhere) hrest
    · cases hends with
      | vacant => trivial
      | file _ hfile => exact hfile
      | link _ hlink => exact hlink
      | detour => exact hhere

theorem entry?_of_walk (ht : d.IsTree) {follow : Bool} {stretches : Nat} {here steps : List String}
    (hhere : d.entry? here = some .dir) {e : Entry}
    (h : d.walk follow stretches here steps = .ok (.found q e)) : d.entry? q = some e := by
  induction stretches generalizing here steps with
  | zero => cases h
  | succ stretches ih =>
    rcases walk_succ_eq_ok_iff.mp h with hdescend | ⟨base, target, rest, hdescend, hwalk⟩
    · exact stands_of_descend ht hhere hdescend
    · refine ih ?_ hwalk
      split
      · rfl
      · exact stands_of_descend ht hhere hdescend

theorem entry?_of_locate (ht : d.IsTree) {follow : Bool} {path : FilePath} {e : Entry}
    (h : d.locate follow path = .ok (.found q e)) : d.entry? q = some e :=
  entry?_of_walk ht (entry?_nil d) (walk_of_locate h).2.2

end KeyedSeries.Disk

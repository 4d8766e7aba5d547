import KeyedSeries.Proofs.Engine.BestEffort
import KeyedSeries.Proofs.Engine.History
import KeyedSeries.Proofs.Engine.Parts

/-!
# Removing a series by its own path

A path is read in two ways. An insertion takes every path for that of one series, and a removal
takes a path with a star in it for a glob. So a series is removed by its own path in any case, and
**a path without stars takes nothing but its own file**; a glob takes all files that it matches, and
the path `*` takes the unit with everything in it
(`KeyedSeries.Operation.entry?_of_delete_path`). A series with a star in its path may thus take
others with it when it goes (`KeyedSeries.Operation.others_lost_by_star`).

The disk is one that any run of insertions and removals has left.
-/

namespace KeyedSeries

open Disk FilePath

/-- A glob matches itself. -/
theorem Glob.accepts_self (glob : String) : Glob.accepts glob glob = true := by
  rw [accepts_iff]
  induction glob.toList with
  | nil => exact .nil
  | cons c p ih =>
    by_cases hc : c = star
    · subst hc
      exact .more (by decide) (.none ih)
    · exact .letter hc ih

namespace Engine

variable {e : Engine DirectoryStore} {s : EngineState DirectoryStore} {root base : Place}
  {unit : String} {paths : List String}

/-! ### Removing whole series -/

/-- **A removal of whole series** takes the files that its paths resolve to, and nothing else,
whatever comes of it. -/
theorem entry?_of_removal (h : e.Deletes s root) (hunit : isEntryName unit = true)
    (hpaths : ∀ path ∈ paths, IsResolvable path) (hclear : clearsUnit paths [] none = false)
    (q : Place) :
    let d := s.store.disk
    let d' := (outcome (e.delete paths [] none unit) s).2.store.disk
    let taken :=
      (∃ path ∈ paths, ResolvesTo d (root ++ [unit]) path q) ∧ (d.fileAt? q).isSome = true
    (taken → d'.entry? q = none) ∧ (¬taken → d'.entry? q = d.entry? q) := by
  intro d d' taken
  obtain ⟨chunkSize, hstore⟩ := h.store
  have hbase := h.isEntryName_unit hunit
  obtain ⟨places, s', hresolved, hrun, hs'⟩ :=
    outcome_delete_of_resolvable h hunit hpaths hclear fun _ => none
  obtain ⟨r, d₁, htreat, htreated⟩ := treated_of_onEach (fun _ => none) [] none hstore
    h.storeIsOpen h.isPlainTree
    (fun p (hp : p ∈ places) => by
      obtain ⟨path, hpath, hresolves⟩ := (hresolved.mem_iff p).mp hp
      obtain ⟨hnames, names, -, rfl⟩ := hresolves.names h.isPlainTree hbase (hpaths path hpath)
      exact ⟨by simp, hnames⟩)
    (hresolved.ascending.imp not_prefix_of_compare_eq_lt) (fun hne => absurd rfl hne)
  rw [htreat] at hs'
  have hd' : d' = d₁ := by
    show (outcome (e.delete paths [] none unit) s).2.store.disk = d₁
    rw [failingAt_none] at hrun
    rw [hrun, hs']
  rw [hd']
  refine ⟨fun ⟨hasked, hfile⟩ => ?_, fun hnot => htreated.kept q fun hq => .inr ?_⟩
  · obtain ⟨content, hcontent⟩ := Option.isSome_iff_exists.mp hfile
    refine htreated.removed rfl q ((hresolved.mem_iff q).mpr hasked) (fun failure hfails => ?_)
      ⟨content, hcontent, .inl ⟨rfl, rfl⟩⟩
    cases hfails with
    | told htold => cases htold
    | blocked _ hblocked =>
      -- The directories above the file stay, so it is reached as it was before.
      have habove : ∀ p, p <+: q → p ≠ q → d₁.entry? p = d.entry? p := fun p hp hne =>
        htreated.kept p fun _ => .inr fun ⟨other, hother, _⟩ => by
          rw [fileAt?_eq_some_iff, h.isPlainTree.dir_of_prefix hp hne
            (fileAt?_eq_some_iff.mp hcontent)] at hother
          cases hother
      exact not_blocked_of_some h.isPlainTree (fileAt?_eq_some_iff.mp hcontent) _
        ((Blocked.congr habove).mpr hblocked)
    | unreadable _ hreads => simp at hreads
    | longDraft _ _ _ _ hhas =>
      obtain ⟨k, -, hin⟩ := hhas
      cases hin
  · rintro ⟨content, hcontent, -⟩
    exact hnot ⟨(hresolved.mem_iff q).mp hq, by rw [hcontent]; rfl⟩

/-- **To clear a unit** takes everything in it, whatever comes of it. -/
theorem entry?_of_clearing (h : e.Deletes s root) (hunit : isEntryName unit = true) (q : Place) :
    (outcome (e.delete [String.singleton Glob.star] [] none unit) s).2.store.disk.entry? q =
      if root ++ [unit] <+: q then none else s.store.disk.entry? q := by
  obtain ⟨chunkSize, hstore⟩ := h.store
  have hbase := h.isEntryName_unit hunit
  have hroot : e.writableRoot = .ok (ofPlace root) := by
    rw [writableRoot, managedRoot, h.writable, h.managed]
    rfl
  have hdir := (Location.unitDir_eq_ok_iff h.isEntryName).mpr ⟨hunit, rfl⟩
  have herased : (outcome (e.delete [String.singleton Glob.star] [] none unit) s).2.store.disk =
      (DirectoryStore.erase s.store.disk (ofPlace (root ++ [unit]))).2 := by
    have hclear : clearsUnit [String.singleton Glob.star] [] none = true := rfl
    rw [delete, outcome_bind, outcome_requireOpen, h.isOpen, if_neg Bool.false_ne_true]
    simp only [outcome_bind, outcome_known, hroot, hdir, hclear, if_true, outcome_guarded,
      outcome_callFor, hstore]
    have herase : DirectoryStore.erase s.store.disk (ofPlace (root ++ [unit])) =
        ((DirectoryStore.erase s.store.disk (ofPlace (root ++ [unit]))).1,
          (DirectoryStore.erase s.store.disk (ofPlace (root ++ [unit]))).2) := rfl
    rw [DirectoryStore.outcome_remove chunkSize h.storeIsOpen herase]
  rw [herased, DirectoryStore.entry?_erase h.isPlainTree hbase]

/-! ### One path -/

/-- What a removal by one path takes. -/
inductive Takes (d : Disk) (base : Place) (path : String) (q : Place) : Prop
  /-- The path that is a star takes the unit. -/
  | all (hpath : path = String.singleton Glob.star) (hq : base <+: q)
  /-- Any other path takes the files that it resolves to. -/
  | file (hpath : path ≠ String.singleton Glob.star) (hq : ResolvesTo d base path q)
    (hfile : (d.fileAt? q).isSome = true)

/-- A path without stars takes its own file only. -/
theorem Takes.eq_own {d : Disk} {path : String} {q : Place} (h : Takes d base path q)
    (hplain : Glob.isGlob path = false) : q = base ++ Location.segments path := by
  cases h with
  | all hpath =>
    subst hpath
    cases hplain
  | file _ hq =>
    cases hq with
    | glob hglob =>
      rw [hplain] at hglob
      cases hglob
    | plain => rfl

/-- Every path takes its own file, if it has no empty segments. -/
theorem Takes.own {d : Disk} {path : String} (hne : Location.segments path ≠ [])
    (hsegments : Catalog.pathOf (Location.segments path) = path)
    (hfile : (d.fileAt? (base ++ Location.segments path)).isSome = true) :
    Takes d base path (base ++ Location.segments path) := by
  by_cases hstar : path = String.singleton Glob.star
  · exact .all hstar (List.prefix_append _ _)
  · refine .file hstar ?_ hfile
    by_cases hglob : Glob.isGlob path = true
    · exact .glob hglob (isSeriesName_segments hne) hfile (hsegments.symm ▸ Glob.accepts_self path)
    · exact .plain (by simpa using hglob)

/-! ### Engines that stay open -/

section Open

variable {σ α : Type}

/-- Work does not close the engine, whatever comes of it. -/
abbrev StaysOpen (work : Work σ α) : Prop :=
  KeepsOnly (fun s : EngineState σ => s.closed = false) work

/-- Nothing but closing closes an engine. -/
theorem passesOn_staysOpen : PassesOn (σ := σ) fun {_} work => StaysOpen work where
  pure _ := .pure trivial
  bind hx hf := hx.bind fun a _ => hf a
  known _ := keeps_known fun _ _ => trivial
  requireOpen := keeps_requireOpen
  callFor task action s hs := by
    rw [outcome_callFor]
    exact ⟨hs, fun _ _ => trivial⟩
  guarded g _ hwork s hs := hwork { s with locks := s.locks.acquire g } hs

end Open

end Engine

namespace DirectoryStore

/-- A store that is open stays so whatever it changes. -/
theorem staysOpen_change (f : Disk → Except Failure Unit × Disk) :
    KeepsOnly (fun s : DirectoryStore => s.closed = false) (change f) := by
  intro s hs
  rw [outcome_change, hs, if_neg Bool.false_ne_true]
  exact ⟨rfl, fun _ _ => trivial⟩

/-- So it does whatever it looks at. -/
theorem staysOpen_look {α : Type} (f : Disk → Except Failure α) :
    KeepsOnly (fun s : DirectoryStore => s.closed = false) (look f) := by
  intro s hs
  rw [outcome_look]
  exact ⟨hs, fun _ _ => trivial⟩

end DirectoryStore

namespace Operation

open Engine

variable {e : Engine DirectoryStore} {s : EngineState DirectoryStore} {chunkSize : Nat}
  {config : Config} {d₀ d₁ : Disk} {ops : List Operation}

/-! ### Runs of insertions and removals -/

/-- Nothing is closed. -/
def IsOpen (s : EngineState DirectoryStore) : Prop := s.closed = false ∧ s.store.closed = false

/-- An insertion or a removal closes nothing. -/
theorem isOpen_after (hstore : e.store = DirectoryStore.store chunkSize) (h : IsOpen s)
    {op : Operation} (hop : op.writesTo ≠ none) : IsOpen (op.after e s) := by
  cases op with
  | project | schema | bounds | close => exact absurd rfl hop
  | insert view unit =>
    refine ⟨(passesOn_staysOpen.insert e view unit s h.1).1, ?_⟩
    refine (keeps_insert (J := fun t : DirectoryStore => t.closed = false)
      (fun root files _ _ => ?_) s h.2).1
    rw [hstore]
    exact DirectoryStore.staysOpen_change (DirectoryStore.writeAll files _ _)
  | delete paths ranges tags unit =>
    refine ⟨(passesOn_staysOpen.delete e paths ranges tags unit s h.1).1, ?_⟩
    refine (keeps_delete (J := fun t : DirectoryStore => t.closed = false) (P := fun _ _ => True)
      (fun root base _ _ => ?_) (fun root base _ _ => ?_) (fun _ _ _ _ _ _ _ => trivial)
      (fun root base file _ _ _ => ⟨?_, fun range => ?_⟩) s h.2).1
    · rw [hstore]
      exact DirectoryStore.staysOpen_change (DirectoryStore.erase · base)
    · rw [hstore]
      exact (DirectoryStore.staysOpen_look
        fun d => .ok (DirectoryStore.listFiles d base true)).weaken fun _ _ _ _ => trivial
    · rw [hstore]
      exact DirectoryStore.staysOpen_change
        (DirectoryStore.forAll (DirectoryStore.removeOne · tags) · [file])
    · rw [hstore]
      exact DirectoryStore.staysOpen_change
        (DirectoryStore.forAll (DirectoryStore.trimOne · tags range) · [file])

/-- **After any run of insertions and removals** an engine can go on, and nothing is closed. -/
theorem stands_afterAll (hstore : e.store = DirectoryStore.store chunkSize)
    (hstands : Stands e (fun t => t) s) (hopen : IsOpen s)
    (hops : ∀ op ∈ ops, op.writesTo ≠ none) :
    Stands e (fun t => t) (afterAll e s ops) ∧ IsOpen (afterAll e s ops) := by
  have hmayFail : e.store.MayFail (fun t => t) chunkSize :=
    hstore ▸ DirectoryStore.mayFail_self chunkSize
  induction ops generalizing s with
  | nil => exact ⟨hstands, hopen⟩
  | cons op rest ih =>
    obtain ⟨hop, hrest⟩ := List.forall_mem_cons.mp hops
    exact ih (stands_after hmayFail hstands op).1 (isOpen_after hstore hopen hop) hrest

/-- An engine that was opened to write can write and remove after any such run. -/
theorem exists_deletes (hopened : e.OpenedBy config d₀ d₁) (htree₀ : d₀.IsPlainTree)
    (hwritable : config.readOnly = false) (hstore : e.store = DirectoryStore.store chunkSize) :
    ∃ root, d₁.entry? root = some .dir ∧ ∀ ops : List Operation, (∀ op ∈ ops, op.writesTo ≠ none) →
      e.Deletes (afterAll e (.start d₁) ops) root := by
  have hreadOnly : e.readOnly = false := hopened.readOnly.trans hwritable
  have hstart : Stands e (fun t => t) (.start d₁) := stands_of_openedBy hopened htree₀ rfl
  obtain ⟨root, hmanaged, hdir⟩ := hstart.managed hreadOnly
  refine ⟨root, hdir, fun ops hops => ?_⟩
  obtain ⟨hstands, hopen⟩ := stands_afterAll hstore hstart ⟨rfl, rfl⟩ hops
  exact ⟨⟨⟨chunkSize, hstore⟩, hmanaged,
    fun n hn => (hstart.isPlainTree.fits hdir n hn).isEntryName, hstands.isPlainTree⟩,
    hreadOnly, hopen.1, hopen.2⟩

/-- **A removal by one path**, after any run of insertions and removals. The path has segments that
can be the names of entries. It takes its own file, if no segment of it is empty. Of all that was
there it takes what a glob matches, if it has a star in it, and all of the unit, if it is one;
without a star it takes its own file and nothing else, so that every other entry is as it was. -/
theorem entry?_of_delete_path (hopened : e.OpenedBy config d₀ d₁) (htree₀ : d₀.IsPlainTree)
    (hwritable : config.readOnly = false) (hstore : e.store = DirectoryStore.store chunkSize)
    (hops : ∀ op ∈ ops, op.writesTo ≠ none) {unit path : String} (hunit : isEntryName unit = true)
    (hne : Location.segments path ≠ [])
    (hnames : ∀ n ∈ Location.segments path, isEntryName n = true) :
    let s := afterAll e (.start d₁) ops
    let d := s.store.disk
    let d' := (outcome (e.delete [path] [] none unit) s).2.store.disk
    ∃ root, e.roots.managed = some (ofPlace root) ∧ (∀ n ∈ root, isEntryName n = true) ∧
      (Catalog.pathOf (Location.segments path) = path →
        d'.fileAt? (root ++ [unit] ++ Location.segments path) = none) ∧
      (∀ q, Takes d (root ++ [unit]) path q → d'.entry? q = none) ∧
      (∀ q, ¬Takes d (root ++ [unit]) path q → d'.entry? q = d.entry? q) ∧
      (Glob.isGlob path = false → ∀ q, q ≠ root ++ [unit] ++ Location.segments path →
        d'.entry? q = d.entry? q) := by
  intro s d d'
  obtain ⟨root, -, hrun⟩ := exists_deletes hopened htree₀ hwritable hstore
  have hdeletes : e.Deletes s root := hrun ops hops
  -- What is taken is gone, and all else is as it was.
  have htaken : ∀ q, (Takes d (root ++ [unit]) path q → d'.entry? q = none) ∧
      (¬Takes d (root ++ [unit]) path q → d'.entry? q = d.entry? q) := by
    intro q
    by_cases hstar : path = String.singleton Glob.star
    · subst hstar
      have hcleared := entry?_of_clearing hdeletes hunit q
      refine ⟨fun h => ?_, fun h => ?_⟩
      · cases h with
        | all _ hq => exact hcleared.trans (if_pos hq)
        | file hpath => exact absurd rfl hpath
      · exact hcleared.trans (if_neg fun hq => h (.all rfl hq))
    · have hremoved := entry?_of_removal hdeletes hunit
        (List.forall_mem_singleton.mpr (.inr ⟨hne, hnames⟩)) (by simp [clearsUnit, hstar]) q
      refine ⟨fun h => hremoved.1 ?_, fun h => hremoved.2 ?_⟩
      · cases h with
        | all hpath => exact absurd hpath hstar
        | file _ hq hfile => exact ⟨⟨path, List.mem_singleton_self _, hq⟩, hfile⟩
      · rintro ⟨⟨_, hpath, hq⟩, hfile⟩
        exact h (.file hstar (List.mem_singleton.mp hpath ▸ hq) hfile)
  refine ⟨root, hdeletes.managed, hdeletes.isEntryName, fun hsegments => ?_, fun q => (htaken q).1,
    fun q => (htaken q).2, fun hplain q hq => (htaken q).2 fun h => hq (h.eq_own hplain)⟩
  by_cases hfile : (d.fileAt? (root ++ [unit] ++ Location.segments path)).isSome = true
  · rw [fileAt?, (htaken _).1 (.own hne hsegments hfile)]
  · by_cases htakes : Takes d (root ++ [unit]) path (root ++ [unit] ++ Location.segments path)
    · rw [fileAt?, (htaken _).1 htakes]
    · rw [fileAt?, (htaken _).2 htakes, ← fileAt?]
      simpa using hfile

/-- A view of four columns with a cell each; two of their paths have stars. -/
def starred : DataView where
  orientation := .columns
  columns := [⟨"*", .long, .empty⟩, ⟨"a*", .long, .empty⟩, ⟨"ab", .long, .empty⟩,
    ⟨"b", .long, .empty⟩]
  keys := [1]
  masks := [[true], [true], [true], [true]]
  values := [[.long 1], [.long 2], [.long 3], [.long 4]]
  consistent := by decide

/-- A run that stores the four columns in a unit, and in another one, from which it removes a
series. -/
def starredRun : List Operation :=
  [.insert starred "u", .insert starred "v", .delete ["b"] [] none "v"]

theorem openedBy_ofDirectory :
    ofDirectory.OpenedBy { dir := some ⟨"/d"⟩ } emptyDirectory emptyDirectory :=
  ⟨by decide +kernel, rfl⟩

theorem eq_of_managed_ofDirectory {root : Place} (hroot : ∀ n ∈ root, isEntryName n = true)
    (hmanaged : ofDirectory.roots.managed = some (ofPlace root)) : root = ["d"] :=
  ofPlace_inj hroot (by decide)
    ((Option.some.inj hmanaged).symm.trans (by decide : _ = ofPlace ["d"]))

/-- The series `ab` goes by its path, and everything else stays, the series with stars in their
paths and the other unit included. -/
theorem entry?_of_delete_path_starredRun :
    let s := afterAll ofDirectory (.start emptyDirectory) starredRun
    let d := s.store.disk
    let d' := (outcome (ofDirectory.delete ["ab"] [] none "u") s).2.store.disk
    (d.fileAt? ["d", "u", "ab"]).isSome = true ∧ (d.fileAt? ["d", "u", "a*"]).isSome = true ∧
      d'.fileAt? ["d", "u", "ab"] = none ∧
      ∀ q, q ≠ ["d", "u", "ab"] → d'.entry? q = d.entry? q := by
  have htree : emptyDirectory.IsPlainTree := worksOn_ofDirectory.isPlainTree
  have hsegments : Location.segments "ab" = ["ab"] := by decide
  have hremoved := entry?_of_delete_path
    openedBy_ofDirectory htree rfl rfl (by decide : ∀ op ∈ starredRun, op.writesTo ≠ none)
    (by decide : isEntryName "u" = true) (by simp [hsegments] : Location.segments "ab" ≠ [])
    (by rw [hsegments]; decide)
  rw [hsegments] at hremoved
  have hstored : ((afterAll ofDirectory (.start emptyDirectory) starredRun).store.disk.fileAt?
      ["d", "u", "ab"]).isSome = true ∧ ((afterAll ofDirectory (.start emptyDirectory)
        starredRun).store.disk.fileAt? ["d", "u", "a*"]).isSome = true := by
    decide +kernel
  revert hremoved hstored
  generalize afterAll ofDirectory (.start emptyDirectory) starredRun = s
  generalize (outcome (ofDirectory.delete ["ab"] [] none "u") s).2.store.disk = d'
  rintro ⟨root, hmanaged, hnames, hown, -, -, hothers⟩ ⟨hab, hstar⟩
  obtain rfl := eq_of_managed_ofDirectory hnames hmanaged
  exact ⟨hab, hstar, hown (by decide), hothers (by decide)⟩

/-- **A series with a star in its path takes others with it.** All four series are stored; to remove
the one whose path is `a*` takes `ab`, too, and to remove the one whose path is `*` takes the whole
unit. -/
theorem others_lost_by_star :
    let s := afterAll ofDirectory (.start emptyDirectory) starredRun
    let byGlob := (outcome (ofDirectory.delete ["a*"] [] none "u") s).2.store.disk
    let byStar := (outcome (ofDirectory.delete ["*"] [] none "u") s).2.store.disk
    (outcome (ofDirectory.insert starred "u") (.start emptyDirectory)).1 = .ok () ∧
      (∀ path ∈ ["*", "a*", "ab", "b"], (s.store.disk.docAt? ["d", "u", path]).isSome = true) ∧
      byGlob.fileAt? ["d", "u", "ab"] = none ∧ (byGlob.fileAt? ["d", "u", "b"]).isSome = true ∧
      byStar.fileAt? ["d", "u", "ab"] = none ∧ byStar.fileAt? ["d", "u", "b"] = none ∧
      byStar.entry? ["d", "u"] = none := by
  decide +kernel

end Operation

end KeyedSeries

import KeyedSeries.Proofs.Engine.Confinement

/-!
# The files of the history

An engine never writes to its history, but it does not keep the history apart from what it
writes to either: all that is asked of the two roots is that they are not the same path.
Over any run of operations, whatever comes of them, **a file of the history stays as it was
unless a unit that is written to has its directory around it**
(`KeyedSeries.Operation.fileAt?_afterAll_of_openedBy`). So a history outside of the managed
root is safe, and so is that of an engine which may not write; but a history below the
managed root lies in a unit, and goes when the unit is cleared
(`KeyedSeries.Operation.clearing_removes_history`).
-/

namespace KeyedSeries.Operation

open Disk FilePath

variable {σ : Type} {e : Engine σ} {s : EngineState σ} {view : σ → DirectoryStore}
  {chunkSize : Nat} {q : Place}

/-- What operations leave, one after the other and whatever comes of each of them. -/
def afterAll (e : Engine σ) (s : EngineState σ) (ops : List Operation) : EngineState σ :=
  ops.foldl (after e) s

/-- What an engine goes on from: a tree without links, on which the managed root is a
directory if the engine may write. -/
structure Stands (e : Engine σ) (view : σ → DirectoryStore) (s : EngineState σ) : Prop where
  /-- There are no links. -/
  isPlainTree : (view s.store).disk.IsPlainTree
  /-- The managed root is there. -/
  managed : e.readOnly = false → ∃ root, e.roots.managed = some (ofPlace root) ∧
    Disk.entry? (view s.store).disk root = some .dir

/-- The engine may write, and a place lies at or below the directory of the unit that an
operation writes to. -/
def Reaches (e : Engine σ) (op : Operation) (q : Place) : Prop :=
  e.readOnly = false ∧ ∃ unit root, op.writesTo = some unit ∧ (∀ n ∈ root, isEntryName n = true) ∧
    e.roots.managed = some (ofPlace root) ∧ root ++ [unit] <+: q

/-! ### One operation -/

/-- **One operation** leaves every place as it was that it does not reach, and an engine
that can go on. -/
theorem stands_after (hstore : e.store.MayFail view chunkSize) (h : Stands e view s)
    (op : Operation) :
    Stands e view (op.after e s) ∧
      ∀ q, ¬op.Reaches e q →
        Disk.entry? (view (op.after e s).store).disk q = Disk.entry? (view s.store).disk q := by
  have hsame : (view (op.after e s).store).disk = (view s.store).disk →
      Stands e view (op.after e s) ∧ ∀ q, ¬op.Reaches e q →
        Disk.entry? (view (op.after e s).store).disk q = Disk.entry? (view s.store).disk q := by
    intro hsame
    exact ⟨⟨hsame ▸ h.isPlainTree, hsame ▸ h.managed⟩, fun q _ => by rw [hsame]⟩
  cases hop : op.writesTo with
  | none => exact hsame (disk_after_of_read hstore hop)
  | some unit =>
    cases hreadOnly : e.readOnly with
    | true => exact hsame (disk_after_of_readOnly hstore hreadOnly)
    | false =>
      obtain ⟨root, hmanaged, hdir⟩ := h.managed hreadOnly
      have hconfined := confined_after hstore hmanaged h.isPlainTree hdir hop
      exact ⟨⟨hconfined.isPlainTree, fun _ => ⟨root, hmanaged, hconfined.dir_around hdir⟩⟩,
        fun q hq => hconfined.frame q fun hpre => hq ⟨hreadOnly, unit, root, hop,
          fun n hn => (h.isPlainTree.fits hdir n hn).isEntryName, hmanaged, hpre⟩⟩

/-! ### A run of operations -/

/-- **A run of operations** leaves every place as it was that none of them reaches. -/
theorem entry?_afterAll (hstore : e.store.MayFail view chunkSize) (h : Stands e view s)
    {ops : List Operation} (hops : ∀ op ∈ ops, ¬op.Reaches e q) :
    Disk.entry? (view (afterAll e s ops).store).disk q = Disk.entry? (view s.store).disk q := by
  induction ops generalizing s with
  | nil => rfl
  | cons op rest ih =>
    obtain ⟨hop, hrest⟩ := List.forall_mem_cons.mp hops
    obtain ⟨hstands, hframe⟩ := stands_after hstore h op
    show Disk.entry? (view (afterAll e (op.after e s) rest).store).disk q = _
    rw [ih hstands hrest, hframe q hop]

/-- An engine can go on once it was opened. -/
theorem stands_of_openedBy {config : Config} {d₀ d₁ : Disk} (hopened : e.OpenedBy config d₀ d₁)
    (htree₀ : d₀.IsPlainTree) (hdisk : (view s.store).disk = d₁) : Stands e view s := by
  refine ⟨hdisk ▸ (hopened.grown htree₀).isPlainTree htree₀, fun hwritable => ?_⟩
  obtain ⟨root, hmanaged, -, hdir⟩ := hopened.managed htree₀ hwritable
  exact ⟨root, hmanaged, hdisk ▸ hdir⟩

/-- **The files of the history** stay as they were over any run of operations, unless they
lie in a unit that is written to. The engine was opened on a tree without links, and its
store may fail at any call. A file that lay below the history root then is still there with
the same content, if no operation reaches it: the engine may not write, or the file is not
below the directory that the unit of an operation has in the managed root. -/
theorem fileAt?_afterAll_of_openedBy {config : Config} {d₀ d₁ : Disk}
    (hopened : e.OpenedBy config d₀ d₁) (htree₀ : d₀.IsPlainTree)
    (hstore : e.store.MayFail view chunkSize) (hdisk : (view s.store).disk = d₁)
    (ops : List Operation) :
    ∀ path history, e.roots.history = some path → d₁.dirPlace? path = some history →
      ∀ names content, d₁.fileAt? (history ++ names) = some content →
        (∀ op ∈ ops, ¬op.Reaches e (history ++ names)) →
          (view (afterAll e s ops).store).disk.fileAt? (history ++ names) = some content := by
  intro path history _ _ names content hfile hops
  rw [fileAt?_eq_some_iff] at hfile ⊢
  rw [entry?_afterAll hstore (stands_of_openedBy hopened htree₀ hdisk) hops, hdisk, hfile]

/-! ### A history in a unit -/

/-- A disk with a directory `/m` and a history in a directory of it. -/
def nestedRoots : Disk :=
  ⟨.ofList [(["m"], .dir), (["m", "u"], .dir), (["m", "u", "h"], .file [1, 2])]⟩

/-- A configuration that takes `/m` for the managed root and `/m/u` for the history root. -/
def nestedConfig : Config :=
  { dir := some ⟨"/m"⟩, historyDir := some ⟨"/m/u"⟩, hasHistory := true }

/-- The engine that is opened by it. -/
def nestedEngine : Engine DirectoryStore :=
  ⟨⟨some ⟨"/m"⟩, some ⟨"/m/u"⟩⟩, false, DirectoryStore.store 1048576⟩

theorem openedBy_nestedConfig : nestedEngine.OpenedBy nestedConfig nestedRoots nestedRoots :=
  ⟨by decide +kernel, rfl⟩

/-- What is written to another unit does not reach the history, and so its file stays. -/
theorem fileAt?_afterAll_otherUnit :
    let s : EngineState DirectoryStore := .start nestedRoots
    let ops : List Operation :=
      [.insert (Engine.oneDouble Engine.half) "v", .delete ["*"] [] none "v",
        .project ["h"] none none "u" true, .close]
    nestedEngine.OpenedBy nestedConfig nestedRoots nestedRoots ∧ nestedRoots.IsPlainTree ∧
      (∀ op ∈ ops, ¬op.Reaches nestedEngine ["m", "u", "h"]) ∧
      (afterAll nestedEngine s ops).store.disk.fileAt? ["m", "u", "h"] = some [1, 2] := by
  intro s ops
  have htree : nestedRoots.IsPlainTree := by decide +kernel
  have hops : ∀ op ∈ ops, ¬op.Reaches nestedEngine ["m", "u", "h"] := by
    rintro op hop ⟨-, unit, root, hunit, hnames, hmanaged, hpre⟩
    obtain rfl : root = ["m"] := ofPlace_inj hnames (by decide)
      ((Option.some.inj hmanaged).symm.trans (by decide : _ = ofPlace ["m"]))
    obtain rfl : unit = "v" := by
      simp only [ops, List.mem_cons, List.not_mem_nil, or_false] at hop
      rcases hop with rfl | rfl | rfl | rfl <;> cases hunit <;> rfl
    revert hpre
    decide
  exact ⟨openedBy_nestedConfig, htree, hops,
    fileAt?_afterAll_of_openedBy openedBy_nestedConfig htree (DirectoryStore.mayFail_self 1048576)
      (s := s) rfl ops ⟨"/m/u"⟩ ["m", "u"] rfl (by decide +kernel) ["h"] [1, 2] (by decide +kernel)
      hops⟩

/-- **Clearing the unit takes the history away**: the configuration is accepted, the file lies
below the history root, and one removal leaves neither the file nor the root. -/
theorem clearing_removes_history :
    let s : EngineState DirectoryStore := .start nestedRoots
    let op : Operation := .delete ["*"] [] none "u"
    nestedConfig.hasHistory = true ∧
      nestedConfig.resolve nestedRoots = (.ok nestedEngine.roots, nestedRoots) ∧
      nestedRoots.IsPlainTree ∧ nestedRoots.dirPlace? ⟨"/m/u"⟩ = some ["m", "u"] ∧
      nestedRoots.fileAt? ["m", "u", "h"] = some [1, 2] ∧
      (op.after nestedEngine s).store.disk.fileAt? ["m", "u", "h"] = none ∧
      Disk.entry? (op.after nestedEngine s).store.disk ["m", "u"] = none := by
  decide +kernel

end KeyedSeries.Operation

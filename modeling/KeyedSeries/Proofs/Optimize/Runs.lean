import Mathlib.Tactic.ByContra
import KeyedSeries.Optimize.SelectIntoJoin
import KeyedSeries.Proofs.Plan.Traversal

/-!
# Runs of selections above a join

A **run** is a chain of selections, each right above the next one, with a join at
its lower end that a selection can go into: an inner join or a cross join. How
far a node is above its join is `KeyedSeries.PlanNode.runLength`, and
`KeyedSeries.PlanNode.normal` is the tree in which every run has become one inner
join – a recursion over the tree that carries along the selections it has
passed on its way down a run.

Leaving selections to joins goes from the root down, and so of every run only
the *lowest* selection can go into its join at a time. What one such sweep over
the tree does is `KeyedSeries.PlanNode.sweep`. Everything about it comes in
two halves: it makes the tree smaller by the selections it takes away
(`KeyedSeries.PlanNode.countP_sweep`) and every run shorter by one
(`KeyedSeries.PlanNode.longestRun_sweep`), and it does not change what the tree
will be once all runs are gone (`KeyedSeries.PlanNode.normal_sweep`).
-/

namespace KeyedSeries

/-- What a selection asks of rows and of series. -/
structure Selection where
  /-- The filter on rows. -/
  filter : Filter
  /-- The filter on tags. -/
  tags : Option TagFilter

/-- The condition of a join that further selections went into, the first of the
list first. -/
def conditionWith (condition : Option Filter) (above : List Selection) : Option Filter :=
  above.foldl (fun c s => Filter.combine c (some s.filter)) condition

namespace Operator

/-- Whether a selection can go into the operator. -/
def takesSelections : Operator → Bool
  | crossJoin .. | innerJoin .. => true
  | _ => false

/-- A join that the selections right above it went into, the lowest one first. The
tag filter of the topmost selection is left; a cross join that took a single
selection has none. -/
def absorbing (above : List Selection) (op : Operator) : Operator :=
  match above.getLast? with
  | none => op
  | some top =>
    match op with
    | crossJoin left right =>
      joinOn left right (conditionWith none above) (if above.length = 1 then none else top.tags)
    | innerJoin left right condition _ _ =>
      joinOn left right (conditionWith condition above) top.tags
    | op => op

@[simp] theorem absorbing_nil (op : Operator) : op.absorbing [] = op := rfl

/-- Selections may go into a join one after the other. -/
theorem absorbing_cons {op : Operator} (h : op.takesSelections) (s : Selection)
    (above : List Selection) : op.absorbing (s :: above) = (op.absorbing [s]).absorbing above := by
  cases above with
  | nil => rfl
  | cons s' rest =>
    cases op with
    | crossJoin left right => simp [absorbing, joinOn, conditionWith, List.getLast?_cons]
    | innerJoin left right condition tags algorithm =>
      simp [absorbing, joinOn, conditionWith, List.getLast?_cons]
    | _ => simp [takesSelections] at h

/-- A join that a selection went into is an inner join. -/
theorem kind_absorbing_singleton {op : Operator} (h : op.takesSelections) (s : Selection) :
    (op.absorbing [s]).kind = .innerJoin := by
  cases op with
  | crossJoin left right => rfl
  | innerJoin left right condition tags algorithm => rfl
  | _ => simp [takesSelections] at h

theorem takesSelections_of_kind {op : Operator} (h : op.kind = .innerJoin) :
    op.takesSelections = true := by
  cases op <;> simp [kind, takesSelections] at *

theorem arity_of_takesSelections {op : Operator} (h : op.takesSelections = true) :
    op.kind.arity = 2 := by
  cases op <;> simp [takesSelections] at h <;> rfl

end Operator

namespace PlanNode

/-! ### Runs -/

/-- How many selections there are from the node down to a join that selections can
go into; `none` if they lead to no such join. -/
def runLength? : PlanNode → Option Nat
  | ⟨_, .select _ _, [n]⟩ => (runLength? n).map (· + 1)
  | n => if n.op.takesSelections then some 0 else none

/-- How many selections there are from the node down to its join, none if there is
no such join. -/
def runLength (n : PlanNode) : Nat := n.runLength?.getD 0

/-- Whether the node is a selection in a run. -/
def isInRun (n : PlanNode) : Bool := 0 < n.runLength

/-- How many selections the longest run of a tree has. -/
def longestRun (n : PlanNode) : Nat := (n.preorder.map runLength).foldr max 0

/-- How many selections there are in the runs of a tree. -/
def selectionsInRuns (n : PlanNode) : Nat := n.preorder.countP isInRun

/-- The join right below a selection, if the selection can go into it. -/
def joinBelow? : PlanNode → Option PlanNode
  | ⟨_, .select _ _, [j]⟩ => if j.op.takesSelections then some j else none
  | _ => none

/-- Whether the node is a selection right above a cross join. -/
def isAboveCross (n : PlanNode) : Bool := n.joinBelow?.any (·.kind == .crossJoin)

/-- How many runs of a tree stand on a cross join. -/
def crossRuns (n : PlanNode) : Nat := n.preorder.countP isAboveCross

mutual

/-- The tree with every run and its join replaced by one inner join. `above` are
the selections that were passed on the way down a run, the lowest one first; a
cross join under a run gets the next new id. -/
def normal (next : NodeId) (above : List Selection) : PlanNode → PlanNode
  | ⟨id, .select filter tags, [n]⟩ =>
    if n.runLength?.isSome then normal next (⟨filter, tags⟩ :: above) n
    else ⟨id, .select filter tags, [normal next [] n]⟩
  | ⟨id, op, inputs⟩ =>
    if op.kind = .crossJoin ∧ above ≠ [] then
      ⟨next, op.absorbing above, normals (next + 1) inputs⟩
    else ⟨id, op.absorbing above, normals next inputs⟩

/-- The trees of a list with every run replaced; new ids go from left to right. -/
def normals (next : NodeId) : List PlanNode → List PlanNode
  | [] => []
  | n :: rest => normal next [] n :: normals (next.plus n.crossRuns) rest

end

mutual

/-- The tree in which every lowest selection of a run went into its join. -/
def sweep (next : NodeId) : PlanNode → PlanNode
  | ⟨_, .select filter tags, [⟨_, .crossJoin left right, inputs⟩]⟩ =>
    ⟨next, (Operator.crossJoin left right).absorbing [⟨filter, tags⟩], sweeps (next + 1) inputs⟩
  | ⟨_, .select filter tags, [⟨id, .innerJoin left right condition old algorithm, inputs⟩]⟩ =>
    ⟨id, (Operator.innerJoin left right condition old algorithm).absorbing [⟨filter, tags⟩],
      sweeps next inputs⟩
  | ⟨id, op, inputs⟩ => ⟨id, op, sweeps next inputs⟩

/-- The trees of a list after a sweep; new ids go from left to right. -/
def sweeps (next : NodeId) : List PlanNode → List PlanNode
  | [] => []
  | n :: rest => sweep next n :: sweeps (next.plus n.crossRuns) rest

end

/-! ### The shapes of a node -/

/-- A selection right above a join that takes it. -/
theorem joinBelow?_eq_some {n j : PlanNode} : n.joinBelow? = some j ↔
    ∃ id filter tags, n = ⟨id, .select filter tags, [j]⟩ ∧ j.op.takesSelections = true := by
  constructor
  · intro h
    unfold joinBelow? at h
    split at h
    · next id filter tags i =>
      by_cases ht : i.op.takesSelections
      · rw [if_pos ht] at h
        cases h
        exact ⟨id, filter, tags, rfl, ht⟩
      · rw [if_neg ht] at h
        cases h
    · cases h
  · rintro ⟨id, filter, tags, rfl, ht⟩
    simp [joinBelow?, ht]

/-- A node is a selection above a join that takes it, or a selection above one
other tree, or no selection above one tree. -/
theorem shapes (n : PlanNode) :
    (∃ id filter tags j, n = ⟨id, .select filter tags, [j]⟩ ∧ j.op.takesSelections = true) ∨
      (∃ id filter tags m, n = ⟨id, .select filter tags, [m]⟩ ∧ m.op.takesSelections = false) ∨
      ∀ id filter tags m, n ≠ ⟨id, .select filter tags, [m]⟩ := by
  by_cases h : ∃ id filter tags m, n = ⟨id, .select filter tags, [m]⟩
  · obtain ⟨id, filter, tags, m, rfl⟩ := h
    cases hm : m.op.takesSelections with
    | true => exact .inl ⟨id, filter, tags, m, rfl, hm⟩
    | false => exact .inr (.inl ⟨id, filter, tags, m, rfl, hm⟩)
  · exact .inr (.inr fun id filter tags m hn => h ⟨id, filter, tags, m, hn⟩)

@[simp] theorem runLength?_select (id : NodeId) (filter : Filter) (tags : Option TagFilter)
    (n : PlanNode) :
    runLength? ⟨id, .select filter tags, [n]⟩ = n.runLength?.map (· + 1) := by
  rw [runLength?]

theorem runLength?_of_ne {n : PlanNode}
    (h : ∀ id filter tags m, n ≠ ⟨id, .select filter tags, [m]⟩) :
    n.runLength? = if n.op.takesSelections then some 0 else none := by
  rw [runLength?]
  intro id filter tags m hn
  exact h id filter tags m hn

/-- A join that takes selections is the lower end of a run. -/
theorem runLength?_of_takes {n : PlanNode} (h : n.op.takesSelections = true) :
    n.runLength? = some 0 := by
  rw [runLength?_of_ne, if_pos h]
  rintro id filter tags m rfl
  simp [Operator.takesSelections] at h

theorem sweep_select_of_takes (next : NodeId) (id : NodeId) (filter : Filter)
    (tags : Option TagFilter) {j : PlanNode} (h : j.op.takesSelections = true) :
    sweep next ⟨id, .select filter tags, [j]⟩ =
      ⟨if j.kind = .crossJoin then next else j.id, j.op.absorbing [⟨filter, tags⟩],
        sweeps (if j.kind = .crossJoin then next + 1 else next) j.inputs⟩ := by
  obtain ⟨jid, op, inputs⟩ := j
  cases op with
  | crossJoin left right => simp [sweep, kind, Operator.kind]
  | innerJoin left right condition old algorithm => simp [sweep, kind, Operator.kind]
  | _ => simp [Operator.takesSelections] at h

theorem sweep_of_joinBelow?_eq_none (next : NodeId) {n : PlanNode} (h : n.joinBelow? = none) :
    sweep next n = ⟨n.id, n.op, sweeps next n.inputs⟩ := by
  obtain ⟨id, op, inputs⟩ := n
  rw [sweep]
  · rintro filter tags jid left right is rfl rfl
    simp [joinBelow?, Operator.takesSelections] at h
  · rintro filter tags jid left right condition old algorithm is rfl rfl
    simp [joinBelow?, Operator.takesSelections] at h

/-- **Induction along a sweep**: a node is kept and the sweep goes on with its inputs,
or it is a selection that a join absorbs, and the sweep goes on with the inputs of
the join. -/
theorem inductionOnSweep {motive : PlanNode → Prop}
    (kept : ∀ n, n.joinBelow? = none → (∀ m ∈ n.inputs, motive m) → motive n)
    (absorbed : ∀ id filter tags (j : PlanNode), j.op.takesSelections = true →
      (∀ m ∈ j.inputs, motive m) → motive ⟨id, .select filter tags, [j]⟩) (n : PlanNode) :
    motive n := by
  induction n using inductionBelow with
  | node n ih =>
    cases hj : n.joinBelow? with
    | none => exact kept n hj fun m hm => ih m (mem_preorders_of_mem hm)
    | some j =>
      obtain ⟨id, filter, tags, rfl, ht⟩ := joinBelow?_eq_some.mp hj
      exact absorbed id filter tags j ht fun m hm => ih m (mem_preorders_of_mem_inputs hm)

@[simp] theorem sweeps_singleton (next : NodeId) (n : PlanNode) :
    sweeps next [n] = [sweep next n] := by simp [sweeps]

@[simp] theorem length_sweeps (next : NodeId) (l : List PlanNode) :
    (sweeps next l).length = l.length := by
  induction l generalizing next with
  | nil => simp [sweeps]
  | cons n rest ih => simp [sweeps, ih]

theorem mem_sweeps {next : NodeId} {l : List PlanNode} {m : PlanNode} (h : m ∈ sweeps next l) :
    ∃ n ∈ l, ∃ next', m = sweep next' n := by
  induction l generalizing next with
  | nil => simp [sweeps] at h
  | cons n rest ih =>
    rw [sweeps] at h
    rcases List.mem_cons.mp h with rfl | h
    · exact ⟨n, List.mem_cons_self, next, rfl⟩
    · obtain ⟨m', hm', hnext⟩ := ih h
      exact ⟨m', List.mem_cons_of_mem _ hm', hnext⟩

theorem joinBelow?_of_ne {n : PlanNode}
    (h : ∀ id filter tags m, n ≠ ⟨id, .select filter tags, [m]⟩) :
    n.joinBelow? = none := by
  rw [joinBelow?]
  intro id filter tags m hn
  exact h id filter tags m hn

/-- A join that takes selections is none itself. -/
theorem joinBelow?_of_takes {j : PlanNode} (h : j.op.takesSelections = true) :
    j.joinBelow? = none := by
  refine joinBelow?_of_ne ?_
  rintro id filter tags m rfl
  simp [Operator.takesSelections] at h

/-- The operator and the number of inputs of a swept tree are those it had, unless
its root went into a join. -/
theorem eq_select_of_sweep (next : NodeId) {n m : PlanNode} {id : NodeId} {filter : Filter}
    {tags : Option TagFilter} (h : sweep next n = ⟨id, .select filter tags, [m]⟩) :
    ∃ i, m = sweep next i ∧ n = ⟨id, .select filter tags, [i]⟩ := by
  cases hj : n.joinBelow? with
  | some j =>
    obtain ⟨_, filter', tags', rfl, ht⟩ := joinBelow?_eq_some.mp hj
    rw [sweep_select_of_takes next _ _ _ ht] at h
    have hk := Operator.kind_absorbing_singleton ht ⟨filter', tags'⟩
    injection h with _ hop _
    rw [hop] at hk
    cases hk
  | none =>
    rw [sweep_of_joinBelow?_eq_none next hj] at h
    obtain ⟨nid, op, inputs⟩ := n
    injection h with hid hop hinputs
    obtain ⟨i, hi⟩ : ∃ i, inputs = [i] := by
      have := congrArg List.length hinputs
      simpa [List.length_eq_one_iff] using this
    subst hi hid hop
    refine ⟨i, ?_, rfl⟩
    simpa using hinputs.symm

/-- A sweep makes no cross joins. -/
theorem kind_of_kind_sweep_eq_crossJoin {next : NodeId} {n : PlanNode}
    (h : (sweep next n).kind = .crossJoin) : n.kind = .crossJoin := by
  cases hj : n.joinBelow? with
  | some j =>
    obtain ⟨id, filter, tags, rfl, ht⟩ := joinBelow?_eq_some.mp hj
    rw [sweep_select_of_takes next id filter tags ht, kind,
      Operator.kind_absorbing_singleton ht] at h
    cases h
  | none =>
    rw [sweep_of_joinBelow?_eq_none next hj] at h
    exact h

/-! ### Runs get shorter -/

theorem takes_of_runLength?_eq_zero {n : PlanNode} (h : n.runLength? = some 0) :
    n.op.takesSelections = true := by
  rcases shapes n with ⟨id, filter, tags, j, rfl, -⟩ | ⟨id, filter, tags, m, rfl, -⟩ | hn
  · simp at h
  · simp at h
  · rw [runLength?_of_ne hn] at h
    by_contra ht
    rw [if_neg ht] at h
    cases h

/-- A sweep takes one selection away from every run. -/
theorem runLength?_sweep (next : NodeId) (n : PlanNode) :
    (sweep next n).runLength? = n.runLength?.map (· - 1) := by
  induction n using inductionBelow generalizing next with
  | node n ih =>
    rcases shapes n with ⟨id, filter, tags, j, rfl, hj⟩ | ⟨id, filter, tags, m, rfl, hm⟩ | hn
    · rw [sweep_select_of_takes next id filter tags hj, runLength?_select, runLength?_of_takes hj]
      exact runLength?_of_takes (Operator.takesSelections_of_kind
        (Operator.kind_absorbing_singleton hj _))
    · rw [sweep_of_joinBelow?_eq_none next (by simp [joinBelow?, hm])]
      simp only [sweeps_singleton, runLength?_select,
        ih m (mem_preorders_of_mem List.mem_cons_self) next]
      cases hr : m.runLength? with
      | none => rfl
      | some k =>
        have hk : k ≠ 0 := fun h0 => by
          rw [takes_of_runLength?_eq_zero (h0 ▸ hr)] at hm
          cases hm
        simp only [Option.map_some, Option.some.injEq]
        omega
    · have hs := sweep_of_joinBelow?_eq_none next (joinBelow?_of_ne hn)
      rw [runLength?_of_ne hn, runLength?_of_ne, hs]
      · split <;> rfl
      · intro id filter tags m h
        obtain ⟨i, -, rfl⟩ := eq_select_of_sweep next h
        exact hn id filter tags i rfl

theorem runLength_sweep (next : NodeId) (n : PlanNode) :
    (sweep next n).runLength = n.runLength - 1 := by
  rw [runLength, runLength, runLength?_sweep]
  cases n.runLength? <;> rfl

/-- How many selections the longest run of the trees of a list has. -/
def longestRuns (l : List PlanNode) : Nat := ((preorders l).map runLength).foldr max 0

theorem foldr_max_append (l l' : List Nat) :
    (l ++ l').foldr max 0 = max (l.foldr max 0) (l'.foldr max 0) := by
  induction l with
  | nil => simp
  | cons a l ih =>
    simp only [List.cons_append, List.foldr_cons, ih]
    omega

@[simp] theorem longestRuns_nil : longestRuns [] = 0 := by simp [longestRuns]

@[simp] theorem longestRuns_cons (n : PlanNode) (rest : List PlanNode) :
    longestRuns (n :: rest) = max n.longestRun (longestRuns rest) := by
  rw [longestRuns, preorders_cons, List.map_append, foldr_max_append]
  rfl

theorem longestRun_eq (n : PlanNode) : n.longestRun = max n.runLength (longestRuns n.inputs) := by
  rw [longestRun, preorder_eq]
  rfl

theorem longestRuns_sweeps {l : List PlanNode} (next : NodeId)
    (h : ∀ n ∈ l, ∀ next, (sweep next n).longestRun = n.longestRun - 1) :
    longestRuns (sweeps next l) = longestRuns l - 1 := by
  induction l generalizing next with
  | nil => simp [sweeps]
  | cons n rest ih =>
    rw [sweeps, longestRuns_cons, longestRuns_cons, h n List.mem_cons_self,
      ih _ fun m hm => h m (List.mem_cons_of_mem _ hm)]
    omega

/-- **A sweep makes the longest run shorter by one.** -/
theorem longestRun_sweep (next : NodeId) (n : PlanNode) :
    (sweep next n).longestRun = n.longestRun - 1 := by
  induction n using inductionOnSweep generalizing next with
  | kept n hj ih =>
    rw [longestRun_eq n, longestRun_eq (sweep next n), runLength_sweep,
      sweep_of_joinBelow?_eq_none next hj, longestRuns_sweeps next ih]
    omega
  | absorbed id filter tags j ht ih =>
    -- The join stands in the place of the selection, and has no selection above it any more.
    rw [longestRun_eq ⟨id, _, _⟩, longestRun_eq (sweep next _), runLength_sweep,
      sweep_select_of_takes next id filter tags ht, longestRuns_sweeps _ ih,
      longestRuns_cons, longestRuns_nil, longestRun_eq j, runLength, runLength,
      runLength?_select, runLength?_of_takes ht]
    simp only [Option.map_some, Option.getD_some]
    omega

/-- How many selections of a tree are the lowest ones of their runs. -/
def absorptions (n : PlanNode) : Nat := n.preorder.countP (·.joinBelow?.isSome)

theorem absorptions_of_none {n : PlanNode} (h : n.joinBelow? = none) :
    n.absorptions = (preorders n.inputs).countP (·.joinBelow?.isSome) := by
  rw [absorptions, preorder_eq, List.countP_cons, h]
  rfl

/-- The lowest selection of a run counts, and then those below its join. -/
theorem absorptions_select_of_takes (id : NodeId) (filter : Filter) (tags : Option TagFilter)
    {j : PlanNode} (h : j.op.takesSelections = true) :
    absorptions ⟨id, .select filter tags, [j]⟩ =
      (preorders j.inputs).countP (·.joinBelow?.isSome) + 1 := by
  have hj : joinBelow? ⟨id, .select filter tags, [j]⟩ = some j :=
    joinBelow?_eq_some.mpr ⟨id, filter, tags, rfl, h⟩
  rw [absorptions, preorder_eq, List.countP_cons, preorders_cons, preorders_nil, List.append_nil,
    preorder_eq j, List.countP_cons, hj, joinBelow?_of_takes h]
  rfl

theorem runLength_of_joinBelow? {n : PlanNode} (h : n.joinBelow?.isSome) : n.runLength = 1 := by
  obtain ⟨j, hj⟩ := Option.isSome_iff_exists.mp h
  obtain ⟨id, filter, tags, rfl, ht⟩ := joinBelow?_eq_some.mp hj
  rw [runLength, runLength?_select, runLength?_of_takes ht]
  rfl

theorem runLength_le_longestRun {n m : PlanNode} (h : m ∈ n.preorder) :
    m.runLength ≤ n.longestRun := by
  suffices hl : ∀ l : List PlanNode, m ∈ l → m.runLength ≤ (l.map runLength).foldr max 0 from
    hl _ h
  intro l
  induction l with
  | nil => simp
  | cons i rest ih =>
    intro hm
    rw [List.map_cons, List.foldr_cons]
    rcases List.mem_cons.mp hm with rfl | hm
    · omega
    · have := ih hm
      omega

/-- At the lower end of a run stands a selection right above a join. -/
theorem exists_joinBelow?_of_runLength {n : PlanNode} (h : 0 < n.runLength) :
    ∃ m ∈ n.preorder, m.joinBelow?.isSome := by
  induction n using inductionBelow with
  | node n ih =>
    rcases shapes n with ⟨id, filter, tags, j, rfl, hj⟩ | ⟨id, filter, tags, m, rfl, hm⟩ | hn
    · exact ⟨_, mem_preorder_self _, by simp [joinBelow?, hj]⟩
    · have hpos : 0 < m.runLength := by
        rw [runLength, runLength?_select] at h
        cases hr : m.runLength? with
        | none => simp [hr] at h
        | some k =>
          have hk : k ≠ 0 := fun h0 => by
            rw [takes_of_runLength?_eq_zero (h0 ▸ hr)] at hm
            cases hm
          rw [runLength, hr, Option.getD_some]
          omega
      obtain ⟨i, hi, hij⟩ := ih m (mem_preorders_of_mem List.mem_cons_self) hpos
      exact ⟨i, by simp [hi], hij⟩
    · rw [runLength, runLength?_of_ne hn] at h
      split at h <;> simp at h

/-- There is a lowest selection exactly if there is a run. -/
theorem absorptions_eq_zero_iff {n : PlanNode} : n.absorptions = 0 ↔ n.longestRun = 0 := by
  constructor
  · intro h
    have hnone : ∀ m ∈ n.preorder, m.runLength = 0 := by
      intro m hm
      by_contra hpos
      obtain ⟨i, hi, hij⟩ := exists_joinBelow?_of_runLength (n := m) (by omega)
      exact List.countP_eq_zero.mp h i (preorder_subset hm i hi) hij
    rw [longestRun]
    generalize n.preorder = l at hnone
    induction l with
    | nil => rfl
    | cons m rest ih =>
      rw [List.map_cons, List.foldr_cons, hnone m List.mem_cons_self,
        ih fun i hi => hnone i (List.mem_cons_of_mem _ hi)]
      rfl
  · intro h
    rw [absorptions, List.countP_eq_zero]
    intro m hm hj
    have hle := runLength_le_longestRun hm
    rw [runLength_of_joinBelow? hj] at hle
    omega

/-! ### What is counted -/

theorem countP_sweeps {p q r : PlanNode → Bool} {l : List PlanNode} (next : NodeId)
    (h : ∀ n ∈ l, ∀ next, (sweep next n).preorder.countP p + n.preorder.countP q =
      n.preorder.countP r) :
    (preorders (sweeps next l)).countP p + (preorders l).countP q = (preorders l).countP r := by
  induction l generalizing next with
  | nil => simp [sweeps]
  | cons n rest ih =>
    have hn := h n List.mem_cons_self next
    have hrest := ih (next.plus n.crossRuns) fun m hm => h m (List.mem_cons_of_mem _ hm)
    rw [sweeps, preorders_cons, preorders_cons, List.countP_append, List.countP_append,
      List.countP_append]
    omega

/-- **A sweep takes away the lowest selections of runs, and nothing else.** Nodes of
a kind that has all these selections, and that a sweep neither makes nor takes
away elsewhere, become fewer by as many. -/
theorem countP_sweep {p : PlanNode → Bool}
    (keep : ∀ next n, n.joinBelow? = none → p (sweep next n) = p n)
    (absorb : ∀ next n j, n.joinBelow? = some j → p n = true ∧ p (sweep next n) = p j)
    (next : NodeId) (n : PlanNode) :
    (sweep next n).preorder.countP p + n.absorptions = n.preorder.countP p := by
  induction n using inductionOnSweep generalizing next with
  | kept n hj ih =>
    have hbelow := countP_sweeps next ih
    have hinputs : (sweep next n).inputs = sweeps next n.inputs := by
      rw [sweep_of_joinBelow?_eq_none next hj]
    rw [absorptions_of_none hj, preorder_eq (sweep next n), preorder_eq n, hinputs,
      List.countP_cons, List.countP_cons, keep next n hj]
    omega
  | absorbed id filter tags j ht ih =>
    have hj : joinBelow? ⟨id, .select filter tags, [j]⟩ = some j :=
      joinBelow?_eq_some.mpr ⟨id, filter, tags, rfl, ht⟩
    obtain ⟨hp, hpj⟩ := absorb next _ j hj
    obtain ⟨next', hinputs⟩ : ∃ next', (sweep next ⟨id, .select filter tags, [j]⟩).inputs =
        sweeps next' j.inputs := ⟨_, by rw [sweep_select_of_takes next id filter tags ht]⟩
    have hbelow := countP_sweeps next' ih
    rw [absorptions_select_of_takes id filter tags ht, preorder_eq (sweep next _),
      preorder_eq ⟨id, _, _⟩, hinputs]
    simp only [List.countP_cons, hp, hpj, preorders_cons, preorders_nil, List.append_nil,
      preorder_eq j, if_true]
    omega

/-- **A tree shrinks by the selections that a sweep takes away.** -/
theorem size_sweep (next : NodeId) (n : PlanNode) :
    (sweep next n).size + n.absorptions = n.size := by
  have h := countP_sweep (p := fun _ => true) (fun _ _ _ => rfl) (fun _ _ _ _ => ⟨rfl, rfl⟩) next n
  simpa [length_preorder] using h

/-- The selections that a sweep takes away are selections of runs. -/
theorem selectionsInRuns_sweep (next : NodeId) (n : PlanNode) :
    (sweep next n).selectionsInRuns + n.absorptions = n.selectionsInRuns := by
  refine countP_sweep (fun next n hn => ?_) (fun next n j hj => ?_) next n
  · rw [isInRun, isInRun, runLength_sweep, decide_eq_decide]
    have hne : n.runLength ≠ 1 := fun h1 => by
      rcases shapes n with ⟨id, filter, tags, j, rfl, hj⟩ | ⟨id, filter, tags, m, rfl, hm⟩ | hn'
      · simp [joinBelow?, hj] at hn
      · rw [runLength, runLength?_select] at h1
        cases hr : m.runLength? with
        | none => simp [hr] at h1
        | some k =>
          have hk : k = 0 := by simpa [hr] using h1
          rw [takes_of_runLength?_eq_zero (hk ▸ hr)] at hm
          cases hm
      · rw [runLength, runLength?_of_ne hn'] at h1
        split at h1 <;> simp at h1
    omega
  · have h1 := runLength_of_joinBelow? (n := n) (by simp [hj])
    obtain ⟨id, filter, tags, rfl, ht⟩ := joinBelow?_eq_some.mp hj
    rw [isInRun, isInRun, isInRun, runLength_sweep, h1, runLength, runLength?_of_takes ht]
    exact ⟨rfl, rfl⟩

theorem selectionsInRuns_eq_zero {n : PlanNode} (h : n.longestRun = 0) :
    n.selectionsInRuns = 0 := by
  rw [selectionsInRuns, List.countP_eq_zero]
  intro m hm hpos
  have hle := runLength_le_longestRun hm
  have hlt : 0 < m.runLength := by simpa [isInRun] using hpos
  omega

/-! ### The normal form -/

theorem normal_select (next : NodeId) (above : List Selection) (id : NodeId) (filter : Filter)
    (tags : Option TagFilter) (n : PlanNode) :
    normal next above ⟨id, .select filter tags, [n]⟩ =
      if n.runLength?.isSome then normal next (⟨filter, tags⟩ :: above) n
      else ⟨id, .select filter tags, [normal next [] n]⟩ := by
  rw [normal]

theorem normal_of_ne {n : PlanNode} (h : ∀ id filter tags m, n ≠ ⟨id, .select filter tags, [m]⟩)
    (next : NodeId) (above : List Selection) :
    normal next above n =
      if n.kind = .crossJoin ∧ above ≠ [] then
        ⟨next, n.op.absorbing above, normals (next + 1) n.inputs⟩
      else ⟨n.id, n.op.absorbing above, normals next n.inputs⟩ := by
  obtain ⟨id, op, inputs⟩ := n
  rw [normal]
  · rfl
  · rintro filter tags m rfl rfl
    exact h id filter tags m rfl

/-- A join below selections takes all of them. -/
theorem normal_of_takes {j : PlanNode} (h : j.op.takesSelections = true) (next : NodeId)
    (s : Selection) (above : List Selection) :
    normal next (s :: above) j =
      ⟨if j.kind = .crossJoin then next else j.id, j.op.absorbing (s :: above),
        normals (if j.kind = .crossJoin then next + 1 else next) j.inputs⟩ := by
  rw [normal_of_ne]
  · by_cases hk : j.kind = .crossJoin <;> simp [hk]
  · rintro id filter tags m rfl
    simp [Operator.takesSelections] at h

theorem normals_sweeps {l : List PlanNode} (next next' : NodeId)
    (h : ∀ n ∈ l, ∀ next next', normal next' [] (sweep next n) = normal next [] n)
    (hc : ∀ n ∈ l, ∀ next, (sweep next n).crossRuns = 0) :
    normals next' (sweeps next l) = normals next l := by
  induction l generalizing next next' with
  | nil => simp [sweeps, normals]
  | cons n rest ih =>
    rw [sweeps, normals, normals, h n List.mem_cons_self next, hc n List.mem_cons_self next,
      ih _ _ (fun m hm => h m (List.mem_cons_of_mem _ hm))
        fun m hm => hc m (List.mem_cons_of_mem _ hm)]

theorem isAboveCross_iff {n : PlanNode} : n.isAboveCross = true ↔
    ∃ id filter tags j, n = ⟨id, .select filter tags, [j]⟩ ∧ j.kind = .crossJoin := by
  rw [isAboveCross]
  constructor
  · intro h
    obtain ⟨j, hj, hk⟩ := (Option.any_eq_true _ _).mp h
    obtain ⟨id, filter, tags, rfl, -⟩ := joinBelow?_eq_some.mp hj
    exact ⟨id, filter, tags, j, rfl, by simpa using hk⟩
  · rintro ⟨id, filter, tags, ⟨jid, op, inputs⟩, rfl, hk⟩
    cases op <;> simp [kind, Operator.kind] at hk
    rfl

/-- After a sweep no run stands on a cross join. -/
theorem crossRuns_sweep (next : NodeId) (n : PlanNode) : (sweep next n).crossRuns = 0 := by
  rw [crossRuns, List.countP_eq_zero]
  have hbelow : ∀ {l : List PlanNode} {next : NodeId},
      (∀ m ∈ l, ∀ next, ∀ i ∈ (sweep next m).preorder, ¬i.isAboveCross = true) →
        ∀ i ∈ preorders (sweeps next l), ¬i.isAboveCross = true := by
    intro l next h i hi
    obtain ⟨m, hm, him⟩ := mem_preorders.mp hi
    obtain ⟨m', hm', next', rfl⟩ := mem_sweeps hm
    exact h m' hm' next' i him
  induction n using inductionOnSweep generalizing next with
  | kept n hj ih =>
    intro i hi
    have hs := sweep_of_joinBelow?_eq_none next hj
    rw [hs, preorder_eq] at hi
    rcases List.mem_cons.mp hi with rfl | hi
    · -- A cross join below was one before, and then the selection would have gone into it.
      intro hcross
      obtain ⟨id, filter, tags, j, heq, hkind⟩ := isAboveCross_iff.mp hcross
      obtain ⟨m, rfl, rfl⟩ := eq_select_of_sweep next (hs.trans heq)
      have hm := kind_of_kind_sweep_eq_crossJoin hkind
      obtain ⟨mid, op, inputs⟩ := m
      cases op <;> simp [kind, Operator.kind] at hm
      simp [joinBelow?, Operator.takesSelections] at hj
    · exact hbelow ih i hi
  | absorbed id filter tags j ht ih =>
    intro i hi
    rw [sweep_select_of_takes next id filter tags ht, preorder_eq] at hi
    rcases List.mem_cons.mp hi with rfl | hi
    · -- What absorbed a selection is no selection.
      intro hcross
      obtain ⟨_, _, _, _, heq, -⟩ := isAboveCross_iff.mp hcross
      have hk := Operator.kind_absorbing_singleton ht ⟨filter, tags⟩
      injection heq with _ hop _
      rw [hop] at hk
      cases hk
    · exact hbelow ih i hi

/-- **A sweep does not change the normal form**, whatever new ids come later: the
selection that went into a join is the first one that would have gone there. -/
theorem normal_sweep (next next' : NodeId) (n : PlanNode) (above : List Selection)
    (h : above = [] ∨ (n.runLength?.isSome ∧ n.op.takesSelections = false)) :
    normal next' above (sweep next n) = normal next above n := by
  induction n using inductionBelow generalizing next next' above with
  | node n ih =>
    have hbelow : ∀ m ∈ preorders n.inputs, ∀ next next',
        normal next' [] (sweep next m) = normal next [] m :=
      fun m hm next next' => ih m hm next next' [] (.inl rfl)
    rcases shapes n with ⟨id, filter, tags, j, rfl, hj⟩ | ⟨id, filter, tags, m, rfl, hm⟩ | hn
    -- The selection went into the join, and those above it come after it.
    · have hkind := Operator.kind_absorbing_singleton hj ⟨filter, tags⟩
      have hinputs : ∀ next, normals next' (sweeps next j.inputs) = normals next j.inputs := by
        exact fun next => normals_sweeps next next'
          (fun m hm => hbelow m (mem_preorders_of_mem_inputs hm))
          fun m _ => fun next => crossRuns_sweep next m
      rw [sweep_select_of_takes next id filter tags hj, normal_select, runLength?_of_takes hj,
        Option.isSome_some, if_pos rfl, normal_of_takes hj, normal_of_ne]
      · rw [Operator.absorbing_cons hj ⟨filter, tags⟩ above, hinputs]
        simp [kind, hkind]
      · rintro _ _ _ _ heq
        injection heq with _ hop _
        rw [hop] at hkind
        cases hkind
    -- The selection stays, and it is still in a run if it was in one.
    · have hrun : (sweep next m).runLength?.isSome = m.runLength?.isSome := by
        rw [runLength?_sweep, Option.isSome_map]
      have hm' := mem_preorders_of_mem (List.mem_cons_self (a := m) (l := []))
      rw [sweep_of_joinBelow?_eq_none next (by simp [joinBelow?, hm]), sweeps_singleton,
        normal_select, normal_select, hrun]
      by_cases hsome : m.runLength?.isSome
      · rw [if_pos hsome, if_pos hsome, ih m hm' next next' _ (.inr ⟨hsome, hm⟩)]
      · rw [if_neg hsome, if_neg hsome, hbelow m hm']
    -- No selection stands here, and so none was passed on the way.
    · have habove : above = [] := by
        rcases h with h | ⟨hr, ht⟩
        · exact h
        · rw [runLength?_of_ne hn, ht] at hr
          cases hr
      have hs := sweep_of_joinBelow?_eq_none next (joinBelow?_of_ne hn)
      subst habove
      rw [normal_of_ne hn, normal_of_ne]
      · rw [hs, normals_sweeps next next' (fun m hm => hbelow m (mem_preorders_of_mem hm))
          fun m _ => fun next => crossRuns_sweep next m]
        simp
      · intro id filter tags m heq
        obtain ⟨i, -, rfl⟩ := eq_select_of_sweep next heq
        exact hn id filter tags i rfl

theorem normals_eq_self {l : List PlanNode} (h : ∀ n ∈ l, ∀ next, normal next [] n = n)
    (next : NodeId) : normals next l = l := by
  induction l generalizing next with
  | nil => rw [normals]
  | cons n rest ih =>
    rw [normals, h n List.mem_cons_self, ih fun m hm => h m (List.mem_cons_of_mem _ hm)]

/-- **A tree without runs is in normal form.** -/
theorem normal_eq_self {n : PlanNode} (h : n.longestRun = 0) (next : NodeId) :
    normal next [] n = n := by
  have hall : ∀ m ∈ n.preorder, m.runLength = 0 := fun m hm => by
    have := runLength_le_longestRun hm
    omega
  clear h
  induction n using inductionBelow generalizing next with
  | node n ih =>
    have hbelow : ∀ m ∈ n.inputs, ∀ next, normal next [] m = m := by
      refine fun m hm next => ih m (mem_preorders_of_mem hm) next fun i hi => hall i ?_
      rw [preorder_eq]
      exact List.mem_cons_of_mem _ (mem_preorders.mpr ⟨m, hm, hi⟩)
    by_cases hs : ∃ id filter tags m, n = ⟨id, .select filter tags, [m]⟩
    · obtain ⟨id, filter, tags, m, rfl⟩ := hs
      have h0 := hall _ (mem_preorder_self _)
      rw [runLength, runLength?_select] at h0
      cases hr : m.runLength? with
      | none => simp [normal_select, hr, hbelow m List.mem_cons_self]
      | some k => simp [hr] at h0
    · rw [normal_of_ne fun id filter tags m hn => hs ⟨id, filter, tags, m, hn⟩]
      obtain ⟨nid, op, inputs⟩ := n
      simp [normals_eq_self hbelow]

/-- A sweep changes nothing in a tree without runs. -/
theorem sweep_eq_self {n : PlanNode} (h : n.longestRun = 0) (next : NodeId) :
    sweep next n = n := by
  have hzero : (sweep next n).longestRun = 0 := by
    rw [longestRun_sweep, h]
  have hn := normal_sweep next next n [] (.inl rfl)
  rwa [normal_eq_self hzero, normal_eq_self h] at hn

/-- **The normal form is smaller by the selections in runs.** -/
theorem size_normal (next : NodeId) (n : PlanNode) :
    (normal next [] n).size + n.selectionsInRuns = n.size := by
  -- Sweep after sweep takes selections away until no run is left, and the normal form stays.
  suffices h : ∀ k n, n.longestRun = k → (normal next [] n).size + n.selectionsInRuns = n.size from
    h _ n rfl
  intro k
  induction k with
  | zero =>
    intro n hk
    rw [normal_eq_self hk, selectionsInRuns_eq_zero hk, Nat.add_zero]
  | succ k ih =>
    intro n hk
    have hrun := ih (sweep next n) (by rw [longestRun_sweep, hk]; rfl)
    rw [normal_sweep next next n [] (.inl rfl)] at hrun
    -- What the sweep took away is counted once in both.
    have hsize := size_sweep next n
    have hcount := selectionsInRuns_sweep next n
    omega

/-- Selections on top of a tree, the lowest one first. -/
def stacked (n : PlanNode) : List (NodeId × Selection) → PlanNode
  | [] => n
  | (id, s) :: above => stacked ⟨id, .select s.filter s.tags, [n]⟩ above

/-- **What a run becomes**: one join that all selections of the run went into, above
the normal forms of its inputs. -/
theorem normal_stacked {j : PlanNode} (h : j.op.takesSelections = true) (next : NodeId)
    (first : NodeId × Selection) (above : List (NodeId × Selection)) :
    normal next [] (stacked j (first :: above)) =
      ⟨if j.kind = .crossJoin then next else j.id,
        j.op.absorbing (first.2 :: above.map (·.2)),
        normals (if j.kind = .crossJoin then next + 1 else next) j.inputs⟩ := by
  have hpass : ∀ (above : List (NodeId × Selection)) (n : PlanNode) (passed : List Selection),
      n.runLength?.isSome = true →
        normal next passed (stacked n above) = normal next (above.map (·.2) ++ passed) n := by
    intro above
    induction above with
    | nil => exact fun n passed _ => rfl
    | cons a above ih =>
      intro n passed hn
      rw [stacked, ih _ passed (by simpa using hn), normal_select, if_pos hn]
      rfl
  rw [hpass _ j [] (by rw [runLength?_of_takes h]; rfl), List.append_nil, List.map_cons,
    normal_of_takes h]

end PlanNode

end KeyedSeries

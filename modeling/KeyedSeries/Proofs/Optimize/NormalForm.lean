import KeyedSeries.Proofs.Optimize.Pass
import KeyedSeries.Proofs.Optimize.SelectIntoJoin
import KeyedSeries.Proofs.Optimize.Sweeps

/-!
# Optimizing by the default rules computes a normal form

A pass with the rules of `KeyedSeries.RuleSet.default` is one sweep over the tree
(`KeyedSeries.Optimize.pass_default`): it fails nowhere, because every
replacement is valid and differs from what it replaces in its very first letter.
Passes therefore go on exactly as long as there are runs, and what they arrive
at is the normal form of the plan
(`KeyedSeries.Optimize.optimize_default_eq_normal`).

The only thing that could come in between is the digest: the check for progress
compares digests and not trees. That it tells the compared trees apart is a
hypothesis (`KeyedSeries.Optimize.NoCollision`).
-/

namespace KeyedSeries

open PlanNode

/-! ### Fingerprints -/

/-- The fingerprint of a tree starts with the name of its operator. -/
theorem fingerprintBytes_eq (n : PlanNode) :
    ∃ rest, n.fingerprintBytes = Bytes.ofText n.kind.name ++ rest := by
  obtain ⟨id, op, inputs⟩ := n
  exact ⟨_, by rw [fingerprintBytes, List.append_assoc, List.append_assoc]; rfl⟩

/-- A selection and an inner join have different fingerprints. -/
theorem fingerprintBytes_ne {n r : PlanNode} (hn : n.kind = .select) (hr : r.kind = .innerJoin) :
    n.fingerprintBytes ≠ r.fingerprintBytes := by
  obtain ⟨s, hs⟩ := fingerprintBytes_eq n
  obtain ⟨t, ht⟩ := fingerprintBytes_eq r
  have hselect : (Bytes.ofText OperatorKind.select.name).head? = some 0x53 := by decide +kernel
  have hinner : (Bytes.ofText OperatorKind.innerJoin.name).head? = some 0x49 := by decide +kernel
  rw [hs, ht, hn, hr]
  intro heq
  have hhead := congrArg List.head? heq
  rw [List.head?_append, List.head?_append, hselect, hinner] at hhead
  simp at hhead

namespace Optimize

/-! ### What the progress check compares -/

/-- Passes lead from one tree, and what is kept track of, to another. -/
inductive Reaches (config : Config) (rules : RuleSet) (depth : Nat) (root : PlanNode)
    (p : Progress) : PlanNode → Progress → Prop
  /-- No pass leaves the tree as it is. -/
  | start : Reaches config rules depth root p root p
  /-- One pass more. -/
  | pass {n n' : PlanNode} {q q' : Progress} :
    Reaches config rules depth root p n q → pass config rules depth n q = some (.ok (n', q')) →
      Reaches config rules depth root p n' q'

/-- A pass over a tree compares one of its nodes with what a rule puts in its
place. -/
def Compares (rules : RuleSet) (root n r : PlanNode) : Prop :=
  n ∈ root.preorder ∧ ∃ rule next next', rules.find? (·.applies n) = some rule ∧
    (rule.transform n).run next = .ok (r, next')

/-- The digest does not give two trees of different fingerprints the same number
when the progress check compares them. -/
def NoCollision (config : Config) (rules : RuleSet) (depth : Nat) (root : PlanNode)
    (p : Progress) : Prop :=
  ∀ m q, Reaches config rules depth root p m q → ∀ n r, Compares rules m n r →
    n.fingerprint = r.fingerprint → n.fingerprintBytes = r.fingerprintBytes

theorem NoCollision.after_pass {config : Config} {rules : RuleSet} {depth : Nat}
    {root root' : PlanNode} {p p' : Progress} (h : NoCollision config rules depth root p)
    (hpass : pass config rules depth root p = some (.ok (root', p'))) :
    NoCollision config rules depth root' p' := by
  intro m q hm
  refine h m q ?_
  induction hm with
  | start => exact .pass .start hpass
  | pass _ hstep ih => exact .pass ih hstep

/-! ### One pass -/

/-- The digest tells a node of the tree from what the default rules put in its
place. -/
def Distinguished (root : PlanNode) : Prop :=
  ∀ n r, Compares RuleSet.default root n r → n.fingerprint ≠ r.fingerprint

theorem Distinguished.below {n m : PlanNode} (h : Distinguished n) (hm : m ∈ n.preorder) :
    Distinguished m :=
  fun i r ⟨hi, hr⟩ => h i r ⟨preorder_subset hm i hi, hr⟩

theorem find?_default (n : PlanNode) : RuleSet.default.find? (·.applies n) =
    if selectIntoJoin.applies n then some selectIntoJoin else none := by
  rw [RuleSet.default, List.find?_cons, List.find?_nil]
  cases selectIntoJoin.applies n <;> rfl

/-- What takes the place of a node by the default rules. -/
theorem Compares.default_eq {root n r : PlanNode} (h : Compares RuleSet.default root n r) :
    ∃ id id' filter tags j, n = ⟨id, .select filter tags, [j]⟩ ∧ j.op.takesSelections = true ∧
      r = ⟨id', j.op.absorbing [⟨filter, tags⟩], j.inputs⟩ := by
  obtain ⟨-, rule, next, next', hfind, hrun⟩ := h
  rw [find?_default] at hfind
  split at hfind
  · next happ =>
    obtain rfl : selectIntoJoin = rule := by simpa using hfind
    obtain ⟨id, filter, tags, j, hn, ht, hr, -⟩ := replaced_by_selectIntoJoin happ hrun
    exact ⟨id, _, filter, tags, j, hn, ht, hr⟩
  · cases hfind

/-- Without collisions the digest tells compared trees apart, as their
fingerprints differ. -/
theorem NoCollision.distinguished {config : Config} {depth : Nat} {root : PlanNode} {p : Progress}
    (h : NoCollision config RuleSet.default depth root p) : Distinguished root := by
  intro n r hr heq
  have hbytes := h root p .start n r hr heq
  obtain ⟨id, id', filter, tags, j, rfl, ht, rfl⟩ := hr.default_eq
  have hkind : kind ⟨id', j.op.absorbing [⟨filter, tags⟩], j.inputs⟩ = .innerJoin :=
    Operator.kind_absorbing_singleton ht _
  exact fingerprintBytes_ne rfl hkind hbytes

/-- The join that a selection went into is valid: its inputs are those of the join, and so is its
id, or it is new. -/
theorem check_absorbing {id : NodeId} {filter : Filter} {tags : Option TagFilter} {j : PlanNode}
    (ht : j.op.takesSelections = true) (hv : Valid ⟨id, .select filter tags, [j]⟩) {next : NodeId}
    (hnew : ∀ i ∈ ids ⟨id, .select filter tags, [j]⟩, i.toNat < next.toNat) :
    check ⟨if j.kind = .crossJoin then next else j.id, j.op.absorbing [⟨filter, tags⟩],
      j.inputs⟩ = none := by
  have hj := hv.input (m := j) (by simp)
  have hd := hj.nodup
  rw [ids_eq, List.nodup_cons] at hd
  rw [check_eq_none_iff]
  constructor
  · rw [arityFits_iff]
    refine ⟨?_, fun m hm => hj.arity.input hm⟩
    have harity : j.inputs.length = 2 := by
      rw [(arityFits_iff.mp hj.arity).1]
      exact Operator.arity_of_takesSelections ht
    simp only [kind, Operator.kind_absorbing_singleton ht, harity]
    rfl
  · rw [ids_eq, List.nodup_cons]
    refine ⟨?_, hd.2⟩
    split
    · intro hmem
      refine Nat.lt_irrefl _ (hnew _ ?_)
      rw [ids_eq, allIds_cons, allIds_nil, List.append_nil, ids_eq j]
      exact List.mem_cons_of_mem _ (List.mem_cons_of_mem _ hmem)
    · exact hd.1

/-- A selection goes into the join below it without fail. -/
theorem applyFirst_of_joinBelow? (config : Config) {id : NodeId} {filter : Filter}
    {tags : Option TagFilter} {j : PlanNode} (ht : j.op.takesSelections = true)
    (hv : Valid ⟨id, .select filter tags, [j]⟩) (p : Progress)
    (hnew : ∀ i ∈ ids ⟨id, .select filter tags, [j]⟩, i.toNat < p.nextId.toNat)
    (hd : Distinguished ⟨id, .select filter tags, [j]⟩) :
    ∃ a : Application, applyFirst config RuleSet.default ⟨id, .select filter tags, [j]⟩ p =
      .ok (⟨if j.kind = .crossJoin then p.nextId else j.id, j.op.absorbing [⟨filter, tags⟩],
        j.inputs⟩, ⟨if j.kind = .crossJoin then p.nextId + 1 else p.nextId,
          a :: p.applications⟩) := by
  have happ : selectIntoJoin.applies ⟨id, .select filter tags, [j]⟩ = true := by
    rw [applies_eq_isSome hv.arity]
    simp [joinBelow?, ht]
  have hfind := find?_default ⟨id, .select filter tags, [j]⟩
  rw [if_pos happ] at hfind
  have hrun := run_transform id filter tags ht p.nextId
  have hne := hd _ _ ⟨mem_preorder_self _, selectIntoJoin, p.nextId, _, hfind, hrun⟩
  exact ⟨_, applyFirst_eq_ok_iff.mpr (.inr ⟨selectIntoJoin, hfind, applyRule_eq_ok_iff.mpr
    ⟨_, hrun, check_absorbing ht hv hnew, Ne.symm hne, rfl⟩⟩)⟩

theorem applyFirst_of_joinBelow?_eq_none (config : Config) {n : PlanNode} (h : n.joinBelow? = none)
    (p : Progress) : applyFirst config RuleSet.default n p = .ok (n, p) := by
  have happ : selectIntoJoin.applies n = false := by
    rw [Bool.eq_false_iff]
    intro happ
    obtain ⟨j, hj, -⟩ := applies_selectIntoJoin.mp happ
    rw [h] at hj
    cases hj
  rw [applyFirst, find?_default, happ]
  rfl

theorem eachInput_progress
    {f : PlanNode → Progress → Option (Except RuleError (PlanNode × Progress))}
    {l out : List PlanNode} {p q q' : Progress} (h : eachInput f l p = some (.ok (out, q)))
    (hq : q = q') : eachInput f l p = some (.ok (out, q')) := hq ▸ h

/-- A pass over a tree is a sweep, with one application for every selection that goes into a
join, if there are ids left for the new joins. -/
def IsSwept (config : Config) (depth : Nat) (n : PlanNode) : Prop :=
  ∀ p : Progress, p.nextId.toNat + n.crossRuns < UInt32.size →
    (∀ i ∈ n.ids, i.toNat < p.nextId.toNat) → ∃ apps : List Application,
      apps.length = n.absorptions ∧ pass config RuleSet.default depth n p =
        some (.ok (sweep p.nextId n, ⟨p.nextId.plus n.crossRuns, apps ++ p.applications⟩))

section Swept

variable {config : Config} {depth : Nat}

/-- The inputs of a node are swept in turn, if each of them is swept. -/
theorem eachInput_eq_sweeps {l : List PlanNode} (h : ∀ n ∈ l, IsSwept config depth n)
    (p : Progress) (hroom : p.nextId.toNat + (preorders l).countP isAboveCross < UInt32.size)
    (hnew : ∀ i ∈ allIds l, i.toNat < p.nextId.toNat) : ∃ apps : List Application,
      apps.length = (preorders l).countP (·.joinBelow?.isSome) ∧
        eachInput (pass config RuleSet.default depth) l p = some (.ok (sweeps p.nextId l,
          ⟨p.nextId.plus ((preorders l).countP isAboveCross), apps ++ p.applications⟩)) := by
  induction l generalizing p with
  | nil => exact ⟨[], by simp, by simp [eachInput, sweeps]⟩
  | cons n rest ih =>
    simp only [allIds_cons, List.mem_append] at hnew
    rw [preorders_cons, List.countP_append, ← crossRuns] at hroom
    have hplus := NodeId.toNat_plus (i := p.nextId) (k := n.crossRuns) (by omega)
    obtain ⟨apps, hlen, hn⟩ := h n List.mem_cons_self p (by omega) fun i hi => hnew i (.inl hi)
    obtain ⟨apps', hlen', hrest⟩ := ih (fun m hm => h m (List.mem_cons_of_mem _ hm))
      ⟨p.nextId.plus n.crossRuns, apps ++ p.applications⟩ (by dsimp only; omega) fun i hi => by
        have := hnew i (.inr hi)
        dsimp only
        omega
    refine ⟨apps' ++ apps, ?_, eachInput_cons_eq_ok_iff.mpr ⟨_, _, _, hn,
      eachInput_progress hrest ?_, ?_⟩⟩
    · rw [List.length_append, hlen, hlen', preorders_cons, List.countP_append, absorptions]
      omega
    · simp [crossRuns, NodeId.plus_plus]
    · rw [sweeps]

/-- Where no selection goes into a join, a node is swept with its inputs. -/
theorem isSwept_of_joinBelow?_eq_none {n : PlanNode} (hj : n.joinBelow? = none)
    (h : ∀ m ∈ n.inputs, IsSwept config depth m) : IsSwept config (depth + 1) n := by
  intro p hroom hnew
  have hcross : n.crossRuns = (preorders n.inputs).countP isAboveCross := by
    rw [crossRuns_eq, isAboveCross, hj]
    simp
  rw [hcross] at hroom ⊢
  rw [ids_eq, List.forall_mem_cons] at hnew
  obtain ⟨apps, hlen, hrest⟩ := eachInput_eq_sweeps h p hroom hnew.2
  refine ⟨apps, ?_, pass_succ_eq_ok_iff.mpr ⟨n, p, _,
    applyFirst_of_joinBelow?_eq_none config hj p, hrest, ?_⟩⟩
  · rw [hlen, absorptions_of_none hj]
  · rw [sweep_of_joinBelow?_eq_none p.nextId hj]

/-- A selection that goes into the join below it is swept with the inputs of the join. Ids that
are drawn for these come after that of the join. -/
theorem isSwept_of_joinBelow? {id : NodeId} {filter : Filter} {tags : Option TagFilter}
    {j : PlanNode} (ht : j.op.takesSelections = true)
    (hv : Valid ⟨id, .select filter tags, [j]⟩)
    (hd : Distinguished ⟨id, .select filter tags, [j]⟩)
    (h : ∀ m ∈ j.inputs, IsSwept config depth m) :
    IsSwept config (depth + 1) ⟨id, .select filter tags, [j]⟩ := by
  intro p hroom hnew
  obtain ⟨a, happ⟩ := applyFirst_of_joinBelow? config ht hv p hnew hd
  rw [crossRuns_select_of_takes id filter tags ht] at hroom ⊢
  -- Behind the id of the join there are ids left for those below it.
  have hnext : (if j.kind = .crossJoin then p.nextId + 1 else p.nextId) =
      p.nextId.plus (if j.kind = .crossJoin then 1 else 0) := by
    split
    · rw [NodeId.plus_one]
    · rw [NodeId.plus_zero]
  have hplus := NodeId.toNat_plus (i := p.nextId) (k := if j.kind = .crossJoin then 1 else 0)
    (by omega)
  rw [hnext] at happ
  obtain ⟨apps, hlen, hrest⟩ := eachInput_eq_sweeps h
    ⟨p.nextId.plus (if j.kind = .crossJoin then 1 else 0), a :: p.applications⟩
    (by dsimp only; omega) fun i hi => by
      have := hnew i (by
        rw [ids_eq, allIds_cons, ids_eq j]
        simp [hi])
      dsimp only
      omega
  refine ⟨apps ++ [a], ?_, pass_succ_eq_ok_iff.mpr ⟨_, _, _, happ,
    eachInput_progress hrest ?_, ?_⟩⟩
  · rw [List.length_append, hlen, absorptions_select_of_takes id filter tags ht,
      List.length_singleton]
  · rw [NodeId.plus_plus, Nat.add_comm]
    simp
  · rw [sweep_select_of_takes p.nextId id filter tags ht, hnext]

end Swept

/-- **A pass with the default rules is a sweep**, with one application for every
selection that goes into a join. -/
theorem pass_default (config : Config) {depth : Nat} {n : PlanNode} (hdepth : n.height ≤ depth)
    (hv : n.Valid) (hd : Distinguished n) : IsSwept config depth n := by
  induction depth generalizing n with
  | zero =>
    rw [height_eq] at hdepth
    omega
  | succ depth ih =>
    rw [height_eq] at hdepth
    have hheight : ∀ m ∈ n.inputs, m.height ≤ depth := heights_le_iff.mp (by omega)
    cases hj : n.joinBelow? with
    | none =>
      refine isSwept_of_joinBelow?_eq_none hj fun m hm =>
        ih (hheight m hm) (hv.input hm) (hd.below ?_)
      rw [preorder_eq]
      exact List.mem_cons_of_mem _ (mem_preorders_of_mem hm)
    | some j =>
      obtain ⟨id, filter, tags, rfl, ht⟩ := joinBelow?_eq_some.mp hj
      -- The pass goes on below the join.
      have hlow := hheight j (by simp)
      rw [height_eq] at hlow
      have hjoin := hv.input (m := j) (by simp)
      refine isSwept_of_joinBelow? ht hv hd fun m hm =>
        ih (heights_le_iff.mp (by omega) m hm) (hjoin.input hm) (hd.below ?_)
      rw [preorder_eq]
      exact List.mem_cons_of_mem _ (mem_preorders_of_mem_inputs hm)

/-! ### All passes -/

/-- **Passes go on as long as there are runs.** Where enough of them are left they
end in the normal form, with one application for every selection of a run; where
they are too few there is no fixpoint. -/
theorem passes_default (config : Config) {depth : Nat} (left made : Nat) {root : PlanNode}
    {p : Progress}
    (hdepth : root.height ≤ depth) (hv : root.Valid)
    (hroom : p.nextId.toNat + root.crossRuns < UInt32.size)
    (hnew : ∀ i ∈ root.ids, i.toNat < p.nextId.toNat)
    (hc : NoCollision config RuleSet.default depth root p) :
    (root.longestRun < left → ∃ apps : List Application, apps.length = root.selectionsInRuns ∧
      passes config RuleSet.default depth left made root p =
        some (.ok ⟨⟨normal p.nextId [] root, p.nextId.plus root.crossRuns⟩,
          made + root.longestRun + 1,
          (apps ++ p.applications).length, (apps ++ p.applications).reverse⟩)) ∧
    (left ≤ root.longestRun → passes config RuleSet.default depth left made root p =
      some (.error ⟨"optimizer", .noFixpoint config.maxPasses⟩)) := by
  induction left generalizing made root p with
  | zero => exact ⟨fun h => absurd h (Nat.not_lt_zero _), fun _ => rfl⟩
  | succ left ih =>
    obtain ⟨apps, hlen, hpass⟩ := pass_default config hdepth hv hc.distinguished p hroom hnew
    by_cases h0 : root.longestRun = 0
    -- Without runs the pass changed nothing, and it was the last one.
    · have habs := absorptions_eq_zero_iff.mpr h0
      obtain rfl : apps = [] := List.length_eq_zero_iff.mp (by rw [hlen, habs])
      refine ⟨fun _ => ⟨[], by rw [selectionsInRuns_eq_zero h0]; rfl, ?_⟩, fun h => by omega⟩
      rw [passes, hpass, sweep_eq_self h0, normal_eq_self h0, h0]
      simp
    -- With runs it changed something, and the next pass starts from the sweep.
    · have habs : root.absorptions ≠ 0 := fun h => h0 (absorptions_eq_zero_iff.mp h)
      have hplus := NodeId.toNat_plus hroom
      have hids : ∀ i ∈ (sweep p.nextId root).ids,
          i.toNat < (p.nextId.plus root.crossRuns).toNat := by
        intro i hi
        rw [hplus]
        rcases ids_sweep hroom i hi with h | h
        · exact Nat.lt_of_lt_of_le (hnew i h) (Nat.le_add_right _ _)
        · exact h.2
      have hnext : passes config RuleSet.default depth (left + 1) made root p =
          passes config RuleSet.default depth left (made + 1) (sweep p.nextId root)
            ⟨p.nextId.plus root.crossRuns, apps ++ p.applications⟩ := by
        rw [passes, hpass]
        simp only [List.length_append]
        rw [if_neg (by omega)]
      have hrun := longestRun_sweep p.nextId root
      have hcount := selectionsInRuns_sweep p.nextId root
      have hmade : made + 1 + (root.longestRun - 1) + 1 = made + root.longestRun + 1 := by omega
      have hless : (sweep p.nextId root).longestRun < left ↔ root.longestRun < left + 1 := by omega
      obtain ⟨hok, herr⟩ := ih (made + 1)
        (Nat.le_trans (height_sweep_le p.nextId root) hdepth) (valid_sweep hroom hv hnew)
        (by rw [crossRuns_sweep, hplus]; exact hroom) hids (hc.after_pass hpass)
      refine ⟨fun h => ?_, fun h => ?_⟩
      · obtain ⟨apps', hlen', hres⟩ := hok (hless.mpr h)
        refine ⟨apps' ++ apps, by rw [List.length_append, hlen, hlen', hcount], ?_⟩
        rw [hnext, hres, normal_sweep _ _ _ [] (.inl rfl), crossRuns_sweep, NodeId.plus_zero, hrun,
          List.append_assoc, hmade]
      · rw [hnext, herr (Nat.le_of_not_lt fun hlt => Nat.not_lt_of_le h (hless.mp hlt))]

/-! ### Collisions can be ruled out by looking -/

/-- Whether the digest tells a node from what the default rules put in its
place. -/
def isTold : PlanNode → Bool
  | ⟨i, .select filter tags, [j]⟩ =>
    !j.op.takesSelections || fingerprint ⟨i, .select filter tags, [j]⟩ !=
      fingerprint ⟨j.id, j.op.absorbing [⟨filter, tags⟩], j.inputs⟩
  | _ => true

/-- Ids have no part in a fingerprint. -/
theorem fingerprint_mk (id id' : NodeId) (op : Operator) (inputs : List PlanNode) :
    fingerprint ⟨id, op, inputs⟩ = fingerprint ⟨id', op, inputs⟩ := by
  rw [fingerprint, fingerprint, fingerprintBytes, fingerprintBytes]

theorem distinguished_of_all {root : PlanNode} (h : root.preorder.all isTold = true) :
    Distinguished root := by
  intro n r hr
  obtain ⟨id, id', filter, tags, j, rfl, ht, rfl⟩ := hr.default_eq
  have := List.all_eq_true.mp h _ hr.1
  rw [fingerprint_mk id' j.id]
  simpa [isTold, ht] using this

/-- A pass further on there is no collision, and none in the pass itself. -/
theorem NoCollision.before_pass {config : Config} {rules : RuleSet} {depth : Nat}
    {root root' : PlanNode} {p p' : Progress}
    (hpass : pass config rules depth root p = some (.ok (root', p')))
    (hroot : ∀ n r, Compares rules root n r → n.fingerprint ≠ r.fingerprint)
    (h : NoCollision config rules depth root' p') : NoCollision config rules depth root p := by
  intro m q hm
  have hcases : (m = root ∧ q = p) ∨ Reaches config rules depth root' p' m q := by
    induction hm with
    | start => exact .inl ⟨rfl, rfl⟩
    | pass _ hstep ih =>
      rcases ih with ⟨rfl, rfl⟩ | ih
      · rw [hpass] at hstep
        cases hstep
        exact .inr .start
      · exact .inr (.pass ih hstep)
  rcases hcases with ⟨rfl, rfl⟩ | hm
  · exact fun n r hr heq => absurd heq (hroot n r hr)
  · exact h m q hm

/-- In a tree without runs nothing is compared. -/
theorem noCollision_of_longestRun_eq_zero (config : Config) {depth : Nat} {root : PlanNode}
    {p : Progress} (hdepth : root.height ≤ depth) (hv : root.Valid)
    (hnew : ∀ i ∈ root.ids, i.toNat < p.nextId.toNat) (h : root.longestRun = 0) :
    NoCollision config RuleSet.default depth root p := by
  have hnone : ∀ n r, ¬Compares RuleSet.default root n r := by
    intro n r hr
    obtain ⟨id, id', filter, tags, j, rfl, ht, rfl⟩ := hr.default_eq
    have := List.countP_eq_zero.mp (absorptions_eq_zero_iff.mpr h) _ hr.1
    simp [joinBelow?, ht] at this
  have hcross : root.crossRuns = 0 := by
    rw [← sweep_eq_self h p.nextId, crossRuns_sweep]
  have hroom : p.nextId.toNat + root.crossRuns < UInt32.size := by
    rw [hcross]
    exact p.nextId.toNat_lt_size
  obtain ⟨apps, hlen, hpass⟩ :=
    pass_default config hdepth hv (fun n r hr => absurd hr (hnone n r)) p hroom hnew
  obtain rfl : apps = [] :=
    List.length_eq_zero_iff.mp (by rw [hlen, absorptions_eq_zero_iff.mpr h])
  rw [sweep_eq_self h, hcross, NodeId.plus_zero] at hpass
  intro m q hm
  have hsame : m = root ∧ q = p := by
    induction hm with
    | start => exact ⟨rfl, rfl⟩
    | pass _ hstep ih =>
      obtain ⟨rfl, rfl⟩ := ih
      rw [hpass] at hstep
      cases hstep
      exact ⟨rfl, rfl⟩
  obtain ⟨rfl, rfl⟩ := hsame
  exact fun n r hr => absurd hr (hnone n r)

/-! ### The normal form -/

/-- **Optimizing by the default rules computes the normal form**, as long as there
are ids left for the runs on cross joins. If there are more passes than the longest
run has selections, the result is the tree with every run replaced by one inner
join; each selection of a run goes away by one application, and the passes are one
more than the longest run has selections. With no more passes than that, there is
no fixpoint. -/
theorem optimize_default_eq_normal (plan : Plan) (config : Config)
    (hcheck : plan.root.check = none) (hnew : ∀ n ∈ plan.root.nodes, n.id < plan.nextId)
    (hroom : plan.nextId.toNat + plan.root.crossRuns < UInt32.size)
    (hc : NoCollision config RuleSet.default plan.root.height plan.root ⟨plan.nextId, []⟩) :
    (plan.root.longestRun < config.maxPasses → ∃ out : Optimized,
      plan.optimize config RuleSet.default = some (.ok out) ∧
        out.plan.root = normal plan.nextId [] plan.root ∧
        out.plan.nextId.toNat = plan.nextId.toNat + plan.root.crossRuns ∧
        out.passes = plan.root.longestRun + 1 ∧
        out.applied = plan.root.selectionsInRuns ∧
        out.trace.length = plan.root.selectionsInRuns ∧
        out.plan.root.nodes.length + plan.root.selectionsInRuns = plan.root.nodes.length) ∧
    (config.maxPasses ≤ plan.root.longestRun → plan.optimize config RuleSet.default =
      some (.error ⟨"optimizer", .noFixpoint config.maxPasses⟩)) := by
  have hids := toNat_lt_of_mem_ids hnew
  obtain ⟨hok, herr⟩ := passes_default config config.maxPasses 0
    (Nat.le_refl _) (check_eq_none_iff.mp hcheck) (p := ⟨plan.nextId, []⟩) hroom hids hc
  refine ⟨fun h => ?_, herr⟩
  obtain ⟨apps, hlen, hres⟩ := hok h
  refine ⟨_, hres, rfl, NodeId.toNat_plus hroom, by simp, by simp [hlen], by simp [hlen], ?_⟩
  rw [nodes_eq_preorder, nodes_eq_preorder, length_preorder, length_preorder]
  exact size_normal plan.nextId plan.root

/-- Two selections above a cross join, with a further run below its right side. -/
def nestedRuns : Plan where
  root :=
    ⟨7, .select (.key .gt 1) (some .withoutTag),
      [⟨6, .select (.cells "l.id" .eq "r.id") none,
        [⟨5, .crossJoin "l" "r",
          [⟨0, .source "a", []⟩,
            ⟨4, .select (.const true) none,
              [⟨3, .joinOn "r" "s" none none, [⟨1, .source "b", []⟩, ⟨2, .source "c", []⟩]⟩]⟩]⟩]⟩]⟩
  nextId := 8

theorem optimize_default_nestedRuns :
    nestedRuns.root.check = none ∧ nestedRuns.root.longestRun = 2 ∧
      ∃ out : Optimized, nestedRuns.optimize {} RuleSet.default = some (.ok out) ∧
        out.plan.root = normal 8 [] nestedRuns.root ∧ out.plan.nextId.toNat = 9 ∧
          out.passes = 3 ∧ out.applied = 3 ∧ out.trace.length = 3 ∧
            out.plan.root.nodes.length + 3 = 8 := by
  have hcheck : nestedRuns.root.check = none := by decide +kernel
  have hnew : ∀ n ∈ nestedRuns.root.nodes, n.id < nestedRuns.nextId := by decide +kernel
  have hroom : nestedRuns.nextId.toNat + nestedRuns.root.crossRuns < UInt32.size := by
    decide +kernel
  have hv := check_eq_none_iff.mp hcheck
  have hids := toNat_lt_of_mem_ids hnew
  have hnew' : ∀ n ∈ (sweep 8 nestedRuns.root).nodes, n.id < 9 := by decide +kernel
  have hids' := toNat_lt_of_mem_ids hnew'
  have hnew'' : ∀ n ∈ (sweep 9 (sweep 8 nestedRuns.root)).nodes, n.id < 9 := by decide +kernel
  have hids'' := toNat_lt_of_mem_ids hnew''
  have hroom' : (9 : NodeId).toNat + (sweep 8 nestedRuns.root).crossRuns < UInt32.size := by
    decide +kernel
  have hd : Distinguished nestedRuns.root := distinguished_of_all (by decide +kernel)
  have hd' : Distinguished (sweep 8 nestedRuns.root) := distinguished_of_all (by decide +kernel)
  have hv' := valid_sweep hroom hv hids
  obtain ⟨apps, -, hpass⟩ := pass_default {} (Nat.le_refl _) hv hd ⟨8, []⟩ hroom hids
  obtain ⟨apps', -, hpass'⟩ := pass_default {} (height_sweep_le 8 nestedRuns.root) hv' hd'
    ⟨9, apps ++ []⟩ hroom' hids'
  have hlast := noCollision_of_longestRun_eq_zero {} (p := ⟨9, apps' ++ (apps ++ [])⟩)
    (Nat.le_trans (height_sweep_le 9 _) (height_sweep_le 8 nestedRuns.root))
    (valid_sweep hroom' hv' hids') hids'' (by decide +kernel)
  have hc : NoCollision {} RuleSet.default nestedRuns.root.height nestedRuns.root ⟨8, []⟩ :=
    .before_pass hpass hd (.before_pass hpass' hd' hlast)
  exact ⟨hcheck, by decide +kernel,
    (optimize_default_eq_normal nestedRuns {} hcheck hnew hroom hc).1 (by decide +kernel)⟩

/-- One selection above a cross join of id 2. -/
def crossRun : Plan where
  root := ⟨3, .select (.const true) none,
    [⟨2, .crossJoin "l" "r", [⟨0, .source "a", []⟩, ⟨1, .source "b", []⟩]⟩]⟩
  nextId := 4

/-- The inner join that takes the place of a run on a cross join does not have the
id of the cross join. -/
theorem optimize_default_crossRun_id :
    crossRun.root.check = none ∧ (∀ n ∈ crossRun.root.nodes, n.id < crossRun.nextId) ∧
      crossRun.root.longestRun < 64 ∧ crossRun.root.inputs.map (·.id) = [2] ∧
        ∃ out : Optimized, crossRun.optimize {} RuleSet.default = some (.ok out) ∧
          out.plan.root.id ≠ 2 := by
  refine ⟨by decide +kernel, by decide +kernel, by decide +kernel, by decide +kernel, ?_⟩
  have h : (crossRun.optimize {} RuleSet.default).map (·.toOption.map (·.plan.root.id)) =
      some (some 4) := by decide +kernel
  obtain ⟨out, hopt, hid⟩ := exists_of_map_eq_some h
  exact ⟨out, hopt, by rw [hid]; decide⟩

end Optimize

end KeyedSeries

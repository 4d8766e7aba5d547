import KeyedSeries.Proofs.Optimize.Runs

/-!
# What a sweep keeps

Leaving the lowest selections of runs to their joins keeps a tree **valid**
(`KeyedSeries.PlanNode.valid_sweep`): the numbers of inputs stay right, and no id
stands twice, since new ids are drawn only for joins in the place of cross joins,
and from behind those of the tree (`KeyedSeries.PlanNode.ids_sweep`). A sweep makes
no tree higher, either (`KeyedSeries.PlanNode.height_sweep_le`).
-/

namespace KeyedSeries.PlanNode

/-! ### Inputs and heights -/

/-- A sweep keeps the numbers of inputs right. -/
theorem arityFits_sweep {n : PlanNode} (h : n.ArityFits) (next : NodeId) :
    (sweep next n).ArityFits := by
  induction n using inductionOnSweep generalizing next with
  | kept n hj ih =>
    rw [arityFits_iff, sweep_of_joinBelow?_eq_none next hj]
    refine ⟨by simpa [kind] using (arityFits_iff.mp h).1, fun m hm => ?_⟩
    obtain ⟨i, hi, next', rfl⟩ := mem_sweeps hm
    exact ih i hi (h.input hi) next'
  | absorbed id filter tags j ht ih =>
    have hjoin := h.input (m := j) (by simp)
    have harity : j.inputs.length = 2 := by
      rw [(arityFits_iff.mp hjoin).1]
      exact Operator.arity_of_takesSelections ht
    rw [arityFits_iff, sweep_select_of_takes next id filter tags ht]
    refine ⟨?_, fun m hm => ?_⟩
    · simp [kind, Operator.kind_absorbing_singleton ht, OperatorKind.arity, harity]
    · obtain ⟨i, hi, next', rfl⟩ := mem_sweeps hm
      exact ih i hi (hjoin.input hi) next'

@[simp] theorem heights_cons (n : PlanNode) (rest : List PlanNode) :
    heights (n :: rest) = max n.height (heights rest) := by rw [heights]

theorem height_eq (n : PlanNode) : n.height = 1 + heights n.inputs := by
  obtain ⟨id, op, inputs⟩ := n
  rw [height]

theorem heights_le_iff {l : List PlanNode} {k : Nat} : heights l ≤ k ↔ ∀ n ∈ l, n.height ≤ k := by
  induction l with
  | nil => simp [heights]
  | cons n rest ih =>
    rw [heights_cons, List.forall_mem_cons, ← ih]
    omega

/-- A sweep makes no tree higher. -/
theorem height_sweep_le (next : NodeId) (n : PlanNode) : (sweep next n).height ≤ n.height := by
  have hbelow : ∀ {l : List PlanNode} (next : NodeId),
      (∀ m ∈ l, ∀ next, (sweep next m).height ≤ m.height) →
        heights (sweeps next l) ≤ heights l := by
    intro l next h
    refine heights_le_iff.mpr fun i hi => ?_
    obtain ⟨m, hm, next', rfl⟩ := mem_sweeps hi
    exact Nat.le_trans (h m hm next') (heights_le_iff.mp (Nat.le_refl _) m hm)
  induction n using inductionOnSweep generalizing next with
  | kept n hj ih =>
    rw [height_eq n, sweep_of_joinBelow?_eq_none next hj, height_eq]
    exact Nat.add_le_add_left (hbelow next ih) 1
  | absorbed id filter tags j ht ih =>
    have hinputs := hbelow (if j.kind = .crossJoin then next + 1 else next) ih
    rw [height_eq ⟨id, _, _⟩, sweep_select_of_takes next id filter tags ht, height_eq, heights_cons,
      height_eq j]
    simp only
    omega

/-! ### Ids after a sweep -/

/-- Whether the run that has the node as its lowest selection gets a new id. -/
theorem crossRuns_eq (n : PlanNode) :
    n.crossRuns = (preorders n.inputs).countP isAboveCross + if n.isAboveCross then 1 else 0 := by
  rw [crossRuns, preorder_eq, List.countP_cons]

/-- The runs on cross joins below a selection that goes into its join are those
below the join. -/
theorem crossRuns_select_of_takes (id : NodeId) (filter : Filter) (tags : Option TagFilter)
    {j : PlanNode} (h : j.op.takesSelections = true) :
    crossRuns ⟨id, .select filter tags, [j]⟩ =
      (preorders j.inputs).countP isAboveCross + if j.kind = .crossJoin then 1 else 0 := by
  have hj : j.isAboveCross = false := by
    by_contra hcross
    obtain ⟨_, _, _, _, rfl, -⟩ := isAboveCross_iff.mp (by simpa using hcross)
    simp [Operator.takesSelections] at h
  rw [crossRuns_eq, preorders_cons, preorders_nil, List.append_nil, preorder_eq j,
    List.countP_cons, hj]
  have hroot : isAboveCross ⟨id, .select filter tags, [j]⟩ = decide (j.kind = .crossJoin) := by
    rw [Bool.eq_iff_iff, isAboveCross_iff, decide_eq_true_eq]
    constructor
    · rintro ⟨_, _, _, j', heq, hk⟩
      cases heq
      exact hk
    · exact fun hk => ⟨id, filter, tags, j, rfl, hk⟩
  rw [hroot]
  simp

/-- The ids of swept trees are old ones, or new ones from those that the trees are
given. -/
theorem allIds_sweeps {l : List PlanNode}
    (h : ∀ n ∈ l, ∀ next : NodeId, next.toNat + n.crossRuns < UInt32.size →
      ∀ i ∈ (sweep next n).ids,
        i ∈ n.ids ∨ next.toNat ≤ i.toNat ∧ i.toNat < next.toNat + n.crossRuns)
    {next : NodeId} (hroom : next.toNat + (preorders l).countP isAboveCross < UInt32.size) :
    ∀ i ∈ allIds (sweeps next l), i ∈ allIds l ∨
      next.toNat ≤ i.toNat ∧ i.toNat < next.toNat + (preorders l).countP isAboveCross := by
  induction l generalizing next with
  | nil => simp [sweeps]
  | cons n rest ih =>
    intro i hi
    rw [sweeps, allIds_cons, List.mem_append] at hi
    rw [preorders_cons, List.countP_append, ← crossRuns] at hroom ⊢
    rw [allIds_cons, List.mem_append]
    have hplus := NodeId.toNat_plus (i := next) (k := n.crossRuns) (by omega)
    -- The ids drawn for the first tree come before those for the rest.
    rcases hi with hi | hi
    · rcases h n List.mem_cons_self next (by omega) i hi with hn | hn
      · exact .inl (.inl hn)
      · exact .inr ⟨hn.1, by omega⟩
    · rcases ih (fun m hm => h m (List.mem_cons_of_mem _ hm)) (by omega) i hi with hr | hr
      · exact .inl (.inr hr)
      · exact .inr ⟨by omega, by omega⟩

/-- **A sweep draws its new ids from where they start**, one for every run on a
cross join. -/
theorem ids_sweep {next : NodeId} {n : PlanNode} (hroom : next.toNat + n.crossRuns < UInt32.size) :
    ∀ i ∈ (sweep next n).ids,
      i ∈ n.ids ∨ next.toNat ≤ i.toNat ∧ i.toNat < next.toNat + n.crossRuns := by
  induction n using inductionOnSweep generalizing next with
  | kept n hj ih =>
    intro i hi
    rw [sweep_of_joinBelow?_eq_none next hj, ids_eq] at hi
    rw [crossRuns_eq] at hroom ⊢
    rw [ids_eq]
    rcases List.mem_cons.mp hi with rfl | hi
    · exact .inl List.mem_cons_self
    · rcases allIds_sweeps (fun m hm _ hm' => ih m hm hm') (by omega) i hi with h | h
      · exact .inl (List.mem_cons_of_mem _ h)
      · exact .inr ⟨h.1, by omega⟩
  | absorbed id filter tags j ht ih =>
    intro i hi
    rw [sweep_select_of_takes next id filter tags ht, ids_eq] at hi
    rw [crossRuns_select_of_takes id filter tags ht] at hroom ⊢
    rw [ids_eq, allIds_cons, ids_eq j]
    have hbelow {next : NodeId}
        (hr : next.toNat + (preorders j.inputs).countP isAboveCross < UInt32.size) :=
      allIds_sweeps (fun m hm _ hm' => ih m hm hm') hr
    by_cases hk : j.kind = .crossJoin
    · -- The new join has the first new id.
      simp only [hk, if_true] at hi hroom ⊢
      have hone := NodeId.toNat_plus (i := next) (k := 1) (by omega)
      rw [NodeId.plus_one] at hone
      rcases List.mem_cons.mp hi with rfl | hi
      · exact .inr ⟨Nat.le_refl _, by omega⟩
      · rcases hbelow (by omega) i hi with h | h
        · exact .inl (by simp [h])
        · exact .inr ⟨by omega, by omega⟩
    · simp only [hk, if_false] at hi hroom ⊢
      rcases List.mem_cons.mp hi with rfl | hi
      · exact .inl (by simp)
      · rcases hbelow (by omega) i hi with h | h
        · exact .inl (by simp [h])
        · exact .inr ⟨h.1, by omega⟩

theorem nodup_allIds_sweeps {l : List PlanNode} {next : NodeId}
    (h : ∀ n ∈ l, ∀ next : NodeId, next.toNat + n.crossRuns < UInt32.size → n.ids.Nodup →
      (∀ i ∈ n.ids, i.toNat < next.toNat) → (sweep next n).ids.Nodup)
    (hroom : next.toNat + (preorders l).countP isAboveCross < UInt32.size)
    (hd : (allIds l).Nodup) (hnew : ∀ i ∈ allIds l, i.toNat < next.toNat) :
    (allIds (sweeps next l)).Nodup := by
  induction l generalizing next with
  | nil => simp [sweeps]
  | cons n rest ih =>
    rw [allIds_cons, List.nodup_append] at hd
    simp only [allIds_cons, List.mem_append] at hnew
    rw [preorders_cons, List.countP_append, ← crossRuns] at hroom
    rw [sweeps, allIds_cons, List.nodup_append]
    have hplus := NodeId.toNat_plus (i := next) (k := n.crossRuns) (by omega)
    refine ⟨h n List.mem_cons_self next (by omega) hd.1 fun i hi => hnew i (.inl hi), ?_, ?_⟩
    · refine ih (fun m hm => h m (List.mem_cons_of_mem _ hm)) (by omega) hd.2.1 fun i hi => ?_
      have := hnew i (.inr hi)
      omega
    · -- Old ids differ from each other, and the new ones of the rest come after all others.
      intro a ha b hb hab
      subst hab
      have hn := ids_sweep (by omega) a ha
      have hr := allIds_sweeps (fun m _ _ hm => ids_sweep hm) (by omega) a hb
      rcases hn with hn | hn
      · rcases hr with hr | hr
        · exact hd.2.2 a hn a hr rfl
        · have := hnew a (.inl hn)
          omega
      · rcases hr with hr | hr
        · have := hnew a (.inr hr)
          omega
        · omega

/-- **No id stands twice after a sweep** that draws its ids from behind those of
the tree. -/
theorem nodup_ids_sweep {n : PlanNode} {next : NodeId}
    (hroom : next.toNat + n.crossRuns < UInt32.size) (hd : n.ids.Nodup)
    (hnew : ∀ i ∈ n.ids, i.toNat < next.toNat) : (sweep next n).ids.Nodup := by
  have hids {l : List PlanNode} {next : NodeId}
      (hr : next.toNat + (preorders l).countP isAboveCross < UInt32.size) :=
    allIds_sweeps (fun m _ _ hm => ids_sweep hm) hr
  induction n using inductionOnSweep generalizing next with
  | kept n hj ih =>
    rw [ids_eq, List.nodup_cons] at hd
    rw [crossRuns_eq] at hroom
    simp only [ids_eq, List.mem_cons, forall_eq_or_imp] at hnew
    rw [sweep_of_joinBelow?_eq_none next hj, ids_eq, List.nodup_cons]
    refine ⟨fun hmem => ?_, nodup_allIds_sweeps (fun m hm _ hr => ih m hm hr) (by omega) hd.2
      hnew.2⟩
    rcases hids (by omega) _ hmem with h | h
    · exact hd.1 h
    · exact absurd hnew.1 (Nat.not_lt.mpr h.1)
  | absorbed id filter tags j ht ih =>
    simp only [ids_eq ⟨id, _, _⟩, ids_eq j, allIds_cons, allIds_nil, List.append_nil,
      List.nodup_cons, List.mem_cons, forall_eq_or_imp] at hd hnew
    rw [crossRuns_select_of_takes id filter tags ht] at hroom
    rw [sweep_select_of_takes next id filter tags ht, ids_eq, List.nodup_cons]
    by_cases hk : j.kind = .crossJoin
    · simp only [hk, if_true] at hroom ⊢
      have hone := NodeId.toNat_plus (i := next) (k := 1) (by omega)
      rw [NodeId.plus_one] at hone
      refine ⟨fun hmem => ?_, nodup_allIds_sweeps (fun m hm _ hr => ih m hm hr) (by omega) hd.2.2
        fun i hi => ?_⟩
      · rcases hids (by omega) _ hmem with h | h
        · have := hnew.2.2 _ h
          omega
        · omega
      · have := hnew.2.2 i hi
        omega
    · simp only [hk, if_false] at hroom ⊢
      refine ⟨fun hmem => ?_, nodup_allIds_sweeps (fun m hm _ hr => ih m hm hr) (by omega) hd.2.2
        hnew.2.2⟩
      rcases hids (by omega) _ hmem with h | h
      · exact hd.2.1 h
      · have := hnew.2.1
        omega

/-- **A sweep keeps a tree valid.** -/
theorem valid_sweep {n : PlanNode} {next : NodeId} (hroom : next.toNat + n.crossRuns < UInt32.size)
    (h : n.Valid) (hnew : ∀ i ∈ n.ids, i.toNat < next.toNat) : (sweep next n).Valid :=
  ⟨arityFits_sweep h.arity next, nodup_ids_sweep hroom h.nodup hnew⟩

end KeyedSeries.PlanNode

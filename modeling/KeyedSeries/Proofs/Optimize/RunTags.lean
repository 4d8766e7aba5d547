import KeyedSeries.Proofs.Optimize.NormalForm
import KeyedSeries.Proofs.Optimize.Settled

/-!
# The tags that a run leaves to its join

Selections ask for tags as well as for rows, and so does an inner join. Of all
the tag filters of a run and its join **only that of the topmost selection is
left** in the join that takes the place of the run, and above a cross join a
selection that stands alone leaves none
(`KeyedSeries.Optimize.tags_of_optimize_default`).

Where a run ended up in the optimized plan is not a matter of ids, since a run on
a cross join gets a new one. `KeyedSeries.Optimize.RunsReplaced` goes down the
plan and the optimized plan side by side instead: a run and its join on the one
side are met by a single node on the other, any other node is met by itself.

An optimization that ends well has computed the normal form of the plan
(`KeyedSeries.Optimize.eq_normal_of_optimize_default`), whatever the digest made
of the trees on the way: a digest that mistakes a replacement for what it
replaces makes the optimization fail.
-/

namespace KeyedSeries

open PlanNode

namespace Optimize

variable {config : Config}

/-! ### Passes that end well -/

/-- A selection that a pass gets past right above a join went into the join. -/
theorem eq_absorbing_of_applyFirst {id : NodeId} {filter : Filter} {tags : Option TagFilter}
    {j r : PlanNode} {p q : Progress} (ht : j.op.takesSelections = true)
    (ha : ArityFits ⟨id, .select filter tags, [j]⟩)
    (h : applyFirst config RuleSet.default ⟨id, .select filter tags, [j]⟩ p = .ok (r, q)) :
    r = ⟨if j.kind = .crossJoin then p.nextId else j.id, j.op.absorbing [⟨filter, tags⟩],
        j.inputs⟩ ∧
      q.nextId = if j.kind = .crossJoin then p.nextId + 1 else p.nextId := by
  have happ : selectIntoJoin.applies ⟨id, .select filter tags, [j]⟩ = true := by
    rw [applies_eq_isSome ha]
    simp [joinBelow?, ht]
  have hfind := find?_default ⟨id, .select filter tags, [j]⟩
  rw [if_pos happ] at hfind
  rcases applyFirst_eq_ok_iff.mp h with ⟨hnone, -⟩ | ⟨rule, hrule, hdone⟩
  · rw [hfind] at hnone
    cases hnone
  · obtain rfl : selectIntoJoin = rule := by simpa [hfind] using hrule
    obtain ⟨next, hrun, -, -, rfl⟩ := applyRule_eq_ok_iff.mp hdone
    rw [run_transform id filter tags ht] at hrun
    cases hrun
    exact ⟨rfl, rfl⟩

theorem eq_sweeps_of_eachInput
    {f : PlanNode → Progress → Option (Except RuleError (PlanNode × Progress))}
    {l out : List PlanNode} {p q : Progress}
    (hf : ∀ n ∈ l, ∀ m p q, f n p = some (.ok (m, q)) →
      m = sweep p.nextId n ∧ q.nextId = p.nextId.plus n.crossRuns)
    (h : eachInput f l p = some (.ok (out, q))) :
    out = sweeps p.nextId l ∧
      q.nextId = p.nextId.plus ((preorders l).countP isAboveCross) := by
  induction l generalizing out p with
  | nil =>
    cases h
    exact ⟨by rw [sweeps], (NodeId.plus_zero _).symm⟩
  | cons n rest ih =>
    obtain ⟨n', p', rest', hn, hrest, rfl⟩ := eachInput_cons_eq_ok_iff.mp h
    obtain ⟨rfl, hnext⟩ := hf n List.mem_cons_self _ _ _ hn
    obtain ⟨rfl, hnext'⟩ := ih (fun m hm => hf m (List.mem_cons_of_mem _ hm)) hrest
    refine ⟨by rw [sweeps, hnext], ?_⟩
    rw [hnext', hnext, preorders_cons, List.countP_append, crossRuns, NodeId.plus_plus]

/-- **A pass with the default rules that ends well is a sweep**, and it has drawn one
id for every run on a cross join. -/
theorem eq_sweep_of_pass {depth : Nat} {n m : PlanNode} {p q : Progress} (ha : n.ArityFits)
    (h : pass config RuleSet.default depth n p = some (.ok (m, q))) :
    m = sweep p.nextId n ∧ q.nextId = p.nextId.plus n.crossRuns := by
  induction depth generalizing n m p q with
  | zero => cases h
  | succ depth ih =>
    obtain ⟨r, p', inputs, hfirst, hinputs, rfl⟩ := pass_succ_eq_ok_iff.mp h
    cases hj : n.joinBelow? with
    | none =>
      rw [applyFirst_of_joinBelow?_eq_none config hj] at hfirst
      cases hfirst
      obtain ⟨rfl, hnext⟩ := eq_sweeps_of_eachInput (fun i hi _ _ _ => ih (ha.input hi)) hinputs
      refine ⟨(sweep_of_joinBelow?_eq_none _ hj).symm, ?_⟩
      rw [hnext, crossRuns_eq, isAboveCross, hj]
      simp
    | some j =>
      obtain ⟨id, filter, tags, rfl, ht⟩ := joinBelow?_eq_some.mp hj
      obtain ⟨rfl, hnext⟩ := eq_absorbing_of_applyFirst ht ha hfirst
      have hjoin := ha.input (m := j) (by simp)
      obtain ⟨rfl, hnext'⟩ := eq_sweeps_of_eachInput (fun i hi _ _ _ => ih (hjoin.input hi)) hinputs
      refine ⟨by rw [sweep_select_of_takes p.nextId id filter tags ht, hnext], ?_⟩
      rw [hnext', hnext, crossRuns_select_of_takes id filter tags ht]
      by_cases hk : j.kind = .crossJoin
      · rw [if_pos hk, if_pos hk, ← NodeId.plus_one, NodeId.plus_plus, Nat.add_comm]
      · rw [if_neg hk, if_neg hk, Nat.add_zero]

/-- No run is left in a tree at which no default rule applies. -/
theorem longestRun_eq_zero_of_settled {n : PlanNode} (ha : n.ArityFits)
    (h : Settled RuleSet.default n) : n.longestRun = 0 := by
  rw [← absorptions_eq_zero_iff, absorptions, List.countP_eq_zero]
  intro m hm hjoin
  have happ := h m hm selectIntoJoin List.mem_cons_self
  rw [applies_eq_isSome (ha.below hm), hjoin] at happ
  cases happ

theorem eq_normal_of_passes {depth left made : Nat} {root : PlanNode} {p : Progress}
    {out : Optimized} (ha : root.ArityFits)
    (h : passes config RuleSet.default depth left made root p = some (.ok out)) :
    out.plan.root = normal p.nextId [] root := by
  induction left generalizing made root p with
  | zero => cases h
  | succ left ih =>
    obtain ⟨root', p', hpass, ⟨hsilent, rfl⟩ | ⟨-, hrest⟩⟩ := passes_succ_eq_ok_iff.mp h
    -- The last pass found no run.
    · obtain ⟨hsettled, -, rfl, -⟩ := silent_pass_iff.mp ⟨hpass, hsilent⟩
      exact (normal_eq_self (longestRun_eq_zero_of_settled ha hsettled) p.nextId).symm
    -- Any other pass was a sweep, which the normal form outlives.
    · obtain ⟨rfl, -⟩ := eq_sweep_of_pass ha hpass
      rw [ih (arityFits_sweep ha _) hrest, normal_sweep _ _ _ [] (.inl rfl)]

/-- **Optimizing by the default rules computes the normal form if it ends well.** -/
theorem eq_normal_of_optimize_default {plan : Plan} {out : Optimized} (ha : plan.root.ArityFits)
    (h : plan.optimize config RuleSet.default = some (.ok out)) :
    out.plan.root = normal plan.nextId [] plan.root :=
  eq_normal_of_passes ha h

end Optimize

/-! ### Runs as a whole -/

namespace PlanNode

theorem stacked_append_singleton (n : PlanNode) (l : List (NodeId × Selection)) (id : NodeId)
    (s : Selection) :
    stacked n (l ++ [(id, s)]) = ⟨id, .select s.filter s.tags, [stacked n l]⟩ := by
  induction l generalizing n with
  | nil => rfl
  | cons a l ih => exact ih _

@[simp] theorem size_stacked (n : PlanNode) (l : List (NodeId × Selection)) :
    (stacked n l).size = n.size + l.length := by
  induction l generalizing n with
  | nil => rfl
  | cons a l ih =>
    rw [stacked, ih]
    simp only [size_mk, sizes_cons, sizes_nil, List.length_cons]
    omega

/-- A node of a run stands on top of all selections between it and its join. -/
theorem exists_stacked {n : PlanNode} {k : Nat} (h : n.runLength? = some k) :
    ∃ j l, j.op.takesSelections = true ∧ l.length = k ∧ n = stacked j l := by
  induction k generalizing n with
  | zero => exact ⟨n, [], takes_of_runLength?_eq_zero h, rfl, rfl⟩
  | succ k ih =>
    by_cases hs : ∃ id filter tags m, n = ⟨id, .select filter tags, [m]⟩
    · obtain ⟨id, filter, tags, m, rfl⟩ := hs
      obtain ⟨j, l, hj, hl, rfl⟩ := ih (n := m) (by simpa using h)
      refine ⟨j, l ++ [(id, ⟨filter, tags⟩)], hj, by simp [hl], ?_⟩
      exact (stacked_append_singleton j l id ⟨filter, tags⟩).symm
    · rw [runLength?_of_ne fun id filter tags m hn => hs ⟨id, filter, tags, m, hn⟩] at h
      split at h <;> cases h

/-- What a run becomes, said of its topmost selection. -/
theorem normal_stacked_concat {j : PlanNode} (h : j.op.takesSelections = true) (next : NodeId)
    (below : List (NodeId × Selection)) (top : NodeId × Selection) :
    normal next [] (stacked j (below ++ [top])) =
      ⟨if j.kind = .crossJoin then next else j.id,
        j.op.absorbing (below.map (·.2) ++ [top.2]),
        normals (if j.kind = .crossJoin then next + 1 else next) j.inputs⟩ := by
  obtain ⟨first, above, hfirst⟩ := List.exists_cons_of_ne_nil (l := below ++ [top]) (by simp)
  have hlist : below.map (·.2) ++ [top.2] = first.2 :: above.map (·.2) := by
    rw [← List.map_cons, ← hfirst, List.map_append]
    rfl
  rw [hlist, hfirst, normal_stacked h]

/-- Outside of runs the normal form goes on with the inputs. -/
theorem normal_of_runLength_eq_zero {n : PlanNode} (h : n.runLength = 0) (next : NodeId) :
    normal next [] n = ⟨n.id, n.op, normals next n.inputs⟩ := by
  by_cases hs : ∃ id filter tags m, n = ⟨id, .select filter tags, [m]⟩
  · obtain ⟨id, filter, tags, m, rfl⟩ := hs
    rw [runLength, runLength?_select] at h
    cases hr : m.runLength? with
    | none => simp [normal_select, hr, normals]
    | some k => simp [hr] at h
  · rw [normal_of_ne fun id filter tags m hn => hs ⟨id, filter, tags, m, hn⟩]
    simp

theorem forall₂_normals {R : PlanNode → PlanNode → Prop} {l : List PlanNode}
    (h : ∀ n ∈ l, ∀ next, R n (normal next [] n)) (next : NodeId) :
    List.Forall₂ R l (normals next l) := by
  induction l generalizing next with
  | nil =>
    rw [normals]
    exact .nil
  | cons n rest ih =>
    rw [normals]
    exact .cons (h n List.mem_cons_self next) (ih (fun m hm => h m (List.mem_cons_of_mem _ hm)) _)

end PlanNode

namespace Optimize

/-- The second tree is the first one with every run and its join replaced by one
node. `R join below top op` is what is known of the operator `op` of that node, if
`top` is the topmost selection of the run and `below` are the others, the lowest
one first. -/
inductive RunsReplaced (R : Operator → List Selection → Selection → Operator → Prop) :
    PlanNode → PlanNode → Prop
  /-- A run is met by one node. -/
  | run {j : PlanNode} {below : List (NodeId × Selection)} {topId id : NodeId} {top : Selection}
      {op : Operator} {inputs : List PlanNode} : j.op.takesSelections = true →
    R j.op (below.map (·.2)) top op → List.Forall₂ (RunsReplaced R) j.inputs inputs →
      RunsReplaced R (stacked j (below ++ [(topId, top)])) ⟨id, op, inputs⟩
  /-- A node that is no selection of a run stays. -/
  | node {n : PlanNode} {inputs : List PlanNode} : n.runLength = 0 →
    List.Forall₂ (RunsReplaced R) n.inputs inputs → RunsReplaced R n ⟨n.id, n.op, inputs⟩

/-- **The normal form replaces every run** by what the join becomes with all its
selections. -/
theorem runsReplaced_normal {R : Operator → List Selection → Selection → Operator → Prop}
    (hR : ∀ join below top, join.takesSelections = true →
      R join below top (join.absorbing (below ++ [top]))) (n : PlanNode) (next : NodeId) :
    RunsReplaced R n (normal next [] n) := by
  induction hsize : n.size using Nat.strongRecOn generalizing n next with
  | _ size ih =>
    subst hsize
    cases hlen : n.runLength with
    | zero =>
      rw [normal_of_runLength_eq_zero hlen]
      refine .node hlen (forall₂_normals (fun m hm next => ih _ ?_ m next rfl) next)
      have hle := size_le_of_mem hm
      rw [size_eq n]
      omega
    | succ k =>
      have hrun : n.runLength? = some (k + 1) := by
        rw [runLength] at hlen
        cases hr : n.runLength? with
        | none => simp [hr] at hlen
        | some _ => simpa [hr] using hlen
      obtain ⟨j, l, hj, hl, rfl⟩ := exists_stacked hrun
      -- The topmost selection is the last one of the list.
      obtain rfl | ⟨below, ⟨topId, top⟩, rfl⟩ := List.eq_nil_or_concat' l
      · cases hl
      rw [normal_stacked_concat hj]
      refine .run hj (hR _ _ _ hj) (forall₂_normals (fun m hm next => ih _ ?_ m next rfl) _)
      have hle := size_le_of_mem hm
      rw [size_stacked, size_eq j]
      omega

/-! ### Tags -/

/-- An inner join that accepts the tags that the topmost selection of a run accepts,
and all tags if the run is that selection alone, on a cross join. -/
def LeavesTopmostTags (join : Operator) (below : List Selection) (top : Selection)
    (op : Operator) : Prop :=
  ∃ left right condition tags algorithm, op = .innerJoin left right condition tags algorithm ∧
    ∀ t : Tags, TagFilter.accepts tags t = true ↔
      (join.kind = .crossJoin ∧ below = []) ∨ TagFilter.accepts top.tags t = true

theorem leavesTopmostTags_absorbing {join : Operator} (below : List Selection) (top : Selection)
    (h : join.takesSelections = true) :
    LeavesTopmostTags join below top (join.absorbing (below ++ [top])) := by
  cases join with
  | crossJoin left right =>
    refine ⟨left, right, _, _, _, by rw [Operator.absorbing, List.getLast?_concat]; rfl,
      fun t => ?_⟩
    cases below with
    | nil => simp [Operator.kind, TagFilter.accepts]
    | cons s below => simp
  | innerJoin left right condition old algorithm =>
    refine ⟨left, right, _, _, _, by rw [Operator.absorbing, List.getLast?_concat]; rfl,
      fun t => ?_⟩
    simp [Operator.kind]
  | _ => simp [Operator.takesSelections] at h

/-- **The tag filter of the topmost selection is the only one left of a run.** In a
plan that is optimized by the default rules, the join that takes the place of a
run accepts the tags that the topmost selection of the run accepted; those of the
selections below and of the join itself ask for no tags any more. If the run is a
single selection on a cross join, its tag filter is gone as well. -/
theorem tags_of_optimize_default (plan : Plan) (config : Config) (out : Optimized)
    (hcheck : plan.root.check = none)
    (h : plan.optimize config RuleSet.default = some (.ok out)) :
    RunsReplaced LeavesTopmostTags plan.root out.plan.root := by
  rw [eq_normal_of_optimize_default (check_eq_none_iff.mp hcheck).arity h]
  exact runsReplaced_normal (fun join below top => leavesTopmostTags_absorbing below top) _ _

/-- A selection by tags above an inner join on other tags, with a selection by tags
above a cross join below its left side. -/
def taggedRuns : Plan where
  root :=
    ⟨6, .select (.const true) (some (.base "host" "a")),
      [⟨5, .joinOn "q" "r" none (some .withoutTag),
        [⟨4, .select (.key .gt 1) (some (.base "host" "b")),
          [⟨3, .crossJoin "a" "b", [⟨0, .source "a", []⟩, ⟨1, .source "b", []⟩]⟩]⟩,
        ⟨2, .source "c", []⟩]⟩]⟩
  nextId := 7

theorem tags_of_optimize_default_taggedRuns :
    taggedRuns.root.check = none ∧ ∃ out : Optimized,
      taggedRuns.optimize {} RuleSet.default = some (.ok out) ∧
        RunsReplaced LeavesTopmostTags taggedRuns.root out.plan.root := by
  have hcheck : taggedRuns.root.check = none := by decide
  refine ⟨hcheck, ?_⟩
  have h : (taggedRuns.optimize {} RuleSet.default).map (·.toOption.map (·.applied)) =
      some (some 2) := by decide +kernel
  obtain ⟨out, hopt, -⟩ := exists_of_map_eq_some h
  exact ⟨out, hopt, tags_of_optimize_default taggedRuns {} out hcheck hopt⟩

/-- What the tag filter of an inner join makes of some tags. -/
def acceptsTags? (tags : Tags) : Operator → Option Bool
  | .innerJoin _ _ _ filter _ => some (TagFilter.accepts filter tags)
  | _ => none

/-- **Restrictions by tags get lost.** The selection above the cross join does not
accept a series without tags, and the inner join does not accept one that has
tags; the joins that take the places of the two runs accept them. -/
theorem tags_lost_taggedRuns :
    taggedRuns.root.check = none ∧ TagFilter.accepts (some (.base "host" "b")) .empty = false ∧
      TagFilter.accepts (some .withoutTag) (OrderedMap.ofList [("host", "a")]) = false ∧
      ∃ out : Optimized, taggedRuns.optimize {} RuleSet.default = some (.ok out) ∧
        out.plan.root.inputs.head?.bind (fun n => acceptsTags? .empty n.op) = some true ∧
        acceptsTags? (OrderedMap.ofList [("host", "a")]) out.plan.root.op = some true := by
  refine ⟨by decide, by decide, by decide, ?_⟩
  have h : (taggedRuns.optimize {} RuleSet.default).map (·.toOption.map fun out =>
      (out.plan.root.inputs.head?.bind fun n => acceptsTags? .empty n.op,
        acceptsTags? (OrderedMap.ofList [("host", "a")]) out.plan.root.op)) =
      some (some (some true, some true)) := by decide +kernel
  obtain ⟨out, hopt, hout⟩ := exists_of_map_eq_some h
  injection hout with hleft hroot
  exact ⟨out, hopt, hleft, hroot⟩

end Optimize

end KeyedSeries

import Mathlib.Data.List.Basic
import KeyedSeries.Proofs.Optimize.Runs

/-!
# The rule that leaves a selection to the join below it

The rule applies to the lowest selection of a run
(`KeyedSeries.applies_selectIntoJoin`), and what takes the place of the selection
and its join is one join that has absorbed the selection
(`KeyedSeries.replaced_by_selectIntoJoin`).
-/

namespace KeyedSeries

open PlanNode

/-- **The rule applies right above a join that takes selections**, if that join has
its two inputs. -/
theorem applies_selectIntoJoin {n : PlanNode} :
    selectIntoJoin.applies n = true ↔ ∃ j, n.joinBelow? = some j ∧ j.inputs.length = 2 := by
  constructor
  · intro h
    obtain ⟨id, op, inputs⟩ := n
    cases op with
    | select filter tags =>
      obtain _ | ⟨⟨jid, jop, jinputs⟩, _ | ⟨_, _⟩⟩ := inputs
      · simp [Rule.applies, selectIntoJoin, Shape.bind?] at h
      · obtain _ | ⟨a, _ | ⟨b, _ | ⟨_, _⟩⟩⟩ := jinputs
        · simp [Rule.applies, selectIntoJoin, Shape.bind?, Shape.bindAll?] at h
        · simp [Rule.applies, selectIntoJoin, Shape.bind?, Shape.bindAll?] at h
        · refine ⟨⟨jid, jop, [a, b]⟩, ?_, rfl⟩
          cases jop <;>
            simp_all [Rule.applies, selectIntoJoin, Shape.bind?, Shape.bindAll?, kind,
              Operator.kind, OperatorClass.accepts, OperatorKind.isJoin, SelectIntoJoin.isTarget,
              Binding.at?, joinBelow?, Operator.takesSelections]
        · simp [Rule.applies, selectIntoJoin, Shape.bind?, Shape.bindAll?] at h
      · simp [Rule.applies, selectIntoJoin, Shape.bind?] at h
    | _ =>
      simp [Rule.applies, selectIntoJoin, Shape.bind?, kind, Operator.kind,
        OperatorClass.accepts] at h
  · rintro ⟨j, hj, hlen⟩
    obtain ⟨id, filter, tags, rfl, ht⟩ := joinBelow?_eq_some.mp hj
    obtain ⟨jid, jop, jinputs⟩ := j
    obtain ⟨a, b, rfl⟩ := List.length_eq_two.mp hlen
    cases jop <;> first | rfl | cases ht

/-- In a tree with the right numbers of inputs, the rule applies to the lowest
selections of runs. -/
theorem applies_eq_isSome {n : PlanNode} (h : n.ArityFits) :
    selectIntoJoin.applies n = n.joinBelow?.isSome := by
  rw [Bool.eq_iff_iff, applies_selectIntoJoin, Option.isSome_iff_exists]
  refine ⟨fun ⟨j, hj, _⟩ => ⟨j, hj⟩, fun ⟨j, hj⟩ => ⟨j, hj, ?_⟩⟩
  obtain ⟨id, filter, tags, rfl, ht⟩ := joinBelow?_eq_some.mp hj
  rw [(arityFits_iff.mp (h.input (m := j) (by simp))).1]
  exact Operator.arity_of_takesSelections ht

/-- What takes the place of a selection that goes into the join below it. -/
theorem run_transform (id : NodeId) (filter : Filter) (tags : Option TagFilter) {j : PlanNode}
    (h : j.op.takesSelections = true) (next : NodeId) :
    (selectIntoJoin.transform ⟨id, .select filter tags, [j]⟩).run next =
      .ok (⟨if j.kind = .crossJoin then next else j.id, j.op.absorbing [⟨filter, tags⟩], j.inputs⟩,
        if j.kind = .crossJoin then next + 1 else next) := by
  obtain ⟨jid, op, inputs⟩ := j
  cases op <;> simp [Operator.takesSelections] at h <;> rfl

/-- **What the rule replaces and by what**: a selection with the join below it, by
the join that absorbed the selection. The new join of a cross join has a new id. -/
theorem replaced_by_selectIntoJoin {n r : PlanNode} {next next' : NodeId}
    (happ : selectIntoJoin.applies n = true)
    (hrun : (selectIntoJoin.transform n).run next = .ok (r, next')) :
    ∃ id filter tags j, n = ⟨id, .select filter tags, [j]⟩ ∧ j.op.takesSelections = true ∧
      r = ⟨if j.kind = .crossJoin then next else j.id, j.op.absorbing [⟨filter, tags⟩],
        j.inputs⟩ ∧
      next' = if j.kind = .crossJoin then next + 1 else next := by
  obtain ⟨j, hj, -⟩ := applies_selectIntoJoin.mp happ
  obtain ⟨id, filter, tags, rfl, ht⟩ := joinBelow?_eq_some.mp hj
  rw [run_transform id filter tags ht] at hrun
  injection hrun with hpair
  injection hpair with hr hnext
  exact ⟨id, filter, tags, j, rfl, ht, hr.symm, hnext.symm⟩

end KeyedSeries

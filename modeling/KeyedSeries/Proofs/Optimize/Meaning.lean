import KeyedSeries.Proofs.Filter.Conjuncts
import KeyedSeries.Proofs.Optimize.Pass
import KeyedSeries.Proofs.Optimize.SelectIntoJoin

/-!
# Optimizing keeps what a plan says

A plan is read as the list of rows that it yields
(`KeyedSeries.PlanNode.rows`). What rows are, what the sources hold, how two rows
become one, and what the operators do that no rule looks into is left to an
`KeyedSeries.Interpretation`; joins and selections are read literally, a join by
the *algorithm* that it carries and not by its condition.

A join that takes a selection has its algorithm chosen anew, and so the plan keeps
its rows only because the algorithm that is chosen for a condition keeps the pairs
that the condition accepts (`KeyedSeries.JoinAlgorithm.keeps_choose`). This is
where the assumption comes from that every inner join of the plan carries the
algorithm of its condition (`KeyedSeries.PlanNode.AlgorithmsChosen`), and why it
is part of the conclusion too
(`KeyedSeries.Optimize.rows_optimize_default`).

Tag filters are about series and not about rows; a plan is read without them.
-/

namespace KeyedSeries

/-- What a plan is about: rows, and everything about them that a plan leaves
open. -/
structure Interpretation (ρ : Type) where
  /-- A row as filters see it. -/
  view : ρ → FilterRow
  /-- The rows of the source that a node reads. -/
  source : NodeId → String → List ρ
  /-- The rows that a projection or an outer join makes out of those of its
  inputs. -/
  other : Operator → List (List ρ) → List ρ
  /-- The row that a join makes out of two. -/
  merge : String → String → ρ → ρ → ρ

namespace Interpretation

variable {ρ : Type} (I : Interpretation ρ)

/-- All pairs of rows, merged; the rows of the left input go slower. -/
def pairs (left right : String) (as bs : List ρ) : List ρ :=
  as.flatMap fun a => bs.map (I.merge left right a)

/-- The rows of a node out of those of its inputs. With a number of inputs that
its operator does not take, a node has none. -/
def result (id : NodeId) (op : Operator) (inputs : List (List ρ)) : List ρ :=
  match op, inputs with
  | .source name, _ => I.source id name
  | .select filter _, [rows] => rows.filter fun r => filter.accepts (I.view r)
  | .crossJoin left right, [as, bs] => I.pairs left right as bs
  | .innerJoin left right condition _ algorithm, [as, bs] =>
    (I.pairs left right as bs).filter fun r => algorithm.keeps condition (I.view r)
  | .project paths tags, inputs => I.other (.project paths tags) inputs
  | .outerJoin side left right condition tags, inputs =>
    I.other (.outerJoin side left right condition tags) inputs
  | _, _ => []

end Interpretation

/-- Whether a join is carried out as its condition asks for. -/
def Operator.IsChosen : Operator → Prop
  | innerJoin left right condition _ algorithm => algorithm = .choose left right condition
  | _ => True

theorem Operator.isChosen_joinOn (left right : String) (condition : Option Filter)
    (tags : Option TagFilter) : (joinOn left right condition tags).IsChosen := rfl

/-- A join that absorbed a selection is carried out as its condition asks for. -/
theorem Operator.isChosen_absorbing {op : Operator} (h : op.takesSelections = true)
    (s : Selection) : (op.absorbing [s]).IsChosen := by
  cases op with
  | crossJoin left right => exact isChosen_joinOn ..
  | innerJoin left right condition tags algorithm => exact isChosen_joinOn ..
  | _ => simp [takesSelections] at h

namespace PlanNode

variable {ρ : Type}

mutual

/-- The rows of a plan. -/
def rows (I : Interpretation ρ) : PlanNode → List ρ
  | ⟨id, op, inputs⟩ => I.result id op (allRows I inputs)

/-- The rows of every plan of a list. -/
def allRows (I : Interpretation ρ) : List PlanNode → List (List ρ)
  | [] => []
  | n :: rest => n.rows I :: allRows I rest

end

theorem rows_mk (I : Interpretation ρ) (id : NodeId) (op : Operator) (inputs : List PlanNode) :
    rows I ⟨id, op, inputs⟩ = I.result id op (allRows I inputs) := by
  rw [rows]

theorem allRows_eq_map (I : Interpretation ρ) (l : List PlanNode) :
    allRows I l = l.map (·.rows I) := by
  induction l with
  | nil => rw [allRows, List.map_nil]
  | cons n rest ih => rw [allRows, ih, List.map_cons]

/-- All inner joins of the tree are carried out as their conditions ask for. -/
def AlgorithmsChosen (n : PlanNode) : Prop := ∀ m ∈ n.preorder, m.op.IsChosen

theorem algorithmsChosen_iff {n : PlanNode} :
    n.AlgorithmsChosen ↔ n.op.IsChosen ∧ ∀ m ∈ n.inputs, m.AlgorithmsChosen := by
  simp only [AlgorithmsChosen, preorder_eq n, List.forall_mem_cons, mem_preorders]
  exact and_congr_right fun _ =>
    ⟨fun h m hm i hi => h i ⟨m, hm, hi⟩, fun h i ⟨m, hm, hi⟩ => h m hm i hi⟩

/-! ### One application -/

/-- **A join that absorbed a selection has the rows of the selection**: where the
join was carried out as its condition asked for, the algorithm of the new
condition keeps what the old one kept and the selection accepts. -/
theorem rows_absorbing (I : Interpretation ρ) {op : Operator} (htakes : op.takesSelections = true)
    (hchosen : op.IsChosen) (id id' jid : NodeId) (s : Selection) (inputs : List (List ρ)) :
    I.result id' (op.absorbing [s]) inputs =
      I.result id (.select s.filter s.tags) [I.result jid op inputs] := by
  cases op with
  | crossJoin left right =>
    match inputs with
    | [as, bs] =>
      refine List.filter_congr fun r _ => ?_
      rw [JoinAlgorithm.keeps_choose]
      rfl
    | [] | [_] | _ :: _ :: _ :: _ => rfl
  | innerJoin left right condition tags algorithm =>
    obtain rfl : algorithm = .choose left right condition := hchosen
    match inputs with
    | [as, bs] =>
      simp only [Interpretation.result, List.filter_filter]
      refine List.filter_congr fun r _ => ?_
      rw [JoinAlgorithm.keeps_choose, JoinAlgorithm.keeps_choose]
      exact (Filter.acceptsOptional_combine ..).trans (Bool.and_comm ..)
    | [] | [_] | _ :: _ :: _ :: _ => rfl
  | _ => simp [Operator.takesSelections] at htakes

/-- The second tree says what the first one says, and its joins are carried out as
their conditions ask for, if those of the first one are. -/
def SameRows (I : Interpretation ρ) (n m : PlanNode) : Prop :=
  n.AlgorithmsChosen → m.rows I = n.rows I ∧ m.AlgorithmsChosen

/-- Trees with the same rows can take each other's place anywhere in a plan. -/
theorem sameRows_congruence (I : Interpretation ρ) : Optimize.Congruence (SameRows I) where
  refl _ h := ⟨rfl, h⟩
  trans hnm hmk hn := by
    obtain ⟨hrows, hm⟩ := hnm hn
    obtain ⟨hrows', hk⟩ := hmk hm
    exact ⟨hrows'.trans hrows, hk⟩
  node id op inputs inputs' hinputs h := by
    obtain ⟨hop, hbelow⟩ := algorithmsChosen_iff.mp h
    have hboth : allRows I inputs' = allRows I inputs ∧ ∀ m ∈ inputs', m.AlgorithmsChosen := by
      clear h hop
      induction hinputs with
      | nil => exact ⟨rfl, fun m hm => absurd hm List.not_mem_nil⟩
      | cons hnm _ ih =>
        obtain ⟨hn, hrest⟩ := List.forall_mem_cons.mp hbelow
        obtain ⟨hrows, hm⟩ := hnm hn
        obtain ⟨hallRows, hall⟩ := ih hrest
        exact ⟨by rw [allRows, allRows, hrows, hallRows], List.forall_mem_cons.mpr ⟨hm, hall⟩⟩
    exact ⟨by rw [rows_mk, rows_mk, hboth.1], algorithmsChosen_iff.mpr ⟨hop, hboth.2⟩⟩

end PlanNode

namespace Optimize

open PlanNode

variable {ρ : Type}

/-- Every application of a default rule keeps the rows. -/
theorem relates_sameRows (I : Interpretation ρ) : Relates RuleSet.default (SameRows I) := by
  intro rule hrule n r next next' happ hrun hchosen
  obtain rfl : rule = selectIntoJoin := List.mem_singleton.mp hrule
  obtain ⟨id, filter, tags, j, rfl, htakes, rfl, -⟩ := replaced_by_selectIntoJoin happ hrun
  obtain ⟨-, hjoin⟩ := algorithmsChosen_iff.mp hchosen
  obtain ⟨hop, hbelow⟩ := algorithmsChosen_iff.mp (hjoin j List.mem_cons_self)
  constructor
  · rw [rows_mk, rows_mk, allRows_eq_map I [j], List.map_singleton]
    obtain ⟨jid, op, inputs⟩ := j
    rw [rows_mk]
    exact rows_absorbing I htakes hop id _ jid ⟨filter, tags⟩ (allRows I inputs)
  · exact algorithmsChosen_iff.mpr ⟨Operator.isChosen_absorbing htakes _, hbelow⟩

/-- **Optimizing by the default rules keeps the rows of a plan**, whatever its
sources hold, if every inner join of it is carried out as its condition asks for;
and then this holds of the optimized plan too. -/
theorem rows_optimize_default (I : Interpretation ρ) (plan : Plan) (config : Config)
    (hchosen : plan.root.AlgorithmsChosen) {out : Optimized}
    (h : plan.optimize config RuleSet.default = some (.ok out)) :
    out.plan.root.rows I = plan.root.rows I ∧ out.plan.root.AlgorithmsChosen :=
  run_related (sameRows_congruence I) (relates_sameRows I) h hchosen

/-- Two selections above a cross join of sources; the lower one asks for equal
values below the two roots, right before left. -/
def equalIds : Plan where
  root :=
    ⟨4, .select (.cell "l.n" .gt (.long 1)) none,
      [⟨3, .select (.cells "r.id" .eq "l.id") none,
        [⟨2, .crossJoin "l" "r", [⟨0, .source "a", []⟩, ⟨1, .source "b", []⟩]⟩]⟩]⟩
  nextId := 5

/-- Rows as lists of paths and values, joined under the roots of their sides. -/
def valueRows (source : NodeId → String → List (List (String × Value))) :
    Interpretation (List (String × Value)) where
  view r := ⟨0, fun path => r.lookup path⟩
  source := source
  other _ inputs := inputs.flatten
  merge left right a b :=
    a.map (fun (path, v) => (left ++ "." ++ path, v)) ++
      b.map (fun (path, v) => (right ++ "." ++ path, v))

theorem rows_optimize_equalIds :
    let I := valueRows fun id _ =>
      if id = 0 then [[("id", .long 1), ("n", .long 1)], [("id", .long 2), ("n", .long 7)]]
      else [[("id", .long 2)], [("id", .long 1)]]
    equalIds.root.AlgorithmsChosen ∧ ∃ out : Optimized,
      equalIds.optimize {} RuleSet.default = some (.ok out) ∧ out.applied = 2 ∧
        out.plan.root.rows I = [[("l.id", .long 2), ("l.n", .long 7), ("r.id", .long 2)]] ∧
          out.plan.root.AlgorithmsChosen := by
  intro I
  have hchosen : equalIds.root.AlgorithmsChosen := by
    intro m hm
    simp only [equalIds, preorder, preorders, List.append_nil, List.cons_append, List.nil_append,
      List.mem_cons, List.not_mem_nil, or_false] at hm
    rcases hm with rfl | rfl | rfl | rfl | rfl <;> trivial
  have hrows :
      equalIds.root.rows I = [[("l.id", .long 2), ("l.n", .long 7), ("r.id", .long 2)]] := by
    decide +kernel
  have happlied : (equalIds.optimize {} RuleSet.default).map (·.toOption.map (·.applied)) =
      some (some 2) := by decide +kernel
  cases hopt : equalIds.optimize {} RuleSet.default with
  | none => simp [hopt] at happlied
  | some r =>
    cases r with
    | error e => simp [hopt, Except.toOption] at happlied
    | ok out =>
      obtain ⟨hkept, hchosen'⟩ := rows_optimize_default I equalIds {} hchosen hopt
      exact ⟨hchosen, out, rfl, by simpa [hopt, Except.toOption] using happlied,
        hkept.trans hrows, hchosen'⟩

end Optimize

end KeyedSeries

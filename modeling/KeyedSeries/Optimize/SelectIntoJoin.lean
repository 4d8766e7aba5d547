import KeyedSeries.Optimize.Rule

/-!
# Selections go into the joins below them

A selection right above a cross join or an inner join is a condition on pairs,
and so it can be left to the join: a cross join becomes an inner join on the
condition, an inner join demands it beside what it demands already. An outer
join stays as it is, because there the condition would change which rows find
no partner.
-/

namespace KeyedSeries

namespace SelectIntoJoin

/-- The name of the rule. -/
def name : String := "FilterPushIntoJoinConditionRule"

/-- Gives the rule up. -/
def giveUp {α : Type} (fault : RuleFault) : Draw α := .fail ⟨name, fault⟩

/-- Leaves a selection to the join below it. The new inner join of a cross join
has a new id and no tag filter; an inner join keeps its id and takes the tag
filter of the selection. -/
def intoJoin (filter : Filter) (tags : Option TagFilter) (join : PlanNode) : Draw PlanNode :=
  match join.op with
  | .crossJoin left right => do
    let id ← Draw.freshId
    return ⟨id, .joinOn left right (some filter) none, join.inputs⟩
  | .innerJoin left right condition _ _ =>
    return ⟨join.id, .joinOn left right (Filter.combine condition (some filter)) tags, join.inputs⟩
  | op => giveUp (.cannotPush op.kind)

/-- Replaces a selection and the join below it by one join. -/
def transform (n : PlanNode) : Draw PlanNode :=
  match n.op with
  | .select filter tags =>
    match n.inputs with
    | [join] => intoJoin filter tags join
    | _ => giveUp .notOneInput
  | _ => giveUp .notSelect

/-- Whether a node is a join that a selection can go into. -/
def isTarget (n : PlanNode) : Bool := n.kind == .innerJoin || n.kind == .crossJoin

end SelectIntoJoin

/-- The rule by which selections go into the joins below them. -/
def selectIntoJoin : Rule where
  name := SelectIntoJoin.name
  group := "FilterPushDownRule"
  shape := .node (.kind .select) [.node .anyJoin [.any, .any]]
  gate b := (b.at? 1).any SelectIntoJoin.isTarget
  transform := SelectIntoJoin.transform

/-- The rules that are used where none are asked for. -/
def RuleSet.default : RuleSet := [selectIntoJoin]

end KeyedSeries

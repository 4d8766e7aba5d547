import KeyedSeries.Plan.Description
import KeyedSeries.Optimize.SelectIntoJoin

/-!
# Optimizing to a fixpoint

Rules are applied in passes. A pass goes from the root down; at every node the
first rule that applies is applied once, and the pass goes on in the inputs of
what took the node's place. Passes are repeated until one of them applies
nothing.

A rule may put a larger tree in the place of a smaller one, and then nothing
bounds how deep a pass goes: it need not come to an end. The depth is therefore
a parameter, and a pass that would go deeper has no result
(`KeyedSeries.Optimize.run`). For rules that never make a tree higher, such as
those of `KeyedSeries.RuleSet.default`, the height of the plan is deep enough,
and `KeyedSeries.Plan.optimize` uses it.
-/

namespace KeyedSeries

namespace Optimize

/-- How a plan is optimized. -/
structure Config where
  /-- How many passes are allowed. -/
  maxPasses : Nat := 64
  /-- Whether trees are shown before and after every application. -/
  trace : Bool := false
  deriving DecidableEq, Repr

/-- One application of a rule. -/
structure Application where
  /-- The name of the rule. -/
  rule : String
  /-- The id at the root of the tree that was replaced. -/
  replaced : NodeId
  /-- The id at the root of the replacement. -/
  replacement : NodeId
  /-- The tree as it was, if trees are shown. -/
  before : String
  /-- The replacement, if trees are shown. -/
  after : String
  deriving DecidableEq, Repr

/-- What a pass keeps track of. -/
structure Progress where
  /-- The id that the next new node gets. -/
  nextId : NodeId
  /-- The applications so far, the last one first. -/
  applications : List Application

/-- An optimized plan, and how it came about. -/
structure Optimized where
  /-- The plan, to which no rule applies any more. -/
  plan : Plan
  /-- How many passes were made, with the last one that applied nothing. -/
  passes : Nat
  /-- How often a rule was applied. -/
  applied : Nat
  /-- The applications, in order. -/
  trace : List Application

/-- Applies a rule to a tree. The replacement has to be valid, and to differ from
the tree in its operators. -/
def applyRule (config : Config) (rule : Rule) (n : PlanNode) (p : Progress) :
    Except RuleError (PlanNode × Progress) := do
  let (replacement, nextId) ← (rule.transform n).run p.nextId
  match replacement.check with
  | some defect => throw ⟨rule.name, .invalid defect⟩
  | none => pure ()
  if replacement.fingerprint = n.fingerprint then throw ⟨rule.name, .noProgress n.id⟩
  let application : Application :=
    { rule := rule.name
      replaced := n.id
      replacement := replacement.id
      before := if config.trace then n.explain else ""
      after := if config.trace then replacement.explain else "" }
  return (replacement, ⟨nextId, application :: p.applications⟩)

/-- Applies the first rule that applies, if one does. -/
def applyFirst (config : Config) (rules : RuleSet) (n : PlanNode) (p : Progress) :
    Except RuleError (PlanNode × Progress) :=
  match rules.find? (·.applies n) with
  | some rule => applyRule config rule n p
  | none => .ok (n, p)

/-- Changes the trees of a list in turn, by way of `f`. -/
def eachInput (f : PlanNode → Progress → Option (Except RuleError (PlanNode × Progress))) :
    List PlanNode → Progress → Option (Except RuleError (List PlanNode × Progress))
  | [], p => some (.ok ([], p))
  | n :: rest, p =>
    match f n p with
    | none => none
    | some (.error e) => some (.error e)
    | some (.ok (n', p)) =>
      match eachInput f rest p with
      | none => none
      | some (.error e) => some (.error e)
      | some (.ok (rest', p)) => some (.ok (n' :: rest', p))

/-- One pass over a tree. There is no result if the pass goes deeper than
`depth`. -/
def pass (config : Config) (rules : RuleSet) :
    Nat → PlanNode → Progress → Option (Except RuleError (PlanNode × Progress))
  | 0, _, _ => none
  | depth + 1, n, p =>
    match applyFirst config rules n p with
    | .error e => some (.error e)
    | .ok (n', p) =>
      match eachInput (pass config rules depth) n'.inputs p with
      | none => none
      | some (.error e) => some (.error e)
      | some (.ok (inputs, p)) => some (.ok (⟨n'.id, n'.op, inputs⟩, p))

/-- Repeats passes until one of them applies nothing, `left` times at most;
`made` passes were made before. -/
def passes (config : Config) (rules : RuleSet) (depth : Nat) :
    (left made : Nat) → PlanNode → Progress → Option (Except RuleError Optimized)
  | 0, _, _, _ => some (.error ⟨"optimizer", .noFixpoint config.maxPasses⟩)
  | left + 1, made, root, p =>
    match pass config rules depth root p with
    | none => none
    | some (.error e) => some (.error e)
    | some (.ok (root', p')) =>
      if p'.applications.length = p.applications.length then
        some (.ok ⟨⟨root', p'.nextId⟩, made + 1, p'.applications.length, p'.applications.reverse⟩)
      else passes config rules depth left (made + 1) root' p'

/-- Optimizes a plan to a fixpoint, no pass going deeper than `depth`. -/
def run (depth : Nat) (config : Config) (rules : RuleSet) (plan : Plan) :
    Option (Except RuleError Optimized) :=
  passes config rules depth config.maxPasses 0 plan.root ⟨plan.nextId, []⟩

end Optimize

/-- Optimizes a plan to a fixpoint, by rules that never make a tree higher. -/
def Plan.optimize (plan : Plan) (config : Optimize.Config) (rules : RuleSet) :
    Option (Except RuleError Optimize.Optimized) :=
  Optimize.run plan.root.height config rules plan

end KeyedSeries

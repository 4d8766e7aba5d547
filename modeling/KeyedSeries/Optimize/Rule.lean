import KeyedSeries.Plan.Tree
import KeyedSeries.Optimize.Shape

/-!
# Rules

A rule has a shape, a gate and a transform. Where a tree has the shape and the
gate opens for the nodes bound, the transform says what takes the place of the
tree. It may ask for new ids while it works (`KeyedSeries.Draw`) and it may
fail; there is nothing else it could do to the plan.
-/

namespace KeyedSeries

/-- Why a replacement was given up. -/
inductive RuleFault where
  /-- The tree does not start with a selection. -/
  | notSelect
  /-- The selection does not have exactly one input. -/
  | notOneInput
  /-- A selection cannot go into an operator of the kind. -/
  | cannotPush (kind : OperatorKind)
  /-- The replacement is not valid. -/
  | invalid (defect : PlanNode.Defect)
  /-- The replacement has the same operators as the tree with the root of that id. -/
  | noProgress (id : NodeId)
  /-- Rules still applied after that many passes. -/
  | noFixpoint (passes : Nat)
  /-- A reason of the rule's own. -/
  | other (reason : String)
  deriving DecidableEq, Repr

/-- The reason in words. -/
def RuleFault.message : RuleFault → String
  | notSelect => "matched root is not a Select"
  | notOneInput => "Select must have exactly one input"
  | cannotPush kind => "cannot push a selection into " ++ kind.name
  | invalid defect => defect.message
  | noProgress id => s!"transform of node #{id} made no progress"
  | noFixpoint passes => s!"no fixpoint after {passes} passes"
  | other reason => reason

/-- A replacement that was given up: the rule, and why. -/
structure RuleError where
  /-- The name of the rule. -/
  rule : String
  /-- Why. -/
  fault : RuleFault
  deriving DecidableEq, Repr

/-- The error in words. -/
def RuleError.message (e : RuleError) : String :=
  "rule '" ++ e.rule ++ "' violated a plan invariant: " ++ e.fault.message

/-- A computation that may ask for new ids, and may fail. -/
inductive Draw (α : Type) where
  /-- Comes to a result. -/
  | done (a : α)
  /-- Fails. -/
  | fail (e : RuleError)
  /-- Asks for a new id and goes on with it. -/
  | fresh (next : NodeId → Draw α)

namespace Draw

/-- Goes on with the result of a computation. -/
def bind {α β : Type} : Draw α → (α → Draw β) → Draw β
  | done a, f => f a
  | fail e, _ => fail e
  | fresh next, f => fresh fun id => (next id).bind f

instance : Monad Draw where
  pure := done
  bind := bind

/-- A new id. -/
def freshId : Draw NodeId := fresh done

/-- Runs a computation on the ids from `next` on; gives back the result and the
first id that is still unused. -/
def run {α : Type} : Draw α → NodeId → Except RuleError (α × NodeId)
  | done a, next => .ok (a, next)
  | fail e, _ => .error e
  | fresh f, next => (f next).run (next + 1)

end Draw

/-- What a gate sees: the nodes that the shape of its rule has bound, the first
of them at the root. -/
structure Binding where
  /-- The nodes bound. -/
  nodes : List PlanNode

namespace Binding

/-- The node that the root of the shape has bound. A shape that says nothing
about the root binds none. -/
def root? (b : Binding) : Option PlanNode := b.nodes.head?

/-- The node that was bound as number `i`, from zero on. -/
def at? (b : Binding) (i : Nat) : Option PlanNode := b.nodes[i]?

end Binding

/-- A way to replace trees of a shape. -/
structure Rule where
  /-- The name. -/
  name : String
  /-- The family of rules it belongs to. -/
  group : String := "default"
  /-- The trees it replaces have this shape. -/
  shape : Shape
  /-- What else it asks of the nodes bound. -/
  gate : Binding → Bool := fun _ => true
  /-- What takes the place of a tree. -/
  transform : PlanNode → Draw PlanNode

namespace Rule

/-- Whether the rule replaces the tree. -/
def applies (r : Rule) (n : PlanNode) : Bool :=
  match r.shape.bind? n with
  | some bound => r.gate ⟨bound⟩
  | none => false

end Rule

/-- Rules in the order in which they are tried. -/
abbrev RuleSet := List Rule

/-- The names of the rules, in order. -/
def RuleSet.names (rules : RuleSet) : List String := rules.map (·.name)

end KeyedSeries

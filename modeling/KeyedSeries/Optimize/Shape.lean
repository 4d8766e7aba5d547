import KeyedSeries.Plan.Tree

/-!
# Shapes of plans

A shape says which operators a tree starts with. It **binds** the nodes that it
names, from the root down and from left to right; where it says nothing about
the inputs of a node, they may be anything (`KeyedSeries.Shape.bind?`).
-/

namespace KeyedSeries

/-- What a shape asks of one operator. -/
inductive OperatorClass where
  /-- To be of the kind. -/
  | kind (k : OperatorKind)
  /-- To be a join. -/
  | anyJoin
  deriving DecidableEq, Repr

/-- Whether an operator kind is of the class. -/
def OperatorClass.accepts : OperatorClass → OperatorKind → Bool
  | kind k, k' => k == k'
  | anyJoin, k' => k'.isJoin

/-- What a tree has to look like. -/
inductive Shape where
  /-- Like anything. -/
  | any
  /-- Its root is of the class, and its inputs look like the given shapes. Without
  shapes its inputs may be anything. -/
  | node (cls : OperatorClass) (inputs : List Shape)

namespace Shape

mutual

/-- The nodes that the shape names in the tree, if the tree has the shape. -/
def bind? : Shape → PlanNode → Option (List PlanNode)
  | any, _ => some []
  | node cls shapes, n =>
    if cls.accepts n.kind && (shapes.isEmpty || shapes.length == n.inputs.length) then
      (bindAll? shapes n.inputs).map (n :: ·)
    else none

/-- The nodes that shapes name in the trees beside them. -/
def bindAll? : List Shape → List PlanNode → Option (List PlanNode)
  | s :: shapes, n :: inputs => do
    let first ← s.bind? n
    let others ← bindAll? shapes inputs
    some (first ++ others)
  | _, _ => some []

end

end Shape

end KeyedSeries

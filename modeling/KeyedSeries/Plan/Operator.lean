import KeyedSeries.Join
import KeyedSeries.Tag

/-!
# Operators of a plan

What a node of a plan does: read a source, keep some paths, keep some rows, or
join two inputs. Each kind of operator takes a fixed number of inputs
(`KeyedSeries.OperatorKind.arity`). An inner join carries the algorithm that was
chosen for its condition.
-/

namespace KeyedSeries

/-- The kind of an operator. -/
inductive OperatorKind where
  /-- Reads a source. -/
  | source
  /-- Keeps some paths. -/
  | project
  /-- Keeps some rows. -/
  | select
  /-- Pairs the rows that a condition accepts. -/
  | innerJoin
  /-- Pairs all rows. -/
  | crossJoin
  /-- Pairs the rows that a condition accepts, and keeps rows without partner. -/
  | outerJoin
  deriving DecidableEq, Repr

namespace OperatorKind

/-- Whether the kind is a join. -/
def isJoin : OperatorKind → Bool
  | innerJoin | crossJoin | outerJoin => true
  | source | project | select => false

/-- How many inputs an operator of the kind takes. -/
def arity : OperatorKind → Nat
  | source => 0
  | project | select => 1
  | innerJoin | crossJoin | outerJoin => 2

/-- The name of the kind. -/
def name : OperatorKind → String
  | source => "Source"
  | project => "Project"
  | select => "Select"
  | innerJoin => "InnerJoin"
  | crossJoin => "CrossJoin"
  | outerJoin => "OuterJoin"

/-- All kinds. -/
def all : List OperatorKind := [source, project, select, innerJoin, crossJoin, outerJoin]

end OperatorKind

/-- The inputs whose rows an outer join keeps without partner. -/
inductive OuterSide where
  /-- The left one. -/
  | left
  /-- The right one. -/
  | right
  /-- Both. -/
  | full
  deriving DecidableEq, Repr

namespace OuterSide

/-- The name of the side. -/
def name : OuterSide → String
  | left => "Left"
  | right => "Right"
  | full => "Full"

/-- All sides. -/
def all : List OuterSide := [left, right, full]

end OuterSide

/-- What a node of a plan does. -/
inductive Operator where
  /-- Reads the source of the name. -/
  | source (name : String)
  /-- Keeps the paths. -/
  | project (paths : List String) (tags : Option TagFilter)
  /-- Keeps the rows that the filter accepts. -/
  | select (filter : Filter) (tags : Option TagFilter)
  /-- Pairs the rows that the condition accepts. -/
  | innerJoin (left right : String) (condition : Option Filter) (tags : Option TagFilter)
    (algorithm : JoinAlgorithm)
  /-- Pairs all rows. -/
  | crossJoin (left right : String)
  /-- Pairs the rows that the condition accepts, and keeps rows without partner. -/
  | outerJoin (side : OuterSide) (left right : String) (condition : Option Filter)
    (tags : Option TagFilter)

namespace Operator

/-- The kind of the operator. -/
def kind : Operator → OperatorKind
  | source .. => .source
  | project .. => .project
  | select .. => .select
  | innerJoin .. => .innerJoin
  | crossJoin .. => .crossJoin
  | outerJoin .. => .outerJoin

/-- The inner join on a condition, with the algorithm that the condition asks
for. -/
def joinOn (left right : String) (condition : Option Filter) (tags : Option TagFilter) :
    Operator :=
  innerJoin left right condition tags (.choose left right condition)

/-- Chooses the algorithm of an inner join anew; other operators have none. -/
def rechoose : Operator → Operator
  | innerJoin left right condition tags _ => joinOn left right condition tags
  | op => op

/-- A text, or `none` where there is nothing to show. -/
def textOr (show? : Option String) : String := show?.getD "none"

/-- What distinguishes the operator from others of its kind: names and texts. -/
def details : Operator → List (String × String)
  | source name => [("name", name)]
  | project paths tags =>
    [("paths", ",".intercalate paths), ("tags", textOr (tags.map (·.text)))]
  | select filter tags => [("filter", filter.text), ("tags", textOr (tags.map (·.text)))]
  | innerJoin left right condition tags algorithm =>
    [("prefixes", left ++ "," ++ right), ("filter", textOr (condition.map (·.text))),
      ("tags", textOr (tags.map (·.text))), ("alg", algorithm.text)]
  | crossJoin left right => [("prefixes", left ++ "," ++ right)]
  | outerJoin side left right condition tags =>
    [("type", side.name), ("prefixes", left ++ "," ++ right),
      ("filter", textOr (condition.map (·.text))), ("tags", textOr (tags.map (·.text)))]

end Operator

end KeyedSeries

import KeyedSeries.Filter

/-!
# How a join is carried out

A join pairs the rows of two inputs and keeps the pairs that its condition
accepts. The paths of an input all lie below a root of its own. If the condition
demands that a path of one input equals a path of the other, the pairs can be
found by hashing (`KeyedSeries.JoinAlgorithm.hash`); whatever else it demands is
the **residual**, evaluated on the pairs found. Otherwise every pair has to be
tried.

Only the shape of the condition counts (`KeyedSeries.JoinAlgorithm.choose`).
-/

namespace KeyedSeries

/-- A path of the left input that has to equal one of the right input. -/
structure EquiKey where
  /-- The path below the root of the left input. -/
  left : String
  /-- The path below the root of the right input. -/
  right : String
  deriving DecidableEq, Repr

/-- How a join is carried out. -/
inductive JoinAlgorithm where
  /-- The condition is evaluated on every pair. -/
  | nestedLoop
  /-- Pairs are found by their keys, and the residual is evaluated on them. -/
  | hash (keys : List EquiKey) (residual : Option Filter)

/-- Whether a path lies strictly below a root. Nothing lies below the empty one. -/
def isBelow (root path : String) : Bool :=
  root != "" && (root.toList ++ ['.']).isPrefixOf path.toList

/-- The key that a filter demands across two inputs, if it is an equality of two
paths and they lie on different sides. -/
def Filter.equiKey? (leftRoot rightRoot : String) : Filter → Option EquiKey
  | .cells a .eq b =>
    if isBelow leftRoot a && isBelow rightRoot b then some ⟨a, b⟩
    else if isBelow leftRoot b && isBelow rightRoot a then some ⟨b, a⟩
    else none
  | _ => none

/-- A list of filters as one optional filter: none demand nothing, and one alone
stands for itself. -/
def Filter.ofConjuncts : List Filter → Option Filter
  | [] => none
  | [f] => some f
  | fs => some (.and fs)

namespace JoinAlgorithm

/-- The algorithm for a join on a condition: by keys if the condition demands at
least one. -/
def choose (leftRoot rightRoot : String) : Option Filter → JoinAlgorithm
  | none => nestedLoop
  | some f =>
    match f.conjuncts.filterMap (·.equiKey? leftRoot rightRoot) with
    | [] => nestedLoop
    | keys =>
      hash keys (Filter.ofConjuncts (f.conjuncts.filter
        fun c => (c.equiKey? leftRoot rightRoot).isNone))

/-- The algorithm as it is shown. -/
def text : JoinAlgorithm → String
  | nestedLoop => "nested-loop"
  | hash keys residual =>
    "hash[" ++ ", ".intercalate (keys.map fun k => k.left ++ "=" ++ k.right) ++ "]" ++
      match residual with
      | some f => " residual " ++ f.text
      | none => ""

/-- The name of the kind of algorithm. -/
def kind : JoinAlgorithm → String
  | nestedLoop => "NestedLoopJoin"
  | hash .. => "HashJoin"

end JoinAlgorithm

end KeyedSeries

import KeyedSeries.Digest.XxHash
import KeyedSeries.Plan.Tree

/-!
# Showing a plan, and telling plans apart

A plan is shown one operator a line, inputs indented below
(`KeyedSeries.PlanNode.explain`). Two plans are told apart by a fingerprint: the
digest of their operators and of the numbers of their inputs, in which ids do
not count (`KeyedSeries.PlanNode.fingerprint`).
-/

namespace KeyedSeries.PlanNode

mutual

/-- The lines that show the tree, indented by its depth. -/
def explainAt (depth : Nat) : PlanNode → String
  | ⟨id, op, inputs⟩ =>
    String.ofList (List.replicate (2 * depth) ' ') ++ op.kind.name ++ "#" ++ toString id ++ " [" ++
      ", ".intercalate (op.details.map fun (name, text) => name ++ "=" ++ text) ++ "]\n" ++
      explainAllAt (depth + 1) inputs

/-- The lines that show the trees of a list. -/
def explainAllAt (depth : Nat) : List PlanNode → String
  | [] => ""
  | n :: rest => n.explainAt depth ++ explainAllAt depth rest

end

/-- The tree as it is shown. -/
def explain (n : PlanNode) : String := n.explainAt 0

mutual

/-- What the fingerprint is taken of: the kind of the operator, its details, the
number of its inputs, and the inputs in turn. -/
def fingerprintBytes : PlanNode → Bytes
  | ⟨_, op, inputs⟩ =>
    Bytes.ofText op.kind.name ++
      op.details.flatMap (fun (name, text) => Bytes.ofText name ++ Bytes.ofText text) ++
      XxHash.bytesOf inputs.length.toUInt64 ++ allFingerprintBytes inputs

/-- What the fingerprints of the trees of a list are taken of. -/
def allFingerprintBytes : List PlanNode → Bytes
  | [] => []
  | n :: rest => n.fingerprintBytes ++ allFingerprintBytes rest

end

/-- A number that tells plans apart. -/
def fingerprint (n : PlanNode) : UInt64 := XxHash.digest n.fingerprintBytes

end KeyedSeries.PlanNode

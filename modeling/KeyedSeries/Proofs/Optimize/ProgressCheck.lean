import KeyedSeries.Proofs.Optimize.Pass
import KeyedSeries.Proofs.Plan.Fingerprint

/-!
# The check for progress

An application of a rule is given up if the replacement has the fingerprint of the tree that it
replaces. **For clear trees that the digest tells apart, this is so just if the rule has put a like
tree in the place of the old one** (`KeyedSeries.Optimize.noProgress_iff_alike`): one with the same
operators, up to what is shown of their filters. It is so for trees that differ in their ids alone,
clear or not.

Of other trees the check may say that nothing was done where something was
(`KeyedSeries.Optimize.noProgress_of_swap`): one path with a comma in it is written as two paths
are, a number of 32 bits is shown as one of 64 bits is, and a path may have in it what an operator
below is written as.
-/

namespace KeyedSeries.Optimize

variable {config : Config}

/-- **What the check for progress tells.** Trees that differ in their ids alone have the same bytes;
clear trees have the same bytes just if they are alike, and a valid replacement of one by the other
is given up just then, unless the digest of different bytes is the same. -/
theorem noProgress_iff_alike (n r : PlanNode) :
    (n.withoutIds = r.withoutIds → n.fingerprintBytes = r.fingerprintBytes) ∧
      (n.IsClear → r.IsClear → (n.fingerprintBytes = r.fingerprintBytes ↔ n.Alike r) ∧
        ∀ (rule : Rule) (p : Progress) (next : NodeId),
          (rule.transform n).run p.nextId = .ok (r, next) → r.check = none →
            (r.fingerprint = n.fingerprint → r.fingerprintBytes = n.fingerprintBytes) →
              (applyRule config rule n p = .error ⟨rule.name, .noProgress n.id⟩ ↔ n.Alike r)) := by
  refine ⟨PlanNode.fingerprintBytes_eq_of_withoutIds_eq, fun hn hr => ?_⟩
  have hbytes := PlanNode.fingerprintBytes_eq_iff hn hr
  refine ⟨hbytes, fun rule p next hrun hcheck hdigest => ?_⟩
  have hfingerprint : r.fingerprint = n.fingerprint ↔ n.Alike r := by
    rw [← hbytes]
    constructor
    · exact fun h => (hdigest h).symm
    · intro h
      rw [PlanNode.fingerprint, PlanNode.fingerprint, h]
  rw [applyRule_of_run hrun hcheck, ← hfingerprint]
  split
  · next h => simp [h]
  · next h => simp [h]

/-! ### Rules that change something, and rules that do not -/

/-- A rule that gives a tree a new id. -/
def renew : Rule where
  name := "Renew"
  shape := .any
  transform n := do
    let id ← Draw.freshId
    return ⟨id, n.op, n.inputs⟩

/-- A rule that turns the inputs of a node round. -/
def swap : Rule where
  name := "Swap"
  shape := .any
  transform n := return ⟨n.id, n.op, n.inputs.reverse⟩

/-- A projection of a source. -/
def projected (id : NodeId) (paths : List String) : PlanNode :=
  ⟨id + 1, .project paths none, [⟨id, .source "s", []⟩]⟩

/-- A cross join of two trees. -/
def crossed (a b : PlanNode) : PlanNode := ⟨9, .crossJoin "l" "r", [a, b]⟩

/-- A projection gets a new id, and no progress is seen in it; two projections of other paths change
places, and progress is seen. -/
theorem noProgress_iff_alike_renewed :
    applyRule {} renew (projected 0 ["a", "b"]) ⟨2, []⟩ = .error ⟨"Renew", .noProgress 1⟩ ∧
      applyRule {} swap (crossed (projected 0 ["a"]) (projected 2 ["b"])) ⟨10, []⟩ ≠
        .error ⟨"Swap", .noProgress 9⟩ := by
  constructor
  · let renewed : PlanNode := ⟨2, .project ["a", "b"] none, [⟨0, .source "s", []⟩]⟩
    obtain ⟨hids, hclear⟩ := @noProgress_iff_alike {} (projected 0 ["a", "b"]) renewed
    obtain ⟨hbytes, happly⟩ := hclear (by decide +kernel) (by decide +kernel)
    have hrenew := happly renew ⟨2, []⟩ 3 rfl (by decide +kernel) fun _ => (hids rfl).symm
    exact hrenew.mpr (hbytes.mp (hids rfl))
  · obtain ⟨-, hclear⟩ := @noProgress_iff_alike {}
      (crossed (projected 0 ["a"]) (projected 2 ["b"]))
      (crossed (projected 2 ["b"]) (projected 0 ["a"]))
    obtain ⟨hbytes, happly⟩ := hclear (by decide +kernel) (by decide +kernel)
    have hdigest : (crossed (projected 2 ["b"]) (projected 0 ["a"])).fingerprint ≠
        (crossed (projected 0 ["a"]) (projected 2 ["b"])).fingerprint := by decide +kernel
    have hswap := happly swap ⟨10, []⟩ 10 rfl (by decide +kernel) fun h => absurd h hdigest
    exact fun h => absurd (hbytes.mpr (hswap.mp h)) (by decide +kernel)

/-- Two trees are different and yet nothing is seen to be done where they change places. -/
structure AreMistaken (a b : PlanNode) : Prop where
  /-- The plan is valid. -/
  valid : (crossed a b).check = none
  /-- Another plan comes of it, up to its ids. -/
  ne : (crossed a b).withoutIds ≠ (crossed b a).withoutIds
  /-- It has the same bytes. -/
  bytes_eq : (crossed a b).fingerprintBytes = (crossed b a).fingerprintBytes
  /-- No progress is seen. -/
  noProgress : applyRule {} swap (crossed a b) ⟨10, []⟩ = .error ⟨"Swap", .noProgress 9⟩

/-- Any two different trees with the same bytes are mistaken for each other. -/
theorem areMistaken_of_bytes_eq {a b : PlanNode} (hvalid : (crossed a b).check = none)
    (hvalid' : (crossed b a).check = none) (hne : a.withoutIds ≠ b.withoutIds)
    (hbytes : a.fingerprintBytes = b.fingerprintBytes) : AreMistaken a b := by
  have hcross : (crossed a b).fingerprintBytes = (crossed b a).fingerprintBytes := by
    simp [crossed, PlanNode.fingerprintBytes_mk, PlanNode.allFingerprintBytes, hbytes]
  refine ⟨hvalid, fun h => hne ?_, hcross, ?_⟩
  · simp only [crossed, PlanNode.withoutIds, PlanNode.allWithoutIds] at h
    injection h with _ _ hinputs
    exact (List.cons.inj hinputs).1
  · have hrun : (swap.transform (crossed a b)).run 10 = .ok (crossed b a, 10) := rfl
    rw [applyRule_of_run hrun hvalid', if_pos]
    · rfl
    · rw [PlanNode.fingerprint, PlanNode.fingerprint, hcross]

/-- A selection of the rows with a number under a path. -/
def selected (id : NodeId) (v : Value) : PlanNode :=
  ⟨id + 1, .select (.cell "p" .eq v) none, [⟨id, .source "s", []⟩]⟩

/-- A path that reads as a shorter one, one input, and the selection that this one is. -/
def imitating : String := "Xtagsnone\x01\x00\x00\x00\x00\x00\x00\x00Selectfiltertrue"

/-- **Different trees that are mistaken for each other**: by a comma in a path, by the type of a
number, and by a path that reads as an operator. -/
theorem noProgress_of_swap :
    AreMistaken (projected 0 ["a,b"]) (projected 2 ["a", "b"]) ∧
      AreMistaken (selected 0 (.integer 1)) (selected 2 (.long 1)) ∧
      AreMistaken (projected 0 [imitating])
        ⟨4, .project ["X"] none, [⟨3, .select (.const true) none, [⟨2, .source "s", []⟩]⟩]⟩ := by
  refine ⟨areMistaken_of_bytes_eq (by decide +kernel) (by decide +kernel) ?_ (by decide +kernel),
    areMistaken_of_bytes_eq (by decide +kernel) (by decide +kernel) ?_ (by decide +kernel),
    areMistaken_of_bytes_eq (by decide +kernel) (by decide +kernel) ?_ (by decide +kernel)⟩
  · simp [projected, PlanNode.withoutIds, PlanNode.allWithoutIds]
  · simp [selected, PlanNode.withoutIds, PlanNode.allWithoutIds]
  · simp [projected, PlanNode.withoutIds, PlanNode.allWithoutIds]

end KeyedSeries.Optimize

import KeyedSeries.Proofs.Optimize.Pass
import KeyedSeries.Proofs.Optimize.Sweeps

/-!
# Settled trees

A tree is **settled** if no rule applies at any of its nodes
(`KeyedSeries.Optimize.Settled`). For any rules at all, a pass is *silent* – it
applies nothing – exactly on the settled trees, and there it is the identity
(`KeyedSeries.Optimize.silent_pass_iff`). Both directions rest on one fact: no
pass takes an application back, so a pass that ends with as many as it started
with has applied nothing at any node on its way
(`KeyedSeries.Optimize.pass_length_le`).

Optimizing ends with a silent pass. Hence **an optimized plan is settled, and
optimizing it once more gives it back as it is**
(`KeyedSeries.Optimize.settled_of_run`).
-/

namespace KeyedSeries.Optimize

open PlanNode

variable {config : Config} {rules : RuleSet}

/-- No rule applies at any node of the tree. -/
def Settled (rules : RuleSet) (n : PlanNode) : Prop :=
  ∀ m ∈ n.preorder, ∀ rule ∈ rules, rule.applies m = false

theorem find?_applies_eq_none_iff {n : PlanNode} :
    rules.find? (·.applies n) = none ↔ ∀ rule ∈ rules, rule.applies n = false := by
  simp only [List.find?_eq_none, Bool.not_eq_true]

/-- A tree is settled if no rule applies at its root and its inputs are settled. -/
theorem settled_iff {n : PlanNode} :
    Settled rules n ↔ rules.find? (·.applies n) = none ∧ ∀ m ∈ n.inputs, Settled rules m := by
  rw [find?_applies_eq_none_iff]
  constructor
  · intro h
    refine ⟨h n n.mem_preorder_self, fun m hm i hi => h i ?_⟩
    rw [preorder_eq]
    exact List.mem_cons_of_mem _ (mem_preorders.mpr ⟨m, hm, hi⟩)
  · rintro ⟨hroot, hbelow⟩ i hi
    rw [preorder_eq] at hi
    rcases List.mem_cons.mp hi with rfl | hi
    · exact hroot
    · obtain ⟨m, hm, him⟩ := mem_preorders.mp hi
      exact hbelow m hm i him

/-! ### Applications are never taken back -/

/-- What one node adds: nothing where no rule applies, and one application where one
does. -/
theorem applyFirst_length {n r : PlanNode} {p q : Progress}
    (h : applyFirst config rules n p = .ok (r, q)) :
    (rules.find? (·.applies n) = none ∧ r = n ∧ q = p) ∨
      q.applications.length = p.applications.length + 1 := by
  rcases applyFirst_eq_ok_iff.mp h with hnone | ⟨rule, -, happ⟩
  · exact .inl hnone
  · obtain ⟨next, -, -, -, rfl⟩ := applyRule_eq_ok_iff.mp happ
    exact .inr rfl

theorem eachInput_length_le
    {f : PlanNode → Progress → Option (Except RuleError (PlanNode × Progress))}
    (hf : ∀ n m p q, f n p = some (.ok (m, q)) → p.applications.length ≤ q.applications.length)
    {l out : List PlanNode} {p q : Progress} (h : eachInput f l p = some (.ok (out, q))) :
    p.applications.length ≤ q.applications.length := by
  induction l generalizing out p with
  | nil =>
    cases h
    exact Nat.le_refl _
  | cons n rest ih =>
    obtain ⟨n', p', rest', hn, hrest, rfl⟩ := eachInput_cons_eq_ok_iff.mp h
    exact Nat.le_trans (hf _ _ _ _ hn) (ih hrest)

/-- **No pass takes an application back.** -/
theorem pass_length_le {depth : Nat} {n m : PlanNode} {p q : Progress}
    (h : pass config rules depth n p = some (.ok (m, q))) :
    p.applications.length ≤ q.applications.length := by
  induction depth generalizing n m p q with
  | zero => cases h
  | succ depth ih =>
    obtain ⟨r, p', inputs, hfirst, hinputs, -⟩ := pass_succ_eq_ok_iff.mp h
    have hbelow := eachInput_length_le (fun _ _ _ _ hpass => ih hpass) hinputs
    rcases applyFirst_length hfirst with ⟨-, -, rfl⟩ | hone
    · exact hbelow
    · omega

/-! ### Silent passes -/

/-- Inputs that were gone through in silence are as they were, and each of them was
gone through in silence. -/
theorem eachInput_silent {depth : Nat} {l out : List PlanNode} {p q : Progress}
    (hf : ∀ n m p q, pass config rules depth n p = some (.ok (m, q)) →
      q.applications.length = p.applications.length →
        Settled rules n ∧ n.height ≤ depth ∧ m = n ∧ q = p)
    (h : eachInput (pass config rules depth) l p = some (.ok (out, q)))
    (hsilent : q.applications.length = p.applications.length) :
    (∀ n ∈ l, Settled rules n ∧ n.height ≤ depth) ∧ out = l ∧ q = p := by
  induction l generalizing out p with
  | nil =>
    cases h
    exact ⟨List.forall_mem_nil _, rfl, rfl⟩
  | cons n rest ih =>
    obtain ⟨n', p', rest', hn, hrest, rfl⟩ := eachInput_cons_eq_ok_iff.mp h
    -- The first input and the rest can only add applications, so neither adds any.
    have hfirst := pass_length_le hn
    have hothers := eachInput_length_le (fun _ _ _ _ hpass => pass_length_le hpass) hrest
    obtain ⟨hsettled, hheight, rfl, rfl⟩ := hf _ _ _ _ hn (by omega)
    obtain ⟨hall, rfl, rfl⟩ := ih hrest hsilent
    exact ⟨List.forall_mem_cons.mpr ⟨⟨hsettled, hheight⟩, hall⟩, rfl, rfl⟩

theorem settled_of_silent {depth : Nat} {n m : PlanNode} {p q : Progress}
    (h : pass config rules depth n p = some (.ok (m, q)))
    (hsilent : q.applications.length = p.applications.length) :
    Settled rules n ∧ n.height ≤ depth ∧ m = n ∧ q = p := by
  induction depth generalizing n m p q with
  | zero => cases h
  | succ depth ih =>
    obtain ⟨⟨id, op, below⟩, p', inputs, hfirst, hinputs, rfl⟩ := pass_succ_eq_ok_iff.mp h
    have hbelow := eachInput_length_le (fun _ _ _ _ hpass => pass_length_le hpass) hinputs
    rcases applyFirst_length hfirst with ⟨hnone, rfl, rfl⟩ | hone
    · obtain ⟨hall, rfl, rfl⟩ := eachInput_silent (fun _ _ _ _ => ih) hinputs hsilent
      refine ⟨settled_iff.mpr ⟨hnone, fun i hi => (hall i hi).1⟩, ?_, rfl, rfl⟩
      rw [height_eq, Nat.add_comm]
      exact Nat.add_le_add_right (heights_le_iff.mpr fun i hi => (hall i hi).2) 1
    · omega

theorem eachInput_of_pass_eq_self {depth : Nat} {l : List PlanNode} {p : Progress}
    (h : ∀ n ∈ l, pass config rules depth n p = some (.ok (n, p))) :
    eachInput (pass config rules depth) l p = some (.ok (l, p)) := by
  induction l with
  | nil => rfl
  | cons n rest ih =>
    obtain ⟨hn, hrest⟩ := List.forall_mem_cons.mp h
    exact eachInput_cons_eq_ok_iff.mpr ⟨n, p, rest, hn, ih hrest, rfl⟩

/-- A pass over a settled tree that is not too high changes nothing. -/
theorem pass_of_settled {depth : Nat} {n : PlanNode} (h : Settled rules n)
    (hheight : n.height ≤ depth) (p : Progress) :
    pass config rules depth n p = some (.ok (n, p)) := by
  induction depth generalizing n with
  | zero =>
    rw [height_eq] at hheight
    omega
  | succ depth ih =>
    obtain ⟨hroot, hbelow⟩ := settled_iff.mp h
    rw [height_eq, Nat.add_comm] at hheight
    have hlow := heights_le_iff.mp (Nat.le_of_add_le_add_right hheight)
    have hinputs : eachInput (pass config rules depth) n.inputs p = some (.ok (n.inputs, p)) :=
      eachInput_of_pass_eq_self fun m hm => ih (hbelow m hm) (hlow m hm)
    obtain ⟨id, op, below⟩ := n
    exact pass_succ_eq_ok_iff.mpr
      ⟨_, p, below, applyFirst_eq_ok_iff.mpr (.inl ⟨hroot, rfl, rfl⟩), hinputs, rfl⟩

/-- **A silent pass is the identity on a settled tree**, and a pass over a settled
tree is silent. -/
theorem silent_pass_iff {depth : Nat} {n m : PlanNode} {p q : Progress} :
    (pass config rules depth n p = some (.ok (m, q)) ∧
        q.applications.length = p.applications.length) ↔
      Settled rules n ∧ n.height ≤ depth ∧ m = n ∧ q = p := by
  constructor
  · exact fun ⟨h, hsilent⟩ => settled_of_silent h hsilent
  · rintro ⟨hsettled, hheight, rfl, rfl⟩
    exact ⟨pass_of_settled hsettled hheight q, rfl⟩

/-! ### The last pass -/

/-- Where passes end well, the last of them was silent, and there were no more of
them than allowed. -/
theorem settled_of_passes {depth left made : Nat} {root : PlanNode} {p : Progress}
    {out : Optimized} (h : passes config rules depth left made root p = some (.ok out)) :
    Settled rules out.plan.root ∧ out.plan.root.height ≤ depth ∧ made < out.passes ∧
      out.passes ≤ made + left ∧ out.applied = out.trace.length := by
  induction left generalizing made root p with
  | zero => cases h
  | succ left ih =>
    obtain ⟨root', p', hpass, ⟨hsilent, rfl⟩ | ⟨-, hrest⟩⟩ := passes_succ_eq_ok_iff.mp h
    · obtain ⟨hsettled, hheight, rfl, rfl⟩ := silent_pass_iff.mp ⟨hpass, hsilent⟩
      exact ⟨hsettled, hheight, Nat.lt_succ_self _, by simp, by simp⟩
    · obtain ⟨hsettled, hheight, hmade, hleft, hcount⟩ := ih hrest
      exact ⟨hsettled, hheight, by omega, by omega, hcount⟩

/-- A settled plan is optimized by a single silent pass. -/
theorem run_of_settled {depth : Nat} {plan : Plan} (h : Settled rules plan.root)
    (hheight : plan.root.height ≤ depth) (hpasses : 0 < config.maxPasses) :
    run depth config rules plan = some (.ok ⟨plan, 1, 0, []⟩) := by
  obtain ⟨left, hleft⟩ := Nat.exists_eq_add_of_lt hpasses
  rw [run, hleft, Nat.zero_add, passes, pass_of_settled h hheight]
  rfl

/-- **An optimized plan is a fixpoint**, whatever the rules: no rule applies at any
node of it, it took no more passes than allowed, with an entry of the trace for
every application, and optimizing it again, as deep as it is high or deeper,
takes one pass that applies nothing and leaves the plan as it is. -/
theorem settled_of_run {depth : Nat} {plan : Plan} {out : Optimized}
    (h : run depth config rules plan = some (.ok out)) :
    (∀ n ∈ out.plan.root.nodes, ∀ rule ∈ rules, rule.applies n = false) ∧
      out.passes ≤ config.maxPasses ∧ out.applied = out.trace.length ∧
        out.plan.root.height ≤ depth ∧ ∀ again, out.plan.root.height ≤ again →
          run again config rules out.plan = some (.ok ⟨out.plan, 1, 0, []⟩) := by
  obtain ⟨hsettled, hheight, hmade, hleft, hcount⟩ := settled_of_passes h
  rw [Nat.zero_add] at hleft
  refine ⟨?_, hleft, hcount, hheight, fun again hagain => ?_⟩
  · rw [nodes_eq_preorder]
    exact hsettled
  · exact run_of_settled hsettled hagain (Nat.lt_of_lt_of_le hmade hleft)

/-- A rule that leaves projections out. -/
def unwrapProject : Rule where
  name := "UnwrapProject"
  shape := .node (.kind .project) [.any]
  transform n :=
    match n.inputs with
    | [m] => return m
    | _ => .fail ⟨"UnwrapProject", .notOneInput⟩

/-- A selection between two projections, above a cross join. -/
def wrappedSelection : Plan where
  root :=
    ⟨5, .project ["l.a"] none,
      [⟨4, .select (.key .gt 1) none,
        [⟨3, .project ["l.a", "r.b"] none,
          [⟨2, .crossJoin "l" "r", [⟨0, .source "a", []⟩, ⟨1, .source "b", []⟩]⟩]⟩]⟩]⟩
  nextId := 6

theorem settled_of_run_wrappedSelection :
    let rules := [selectIntoJoin, unwrapProject]
    ∃ out : Optimized, run 5 {} rules wrappedSelection = some (.ok out) ∧
      (out.passes, out.applied, out.plan.nextId) = (3, 3, 7) ∧
        (∀ n ∈ out.plan.root.nodes, ∀ rule ∈ rules, rule.applies n = false) ∧
          run 5 {} rules out.plan = some (.ok ⟨out.plan, 1, 0, []⟩) := by
  intro rules
  have h : (run 5 {} rules wrappedSelection).map (·.toOption.map fun out =>
      (out.passes, out.applied, out.plan.nextId)) = some (some (3, 3, 7)) := by decide +kernel
  cases hrun : run 5 {} rules wrappedSelection with
  | none => simp [hrun] at h
  | some r =>
    cases r with
    | error e => simp [hrun, Except.toOption] at h
    | ok out =>
      obtain ⟨hsettled, -, -, hheight, hagain⟩ := settled_of_run hrun
      exact ⟨out, rfl, by simpa [hrun, Except.toOption] using h, hsettled, hagain 5 hheight⟩

end KeyedSeries.Optimize

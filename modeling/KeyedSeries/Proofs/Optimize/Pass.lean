import Mathlib.Data.List.Forall2
import KeyedSeries.Optimize.Fixpoint

/-!
# What a pass does, for any rules

The success of each part of the engine, spelled out: of one application
(`KeyedSeries.Optimize.applyRule_eq_ok_iff`), of the choice of a rule at a node
(`KeyedSeries.Optimize.applyFirst_eq_ok_iff`), of the inputs of a node in turn
(`KeyedSeries.Optimize.eachInput_cons_eq_ok_iff`), of a whole pass
(`KeyedSeries.Optimize.pass_succ_eq_ok_iff`) and of one pass after another
(`KeyedSeries.Optimize.passes_succ_eq_ok_iff`). Statements about optimized plans
go through these and never look into the engine itself.

What every application does to the tree it is for, passes do to the whole plan
(`KeyedSeries.Optimize.run_related`), as long as it goes up from the inputs of a
node to the node (`KeyedSeries.Optimize.Congruence`).
-/

namespace KeyedSeries.Optimize

variable {config : Config} {rules : RuleSet}

/-- The record of an application that put `r` in the place of `n`. -/
def applicationOf (config : Config) (rule : Rule) (n r : PlanNode) : Application :=
  { rule := rule.name
    replaced := n.id
    replacement := r.id
    before := if config.trace then n.explain else ""
    after := if config.trace then r.explain else "" }

/-- A valid replacement is taken if its fingerprint is another one. -/
theorem applyRule_of_run {rule : Rule} {n r : PlanNode} {p : Progress} {next : NodeId}
    (hrun : (rule.transform n).run p.nextId = .ok (r, next)) (hcheck : r.check = none) :
    applyRule config rule n p =
      if r.fingerprint = n.fingerprint then .error ⟨rule.name, .noProgress n.id⟩
      else .ok (r, ⟨next, applicationOf config rule n r :: p.applications⟩) := by
  split
  · next hf =>
    simp [applyRule, hrun, hcheck, hf, bind, Except.bind, throw, throwThe, MonadExceptOf.throw]
  · next hf =>
    simp [applyRule, hrun, hcheck, hf, bind, Except.bind, pure, Except.pure, applicationOf]

/-- **An application succeeds** if the transform does, with a replacement that is
valid and has another fingerprint. -/
theorem applyRule_eq_ok_iff {rule : Rule} {n r : PlanNode} {p q : Progress} :
    applyRule config rule n p = .ok (r, q) ↔
      ∃ next, (rule.transform n).run p.nextId = .ok (r, next) ∧ r.check = none ∧
        r.fingerprint ≠ n.fingerprint ∧
          q = ⟨next, applicationOf config rule n r :: p.applications⟩ := by
  -- It fails where the transform does, where the check does, or where nothing changes.
  cases hrun : (rule.transform n).run p.nextId with
  | error e => simp [applyRule, hrun, bind, Except.bind]
  | ok result =>
    obtain ⟨r', next⟩ := result
    cases hcheck : r'.check with
    | some defect =>
      refine ⟨fun h => ?_, ?_⟩
      · simp [applyRule, hrun, hcheck, bind, Except.bind, throw, throwThe,
          MonadExceptOf.throw] at h
      · rintro ⟨_, h, hc, -⟩
        cases h
        rw [hcheck] at hc
        cases hc
    | none =>
      rw [applyRule_of_run hrun hcheck]
      split
      · next hf =>
        refine ⟨fun h => (nomatch h), ?_⟩
        rintro ⟨_, h, -, hne, -⟩
        cases h
        exact absurd hf hne
      · next hf =>
        constructor
        · intro h
          cases h
          exact ⟨next, rfl, hcheck, hf, rfl⟩
        · rintro ⟨_, h, -, -, rfl⟩
          cases h
          rfl

/-- At a node either no rule applies, and nothing changes, or the first one that
applies succeeds. -/
theorem applyFirst_eq_ok_iff {n r : PlanNode} {p q : Progress} :
    applyFirst config rules n p = .ok (r, q) ↔
      (rules.find? (·.applies n) = none ∧ r = n ∧ q = p) ∨
        ∃ rule, rules.find? (·.applies n) = some rule ∧
          applyRule config rule n p = .ok (r, q) := by
  rw [applyFirst]
  cases hfind : rules.find? (·.applies n) with
  | none =>
    constructor
    · intro h
      cases h
      exact .inl ⟨rfl, rfl, rfl⟩
    · rintro (⟨-, rfl, rfl⟩ | ⟨_, h, -⟩)
      · rfl
      · cases h
  | some rule =>
    constructor
    · exact fun h => .inr ⟨rule, rfl, h⟩
    · rintro (⟨h, -⟩ | ⟨_, h, happ⟩)
      · cases h
      · cases h
        exact happ

/-- The trees of a list are changed in turn, the progress of one being where the
next one starts. -/
theorem eachInput_cons_eq_ok_iff
    {f : PlanNode → Progress → Option (Except RuleError (PlanNode × Progress))}
    {n : PlanNode} {rest out : List PlanNode} {p q : Progress} :
    eachInput f (n :: rest) p = some (.ok (out, q)) ↔
      ∃ n' p' rest', f n p = some (.ok (n', p')) ∧
        eachInput f rest p' = some (.ok (rest', q)) ∧ out = n' :: rest' := by
  rw [eachInput]
  constructor
  · intro h
    split at h
    · cases h
    · cases h
    · next n' p' hn =>
      split at h
      · cases h
      · cases h
      · next rest' p'' hrest =>
        cases h
        exact ⟨n', p', rest', hn, hrest, rfl⟩
  · rintro ⟨n', p', rest', hn, hrest, rfl⟩
    rw [hn]
    simp only [hrest]

/-- **A pass over a tree succeeds** if a rule, or none, is applied at the root and
the pass goes on in the inputs of what stands there then. -/
theorem pass_succ_eq_ok_iff {depth : Nat} {n m : PlanNode} {p q : Progress} :
    pass config rules (depth + 1) n p = some (.ok (m, q)) ↔
      ∃ r p' inputs, applyFirst config rules n p = .ok (r, p') ∧
        eachInput (pass config rules depth) r.inputs p' = some (.ok (inputs, q)) ∧
          m = ⟨r.id, r.op, inputs⟩ := by
  rw [pass]
  constructor
  · intro h
    split at h
    · cases h
    · next r p' hr =>
      split at h
      · cases h
      · cases h
      · next inputs p'' hinputs =>
        cases h
        exact ⟨r, p', inputs, hr, hinputs, rfl⟩
  · rintro ⟨r, p', inputs, hr, hinputs, rfl⟩
    rw [hr]
    simp only [hinputs]

/-- **The passes that are left succeed** if the next one does, and either it applied
nothing, which ends them, or those after it succeed. -/
theorem passes_succ_eq_ok_iff {depth left made : Nat} {root : PlanNode} {p : Progress}
    {out : Optimized} :
    passes config rules depth (left + 1) made root p = some (.ok out) ↔
      ∃ root' p', pass config rules depth root p = some (.ok (root', p')) ∧
        ((p'.applications.length = p.applications.length ∧
            out = ⟨⟨root', p'.nextId⟩, made + 1, p'.applications.length,
              p'.applications.reverse⟩) ∨
          (p'.applications.length ≠ p.applications.length ∧
            passes config rules depth left (made + 1) root' p' = some (.ok out))) := by
  rw [passes]
  constructor
  · intro h
    split at h
    · cases h
    · cases h
    · next root' p' hpass =>
      refine ⟨root', p', hpass, ?_⟩
      split at h
      · next hsilent =>
        cases h
        exact .inl ⟨hsilent, rfl⟩
      · next hchanged => exact .inr ⟨hchanged, h⟩
  · rintro ⟨root', p', hpass, ⟨hsilent, rfl⟩ | ⟨hchanged, hrest⟩⟩
    · simp only [hpass, if_pos hsilent]
    · simp only [hpass, if_neg hchanged, hrest]

/-- What is read off a result that is there, is read off the result. -/
theorem exists_of_map_eq_some {α : Type} {x : Option (Except RuleError Optimized)}
    {f : Optimized → α} {a : α} (h : x.map (·.toOption.map f) = some (some a)) :
    ∃ out, x = some (.ok out) ∧ f out = a := by
  obtain ⟨r, rfl, hr⟩ := Option.map_eq_some_iff.mp h
  obtain ⟨out, hout, hf⟩ := Option.map_eq_some_iff.mp hr
  cases r with
  | error e => cases hout
  | ok out' =>
    cases hout
    exact ⟨out, rfl, hf⟩

/-! ### From one application to a whole optimization -/

/-- A relation between trees that can be chained and that goes up from the inputs
of a node to the node. -/
structure Congruence (R : PlanNode → PlanNode → Prop) : Prop where
  /-- Every tree is related to itself. -/
  refl : ∀ n, R n n
  /-- Steps can be chained. -/
  trans : ∀ {n m k}, R n m → R m k → R n k
  /-- A node goes along with its inputs. -/
  node : ∀ id op {inputs inputs'}, List.Forall₂ R inputs inputs' →
    R ⟨id, op, inputs⟩ ⟨id, op, inputs'⟩

/-- Every replacement by one of the rules is related to what it replaces. -/
def Relates (rules : RuleSet) (R : PlanNode → PlanNode → Prop) : Prop :=
  ∀ rule ∈ rules, ∀ n r next next', rule.applies n = true →
    (rule.transform n).run next = .ok (r, next') → R n r

variable {R : PlanNode → PlanNode → Prop}

theorem applyFirst_related (hR : Congruence R) (hrules : Relates rules R) {n r : PlanNode}
    {p q : Progress} (h : applyFirst config rules n p = .ok (r, q)) : R n r := by
  rcases applyFirst_eq_ok_iff.mp h with ⟨-, rfl, -⟩ | ⟨rule, hfind, happ⟩
  · exact hR.refl r
  · obtain ⟨next, hrun, -⟩ := applyRule_eq_ok_iff.mp happ
    have hbinds := List.find?_some hfind
    exact hrules rule (List.mem_of_find?_eq_some hfind) n r _ _ hbinds hrun

theorem eachInput_related
    {f : PlanNode → Progress → Option (Except RuleError (PlanNode × Progress))}
    (hf : ∀ n m p q, f n p = some (.ok (m, q)) → R n m) {l out : List PlanNode}
    {p q : Progress} (h : eachInput f l p = some (.ok (out, q))) : List.Forall₂ R l out := by
  induction l generalizing out p with
  | nil =>
    cases h
    exact .nil
  | cons n rest ih =>
    obtain ⟨n', p', rest', hn, hrest, rfl⟩ := eachInput_cons_eq_ok_iff.mp h
    exact .cons (hf _ _ _ _ hn) (ih hrest)

/-- **A pass relates trees** if every application does. -/
theorem pass_related (hR : Congruence R) (hrules : Relates rules R) {depth : Nat}
    {n m : PlanNode} {p q : Progress} (h : pass config rules depth n p = some (.ok (m, q))) :
    R n m := by
  induction depth generalizing n m p q with
  | zero => cases h
  | succ depth ih =>
    obtain ⟨⟨id, op, below⟩, p', inputs, hfirst, hinputs, rfl⟩ := pass_succ_eq_ok_iff.mp h
    have hbelow : List.Forall₂ R below inputs :=
      eachInput_related (R := R) (fun _ _ _ _ hpass => ih hpass) hinputs
    exact hR.trans (applyFirst_related hR hrules hfirst) (hR.node id op hbelow)

theorem passes_related (hR : Congruence R) (hrules : Relates rules R) {depth left made : Nat}
    {root : PlanNode} {p : Progress} {out : Optimized}
    (h : passes config rules depth left made root p = some (.ok out)) : R root out.plan.root := by
  induction left generalizing made root p with
  | zero => cases h
  | succ left ih =>
    obtain ⟨root', p', hpass, hend⟩ := passes_succ_eq_ok_iff.mp h
    have hroot := pass_related hR hrules hpass
    rcases hend with ⟨-, rfl⟩ | ⟨-, hrest⟩
    · exact hroot
    · exact hR.trans hroot (ih hrest)

/-- **An optimized plan is related to the plan**, whatever the rules, if every
application of them relates what it replaces to the replacement. -/
theorem run_related (hR : Congruence R) (hrules : Relates rules R) {depth : Nat} {plan : Plan}
    {out : Optimized} (h : run depth config rules plan = some (.ok out)) :
    R plan.root out.plan.root :=
  passes_related hR hrules h

end KeyedSeries.Optimize

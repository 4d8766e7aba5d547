import Mathlib.Data.List.Forall2
import KeyedSeries.Optimize.Fixpoint
import KeyedSeries.Proofs.Plan.Position

/-!
# What a shape binds, and what a gate is asked about

A tree has a shape if every operator that the shape names is of its class and has as many inputs as
shapes are given for them, unless none is given (`KeyedSeries.Shape.Matches`). The positions in a
shape are those in a tree that has it, and so **what a shape binds in a tree are the nodes at the
positions at which the shape names an operator**, in preorder and each of them once
(`KeyedSeries.Shape.bind?_eq_some_iff`).

The nodes can be noted in one pass over the tree, each as soon as its own operator fits, when
nothing is known about its inputs yet (`KeyedSeries.Shape.bindInto`). What was noted for a tree that
turns out not to have the shape is thrown away, and so it comes to the same
(`KeyedSeries.Shape.bind?_eq_bindInto`).

A gate looks for the root of the tree among the nodes bound. It finds it there just if the shape of
its rule names the root; **a shape that is like anything binds no node at all**, and then there is
no root for the gate (`KeyedSeries.Optimize.rootless_namelessSource`).
-/

namespace KeyedSeries

namespace Shape

open PlanNode

/-- **Induction over shapes**: what holds of a shape whenever it holds of the shapes of the inputs
holds of all shapes. -/
theorem inductionOnInputs {motive : Shape → Prop} (any : motive .any)
    (node : ∀ cls shapes, (∀ s ∈ shapes, motive s) → motive (.node cls shapes)) :
    ∀ s, motive s
  | .any => any
  | .node cls shapes => node cls shapes fun s _ => inductionOnInputs any node s

/-! ### What a shape asks -/

/-- The part of a shape that is about the position of a tree. -/
def at? : Shape → Position → Option Shape
  | s, [] => some s
  | any, _ :: _ => none
  | node _ shapes, i :: p => shapes[i]?.bind fun s => s.at? p

/-- The shape names the operator at the position. -/
def Names (s : Shape) (p : Position) : Prop := ∃ cls shapes, s.at? p = some (.node cls shapes)

theorem not_names_any (p : Position) : ¬ Names any p := by
  rintro ⟨cls, shapes, h⟩
  cases p with
  | nil => cases h
  | cons i p => cases h

theorem names_node_nil (cls : OperatorClass) (shapes : List Shape) :
    (node cls shapes).Names [] := ⟨cls, shapes, rfl⟩

theorem names_node_cons {cls : OperatorClass} {shapes : List Shape} {i : Nat} {p : Position} :
    (node cls shapes).Names (i :: p) ↔ ∃ s, shapes[i]? = some s ∧ s.Names p := by
  simp only [Names, at?, Option.bind_eq_some_iff]
  exact ⟨fun ⟨cls, shapes, s, hs, h⟩ => ⟨s, hs, cls, shapes, h⟩,
    fun ⟨s, hs, cls, shapes, h⟩ => ⟨cls, shapes, s, hs, h⟩⟩

/-- A tree has a shape. -/
inductive Matches : Shape → PlanNode → Prop
  /-- There is a shape that any tree has. -/
  | any (n : PlanNode) : Matches any n
  /-- The root is of the class, and nothing is said about the inputs. -/
  | root {cls : OperatorClass} {n : PlanNode} (h : cls.accepts n.kind = true) :
    Matches (node cls []) n
  /-- The root is of the class, and the inputs have the given shapes one by one. -/
  | inputs {cls : OperatorClass} {shapes : List Shape} {n : PlanNode}
    (h : cls.accepts n.kind = true) (hinputs : List.Forall₂ Matches shapes n.inputs) :
    Matches (node cls shapes) n

/-! ### What a shape binds -/

@[simp] theorem bind?_any (n : PlanNode) : bind? any n = some [] := by rw [bind?]

@[simp] theorem bindAll?_nil (inputs : List PlanNode) : bindAll? [] inputs = some [] := by
  rw [bindAll?]
  nofun

theorem bindAll?_cons_eq_some_iff {s : Shape} {shapes : List Shape} {n : PlanNode}
    {inputs l : List PlanNode} : bindAll? (s :: shapes) (n :: inputs) = some l ↔
      ∃ first others, s.bind? n = some first ∧ bindAll? shapes inputs = some others ∧
        first ++ others = l := by
  rw [bindAll?]
  cases hfirst : s.bind? n with
  | none => simp
  | some first =>
    cases hothers : bindAll? shapes inputs with
    | none => simp
    | some others => simp

/-- The number of shapes given for the inputs of a node is right if it is none or theirs. -/
def CountFits (shapes : List Shape) (inputs : List PlanNode) : Prop :=
  shapes = [] ∨ shapes.length = inputs.length

theorem bind?_node_eq_some_iff {cls : OperatorClass} {shapes : List Shape} {n : PlanNode}
    {bound : List PlanNode} : bind? (node cls shapes) n = some bound ↔
      (cls.accepts n.kind = true ∧ CountFits shapes n.inputs) ∧
        ∃ l, bindAll? shapes n.inputs = some l ∧ n :: l = bound := by
  rw [bind?]
  by_cases h : cls.accepts n.kind = true ∧ CountFits shapes n.inputs
  · rw [if_pos (by simpa [CountFits] using h), Option.map_eq_some_iff]
    simp [h]
  · rw [if_neg (by simpa [CountFits] using h)]
    simp [h]

/-- What shapes bind in the trees beside them, if each of them binds what it names. -/
theorem listsBelow_of_bindAll? {shapes : List Shape} {inputs l : List PlanNode}
    (hshapes : ∀ s ∈ shapes, ∀ n bound, s.bind? n = some bound → n.ListsAt s.Names bound)
    (hcount : CountFits shapes inputs) (h : bindAll? shapes inputs = some l) :
    ListsBelow inputs (fun i p => ∃ s, shapes[i]? = some s ∧ s.Names p) l := by
  induction shapes generalizing inputs l with
  | nil =>
    rw [bindAll?_nil] at h
    cases h
    exact .none_of (by simp)
  | cons s shapes ih =>
    have hlength := hcount.resolve_left nofun
    cases inputs with
    | nil => cases hlength
    | cons n inputs =>
      obtain ⟨first, others, hfirst, hothers, rfl⟩ := bindAll?_cons_eq_some_iff.mp h
      have hs := hshapes s List.mem_cons_self n first hfirst
      have hrest := ih (fun t ht => hshapes t (List.mem_cons_of_mem _ ht))
        (.inr (Nat.succ.inj hlength)) hothers
      exact .cons (hs.congr (by simp)) (hrest.congr (by simp))

/-- **A shape binds the nodes at the positions that it names.** -/
theorem listsAt_of_bind? (s : Shape) (n : PlanNode) (bound : List PlanNode)
    (h : s.bind? n = some bound) : n.ListsAt s.Names bound := by
  induction s using inductionOnInputs generalizing n bound with
  | any =>
    rw [bind?_any] at h
    cases h
    exact ⟨[], .nil, fun p => by simp [not_names_any p], rfl⟩
  | node cls shapes ih =>
    obtain ⟨⟨-, hcount⟩, l, hl, rfl⟩ := bind?_node_eq_some_iff.mp h
    exact .root (names_node_nil cls shapes)
      ((listsBelow_of_bindAll? ih hcount hl).congr fun i p => names_node_cons.symm)

/-- Shapes bind something in the trees beside them just if each tree has its shape. -/
theorem isSome_bindAll?_iff {shapes : List Shape} {inputs : List PlanNode}
    (hshapes : ∀ s ∈ shapes, ∀ n, (s.bind? n).isSome ↔ s.Matches n)
    (hlength : shapes.length = inputs.length) :
    (bindAll? shapes inputs).isSome ↔ List.Forall₂ Matches shapes inputs := by
  induction shapes generalizing inputs with
  | nil =>
    obtain rfl := List.length_eq_zero_iff.mp hlength.symm
    simp
  | cons s shapes ih =>
    cases inputs with
    | nil => cases hlength
    | cons n inputs =>
      rw [List.forall₂_cons, ← hshapes s List.mem_cons_self,
        ← ih (fun t ht => hshapes t (List.mem_cons_of_mem _ ht)) (Nat.succ.inj hlength)]
      simp only [Option.isSome_iff_exists, bindAll?_cons_eq_some_iff]
      exact ⟨fun ⟨_, first, others, hfirst, hothers, _⟩ => ⟨⟨first, hfirst⟩, others, hothers⟩,
        fun ⟨⟨first, hfirst⟩, others, hothers⟩ => ⟨_, first, others, hfirst, hothers, rfl⟩⟩

/-- **A shape binds something just in the trees that have it.** -/
theorem isSome_bind?_iff (s : Shape) (n : PlanNode) : (s.bind? n).isSome ↔ s.Matches n := by
  induction s using inductionOnInputs generalizing n with
  | any => exact ⟨fun _ => .any n, fun _ => by simp⟩
  | node cls shapes ih =>
    have hnode : (bind? (node cls shapes) n).isSome ↔
        (cls.accepts n.kind = true ∧ CountFits shapes n.inputs) ∧
          (bindAll? shapes n.inputs).isSome := by
      simp only [Option.isSome_iff_exists, bind?_node_eq_some_iff]
      exact ⟨fun ⟨_, hroot, l, hl, _⟩ => ⟨hroot, l, hl⟩,
        fun ⟨hroot, l, hl⟩ => ⟨_, hroot, l, hl, rfl⟩⟩
    rw [hnode]
    constructor
    · rintro ⟨⟨hroot, rfl | hlength⟩, hinputs⟩
      · exact .root hroot
      · exact .inputs hroot ((isSome_bindAll?_iff ih hlength).mp hinputs)
    · intro h
      cases h with
      | root hroot => exact ⟨⟨hroot, .inl rfl⟩, by simp⟩
      | inputs hroot hinputs =>
        have hlength := hinputs.length_eq
        exact ⟨⟨hroot, .inr hlength⟩, (isSome_bindAll?_iff ih hlength).mpr hinputs⟩

/-- **What a shape binds**: nothing in a tree that does not have it, and in a tree that has it the
nodes at the positions that it names. -/
theorem bind?_eq_some_iff {s : Shape} {n : PlanNode} {bound : List PlanNode} :
    s.bind? n = some bound ↔ s.Matches n ∧ n.ListsAt s.Names bound := by
  constructor
  · intro h
    exact ⟨(isSome_bind?_iff s n).mp (by rw [h]; rfl), listsAt_of_bind? s n bound h⟩
  · rintro ⟨hmatches, hbound⟩
    obtain ⟨bound', h⟩ := Option.isSome_iff_exists.mp ((isSome_bind?_iff s n).mpr hmatches)
    rw [h, (listsAt_of_bind? s n bound' h).unique hbound]

/-! ### Noting nodes on the way -/

mutual

/-- One pass over the tree that notes a node as soon as its operator fits, behind those noted
before: whether the tree has the shape, and the nodes noted when that was known. -/
def bindInto : Shape → PlanNode → List PlanNode → Bool × List PlanNode
  | any, _, noted => (true, noted)
  | node cls shapes, n, noted =>
    if !cls.accepts n.kind then (false, noted)
    else if !shapes.isEmpty && shapes.length != n.inputs.length then (false, noted)
    else bindAllInto shapes n.inputs (noted ++ [n])

/-- The same pass over trees, beside their shapes; it stops at the first one that does not have
its shape. -/
def bindAllInto : List Shape → List PlanNode → List PlanNode → Bool × List PlanNode
  | s :: shapes, n :: inputs, noted =>
    match s.bindInto n noted with
    | (true, noted) => bindAllInto shapes inputs noted
    | (false, noted) => (false, noted)
  | _, _, noted => (true, noted)

end

/-- A pass comes to the given result: to these nodes behind those noted before, or to a failure
with whatever it noted on the way. -/
def ComesTo (pass : Bool × List PlanNode) (noted : List PlanNode) : Option (List PlanNode) → Prop
  | some bound => pass = (true, noted ++ bound)
  | none => pass.1 = false

theorem comesTo_bindAllInto {shapes : List Shape}
    (hshapes : ∀ s ∈ shapes, ∀ n noted, ComesTo (s.bindInto n noted) noted (s.bind? n))
    (inputs noted : List PlanNode) :
    ComesTo (bindAllInto shapes inputs noted) noted (bindAll? shapes inputs) := by
  induction shapes generalizing inputs noted with
  | nil =>
    rw [bindAllInto, bindAll?_nil]
    · simp [ComesTo]
    · nofun
  | cons s shapes ih =>
    cases inputs with
    | nil => simp [bindAllInto, bindAll?, ComesTo]
    | cons n inputs =>
      have hfirst := hshapes s List.mem_cons_self n noted
      rw [bindAllInto, bindAll?]
      cases hs : s.bind? n with
      | none =>
        obtain ⟨ok, noted', hpass⟩ : ∃ ok noted', s.bindInto n noted = (ok, noted') := ⟨_, _, rfl⟩
        rw [hs, hpass] at hfirst
        obtain rfl : ok = false := hfirst
        rw [hpass]
        rfl
      | some first =>
        rw [hs] at hfirst
        obtain hfirst : s.bindInto n noted = (true, noted ++ first) := hfirst
        have hothers :=
          ih (fun t ht => hshapes t (List.mem_cons_of_mem _ ht)) inputs (noted ++ first)
        rw [hfirst]
        cases hall : bindAll? shapes inputs with
        | none => simpa [ComesTo, hall] using hothers
        | some others => simpa [ComesTo, hall] using hothers

theorem comesTo_bindInto (s : Shape) (n : PlanNode) (noted : List PlanNode) :
    ComesTo (s.bindInto n noted) noted (s.bind? n) := by
  induction s using inductionOnInputs generalizing n noted with
  | any => simp [bindInto, ComesTo]
  | node cls shapes ih =>
    have hinputs := comesTo_bindAllInto ih n.inputs (noted ++ [n])
    have hmiscount : (!shapes.isEmpty && shapes.length != n.inputs.length) =
        !(shapes.isEmpty || shapes.length == n.inputs.length) := (Bool.not_or ..).symm
    rw [bindInto, bind?, hmiscount]
    cases cls.accepts n.kind with
    | false => rfl
    | true =>
      cases shapes.isEmpty || shapes.length == n.inputs.length with
      | false => rfl
      | true =>
        cases hall : bindAll? shapes n.inputs with
        | none => simpa [ComesTo, hall] using hinputs
        | some l => simpa [ComesTo, hall] using hinputs

/-- **Noting nodes on the way binds the same nodes**, if those of a tree without the shape are
thrown away. -/
theorem bind?_eq_bindInto (s : Shape) (n : PlanNode) :
    s.bind? n = if (s.bindInto n []).1 then some (s.bindInto n []).2 else none := by
  have h := comesTo_bindInto s n []
  cases hbind : s.bind? n with
  | none =>
    rw [hbind] at h
    rw [if_neg (by simpa [ComesTo] using h)]
  | some bound =>
    rw [hbind] at h
    obtain h : s.bindInto n [] = (true, bound) := h
    rw [h, if_pos rfl]

end Shape

/-! ### What gates are asked -/

/-- What gates are asked about a tree: for each rule whose shape the tree has, what that shape has
bound, up to the first rule whose gate opens. -/
def RuleSet.calls : RuleSet → PlanNode → List (Rule × Binding)
  | [], _ => []
  | r :: rules, n =>
    match r.shape.bind? n with
    | none => RuleSet.calls rules n
    | some bound => (r, ⟨bound⟩) :: if r.gate ⟨bound⟩ then [] else RuleSet.calls rules n

namespace Optimize

/-- The first rule that applies is the one whose gate opens when it is asked. -/
theorem find?_applies (rules : RuleSet) (n : PlanNode) :
    rules.find? (·.applies n) = ((rules.calls n).find? fun c => c.1.gate c.2).map (·.1) := by
  induction rules with
  | nil => rfl
  | cons r rules ih =>
    rw [List.find?_cons, RuleSet.calls, Rule.applies]
    cases r.shape.bind? n with
    | none => exact ih
    | some bound =>
      cases hgate : r.gate ⟨bound⟩ with
      | true => simp [hgate]
      | false => simpa [hgate] using ih

theorem mem_calls {rules : RuleSet} {n : PlanNode} {r : Rule} {call : Binding}
    (h : (r, call) ∈ rules.calls n) : r ∈ rules ∧ r.shape.bind? n = some call.nodes := by
  induction rules with
  | nil => cases h
  | cons r' rules ih =>
    rw [RuleSet.calls] at h
    cases hbind : r'.shape.bind? n with
    | none =>
      rw [hbind] at h
      obtain ⟨hr, hcall⟩ := ih h
      exact ⟨List.mem_cons_of_mem _ hr, hcall⟩
    | some bound =>
      rw [hbind] at h
      rcases List.mem_cons.mp h with heq | h
      · cases heq
        exact ⟨List.mem_cons_self, hbind⟩
      · split at h
        · cases h
        · obtain ⟨hr, hcall⟩ := ih h
          exact ⟨List.mem_cons_of_mem _ hr, hcall⟩

/-- A shape that names the root binds it as the first node, and the other shape binds nothing. -/
theorem root?_of_bind? {s : Shape} {n : PlanNode} {call : Binding}
    (h : s.bind? n = some call.nodes) :
    (call.root? = some n ↔ s ≠ .any) ∧ (call.root? = none ↔ s = .any) := by
  rw [Binding.root?]
  cases s with
  | any =>
    rw [Shape.bind?_any] at h
    simp [← Option.some.inj h]
  | node cls shapes =>
    obtain ⟨-, l, -, hl⟩ := Shape.bind?_node_eq_some_iff.mp h
    simp [← hl]

/-- **What shapes bind, and what gates are asked about.** A shape binds nodes just in the trees
that have it; these are the nodes at the positions that it names, in preorder and each of them
once. A gate is asked about the nodes that the shape of its rule has bound, and it finds the root
of the tree among them unless the shape is the one that says nothing about the root: then there is
none. -/
theorem bindings_exact (s : Shape) (rules : RuleSet) (n : PlanNode) :
    (s.bind? n = if (s.bindInto n []).1 then some (s.bindInto n []).2 else none) ∧
      ((s.bind? n).isSome ↔ s.Matches n) ∧
      (∀ bound, s.bind? n = some bound ↔ s.Matches n ∧ n.ListsAt s.Names bound) ∧
      (∀ config p, applyFirst config rules n p =
        match (rules.calls n).find? fun c => c.1.gate c.2 with
        | some c => applyRule config c.1 n p
        | none => .ok (n, p)) ∧
      ∀ r call, (r, call) ∈ rules.calls n → r ∈ rules ∧ r.shape.bind? n = some call.nodes ∧
        (call.root? = some n ↔ r.shape ≠ .any) ∧ (call.root? = none ↔ r.shape = .any) := by
  refine ⟨s.bind?_eq_bindInto n, s.isSome_bind?_iff n, fun bound => Shape.bind?_eq_some_iff,
    fun config p => ?_, fun r call h => ?_⟩
  · rw [applyFirst, find?_applies]
    cases (rules.calls n).find? fun c => c.1.gate c.2 with
    | none => rfl
    | some c => rfl
  · obtain ⟨hr, hbind⟩ := mem_calls h
    exact ⟨hr, hbind, root?_of_bind? hbind⟩

/-- A selection above a cross join of two sources. -/
def selectedPairs : PlanNode :=
  ⟨3, .select (.key .gt 1) none,
    [⟨2, .crossJoin "l" "r", [⟨0, .source "a", []⟩, ⟨1, .source "b", []⟩]⟩]⟩

theorem bindings_exact_selectedPairs :
    let bound := selectedPairs :: selectedPairs.inputs
    (selectIntoJoin.shape.bind? selectedPairs = some bound ∧
        selectedPairs.ListsAt selectIntoJoin.shape.Names bound) ∧
      (selectIntoJoin, ⟨bound⟩) ∈ RuleSet.default.calls selectedPairs ∧
        Binding.root? ⟨bound⟩ = some selectedPairs := by
  intro bound
  obtain ⟨-, -, hlists, -, hcalls⟩ :=
    bindings_exact selectIntoJoin.shape RuleSet.default selectedPairs
  have hbind : selectIntoJoin.shape.bind? selectedPairs = some bound := rfl
  have hcall : (selectIntoJoin, ⟨bound⟩) ∈ RuleSet.default.calls selectedPairs :=
    List.mem_cons_self
  obtain ⟨-, -, hroot, -⟩ := hcalls _ _ hcall
  exact ⟨⟨hbind, ((hlists bound).mp hbind).2⟩, hcall, hroot.mpr nofun⟩

/-- A rule for sources without a name, which looks for the source only when its gate is asked. -/
def namelessSource : Rule where
  name := "NamelessSource"
  shape := .any
  gate b := b.root?.any fun n =>
    match n.op with
    | .source name => name.isEmpty
    | _ => false
  transform := .done

/-- **A gate may look for the root in vain.** The tree has the shape of the rule, and what the gate
is asked about has no root. -/
theorem rootless_namelessSource :
    let n : PlanNode := ⟨0, .source "ab", []⟩
    n.check = none ∧ ∃ call, (namelessSource, call) ∈ RuleSet.calls [namelessSource] n ∧
      call.root? ≠ some n ∧ call.root? = none :=
  ⟨rfl, ⟨[]⟩, List.mem_cons_self, nofun, rfl⟩

end Optimize

end KeyedSeries

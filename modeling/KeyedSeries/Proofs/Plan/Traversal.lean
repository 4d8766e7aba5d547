import KeyedSeries.Plan.Tree

/-!
# Walking through a plan, and what its check finds

A walk on a stack lists a tree in **preorder** (`KeyedSeries.PlanNode.nodes_eq_preorder`),
and so what the check of a tree asks of the nodes of a walk can be said of the
nodes in preorder: every node has as many inputs as its operator takes, and no
id stands twice (`KeyedSeries.PlanNode.check_eq_none_iff`). That is
`KeyedSeries.PlanNode.Valid`, in a form in which it passes from a tree to the
trees below it.

Proofs about trees go by `KeyedSeries.PlanNode.inductionBelow`, which gives the
statement for all nodes strictly below the root and not only for its inputs:
a rule that looks two operators deep goes on below the second one.
-/

namespace KeyedSeries

namespace NodeId

/-- The id that comes `k` ids later; behind the last word, ids go on from zero. -/
def plus (i : NodeId) (k : Nat) : NodeId := i + .ofNat k

@[simp] theorem plus_zero (i : NodeId) : i.plus 0 = i := UInt32.add_zero i

theorem plus_one (i : NodeId) : i.plus 1 = i + 1 := rfl

theorem plus_plus (i : NodeId) (j k : Nat) : (i.plus j).plus k = i.plus (j + k) := by
  rw [plus, plus, plus, UInt32.ofNat_add, UInt32.add_assoc]

/-- As long as there are words left, ids are counted as numbers are. -/
theorem toNat_plus {i : NodeId} {k : Nat} (h : i.toNat + k < UInt32.size) :
    (i.plus k).toNat = i.toNat + k := by
  rw [UInt32.size] at h
  rw [plus, UInt32.toNat_add, UInt32.toNat_ofNat']
  omega

/-- Only behind the last word there is no next id. -/
theorem toNat_add_one {i : NodeId} (h : i + 1 ≠ 0) : (i + 1).toNat = i.toNat + 1 := by
  have hlt := i.toNat_lt_size
  have hne : (i + 1).toNat ≠ 0 := fun h0 => h (UInt32.toNat_inj.mp h0)
  rw [UInt32.size] at hlt
  rw [UInt32.toNat_add, UInt32.toNat_one] at hne ⊢
  omega

theorem lt_add_one_iff {i : NodeId} : i < i + 1 ↔ i + 1 ≠ 0 := by
  constructor
  · intro h h0
    rw [h0] at h
    exact UInt32.not_lt_zero h
  · intro h
    rw [UInt32.lt_iff_toNat_lt, toNat_add_one h]
    exact Nat.lt_succ_self _

end NodeId

namespace PlanNode

/-! ### Induction -/

@[simp] theorem preorders_nil : preorders [] = [] := by simp [preorders]

@[simp] theorem preorders_cons (n : PlanNode) (rest : List PlanNode) :
    preorders (n :: rest) = n.preorder ++ preorders rest := by simp [preorders]

theorem preorder_eq (n : PlanNode) : n.preorder = n :: preorders n.inputs := by
  obtain ⟨id, op, inputs⟩ := n
  simp [preorder]

@[simp] theorem preorder_mk (id : NodeId) (op : Operator) (inputs : List PlanNode) :
    preorder ⟨id, op, inputs⟩ = ⟨id, op, inputs⟩ :: preorders inputs := preorder_eq _

theorem mem_preorder_self (n : PlanNode) : n ∈ n.preorder := by
  rw [preorder_eq]
  exact List.mem_cons_self

theorem mem_preorders {m : PlanNode} {l : List PlanNode} :
    m ∈ preorders l ↔ ∃ n ∈ l, m ∈ n.preorder := by
  induction l with
  | nil => simp
  | cons n rest ih => simp [ih]

theorem mem_preorders_of_mem {n : PlanNode} {l : List PlanNode} (h : n ∈ l) : n ∈ preorders l :=
  mem_preorders.mpr ⟨n, h, n.mem_preorder_self⟩

/-- What is two steps below a node is below it. -/
theorem mem_preorders_of_mem_inputs {n m : PlanNode} (h : m ∈ n.inputs) : m ∈ preorders [n] := by
  rw [preorders_cons, preorders_nil, List.append_nil, preorder_eq]
  exact List.mem_cons_of_mem _ (mem_preorders_of_mem h)

@[simp] theorem sizes_nil : sizes [] = 0 := by simp [sizes]

@[simp] theorem sizes_cons (n : PlanNode) (rest : List PlanNode) :
    sizes (n :: rest) = n.size + sizes rest := by simp [sizes]

@[simp] theorem size_mk (id : NodeId) (op : Operator) (inputs : List PlanNode) :
    size ⟨id, op, inputs⟩ = 1 + sizes inputs := by simp [size]

theorem size_eq (n : PlanNode) : n.size = 1 + sizes n.inputs := by
  obtain ⟨id, op, inputs⟩ := n
  simp

theorem size_le_of_mem {n : PlanNode} {l : List PlanNode} (h : n ∈ l) : n.size ≤ sizes l := by
  induction l with
  | nil => simp at h
  | cons m rest ih =>
    rw [sizes_cons]
    rcases List.mem_cons.mp h with rfl | h
    · omega
    · have := ih h
      omega

/-- A node below another one is no larger. -/
theorem size_le_of_mem_preorder : ∀ (k : Nat) {n m : PlanNode}, n.size ≤ k → m ∈ n.preorder →
    m.size ≤ n.size
  | 0, n, _, hk, _ => by
    rw [size_eq] at hk
    omega
  | k + 1, n, m, hk, hm => by
    rw [preorder_eq] at hm
    rcases List.mem_cons.mp hm with rfl | hm
    · exact Nat.le_refl _
    · obtain ⟨i, hi, hmi⟩ := mem_preorders.mp hm
      have hsize := size_le_of_mem hi
      have hn := size_eq n
      have := size_le_of_mem_preorder k (by omega) hmi
      omega

/-- **Induction over all nodes below**: what holds of a tree whenever it holds of
every node strictly below its root holds of all trees. -/
theorem inductionBelow {motive : PlanNode → Prop}
    (node : ∀ n, (∀ m ∈ preorders n.inputs, motive m) → motive n) (n : PlanNode) : motive n := by
  suffices h : ∀ k m, size m ≤ k → motive m from h n.size n (Nat.le_refl _)
  intro k
  induction k with
  | zero =>
    intro m hm
    rw [size_eq] at hm
    omega
  | succ k ih =>
    intro m hm
    refine node m fun i hi => ih i ?_
    obtain ⟨j, hj, hij⟩ := mem_preorders.mp hi
    have hle := size_le_of_mem_preorder j.size (Nat.le_refl _) hij
    have hsize := size_le_of_mem hj
    rw [size_eq] at hm
    omega

/-- What lies below a node that lies below another one lies below that one. -/
theorem preorder_subset {n m : PlanNode} (h : m ∈ n.preorder) :
    ∀ i ∈ m.preorder, i ∈ n.preorder := by
  induction n using inductionBelow with
  | node n ih =>
    intro i hi
    rw [preorder_eq] at h ⊢
    rcases List.mem_cons.mp h with rfl | h
    · rwa [preorder_eq] at hi
    · obtain ⟨j, hj, hmj⟩ := mem_preorders.mp h
      have := ih j (mem_preorders_of_mem hj) hmj i hi
      exact List.mem_cons_of_mem _ (mem_preorders.mpr ⟨j, hj, this⟩)

/-! ### The walk -/

@[simp] theorem sizes_append (l l' : List PlanNode) : sizes (l ++ l') = sizes l + sizes l' := by
  induction l with
  | nil => simp
  | cons n rest ih =>
    simp [ih]
    omega

@[simp] theorem preorders_append (l l' : List PlanNode) :
    preorders (l ++ l') = preorders l ++ preorders l' := by
  induction l with
  | nil => simp
  | cons n rest ih => simp [ih]

/-- What a walk still lists is the preorder of what is on its stack. -/
theorem walk_eq_preorders : ∀ (steps : Nat) (stack : List PlanNode), sizes stack ≤ steps →
    walk steps stack = preorders stack
  | 0, [], _ => by simp [walk]
  | 0, n :: rest, h => by
    rw [sizes_cons, size_eq] at h
    omega
  | steps + 1, [], _ => by simp [walk]
  | steps + 1, n :: rest, h => by
    rw [sizes_cons, size_eq] at h
    have ih := walk_eq_preorders steps (n.inputs ++ rest) (by rw [sizes_append]; omega)
    rw [walk, ih, preorders_cons, preorders_append, preorder_eq, List.cons_append]

/-- **A walk lists the tree in preorder.** -/
theorem nodes_eq_preorder (n : PlanNode) : n.nodes = n.preorder := by
  rw [nodes, walk_eq_preorders _ _ (by simp), preorders_cons, preorders_nil, List.append_nil]

theorem length_preorders (l : List PlanNode) : (preorders l).length = sizes l := by
  suffices h : ∀ n : PlanNode, n.preorder.length = n.size by
    induction l with
    | nil => simp
    | cons n rest ih => simp [ih, h]
  intro n
  induction n using inductionBelow with
  | node n ih =>
    have hall : ∀ l : List PlanNode, (∀ m ∈ l, m.preorder.length = m.size) →
        (preorders l).length = sizes l := by
      intro l
      induction l with
      | nil => simp
      | cons m rest ihl =>
        intro h
        simp [h m List.mem_cons_self, ihl fun i hi => h i (List.mem_cons_of_mem _ hi)]
    rw [preorder_eq, size_eq, List.length_cons,
      hall n.inputs fun m hm => ih m (mem_preorders_of_mem hm)]
    omega

theorem length_preorder (n : PlanNode) : n.preorder.length = n.size := by
  rw [preorder_eq, size_eq, List.length_cons, length_preorders]
  omega

/-! ### Validity -/

/-- The ids of a tree, in preorder. -/
def ids (n : PlanNode) : List NodeId := n.preorder.map (·.id)

/-- What is known of the nodes of a walk, said of the ids of the tree. -/
theorem toNat_lt_of_mem_ids {n : PlanNode} {k : NodeId} (h : ∀ m ∈ n.nodes, m.id < k) :
    ∀ i ∈ n.ids, i.toNat < k.toNat := by
  intro i hi
  obtain ⟨m, hm, rfl⟩ := List.mem_map.mp hi
  exact UInt32.lt_iff_toNat_lt.mp (h m (by rwa [nodes_eq_preorder]))

/-- The ids of the trees of a list. -/
def allIds (l : List PlanNode) : List NodeId := (preorders l).map (·.id)

@[simp] theorem allIds_nil : allIds [] = [] := by simp [allIds]

@[simp] theorem allIds_cons (n : PlanNode) (rest : List PlanNode) :
    allIds (n :: rest) = n.ids ++ allIds rest := by simp [allIds, ids]

theorem ids_eq (n : PlanNode) : n.ids = n.id :: allIds n.inputs := by
  rw [ids, preorder_eq, List.map_cons, allIds]

/-- Every node of a tree has as many inputs as its operator takes. -/
def ArityFits (n : PlanNode) : Prop := ∀ m ∈ n.preorder, m.inputs.length = m.kind.arity

/-- **A valid tree**: the numbers of inputs are right, and no id stands twice. -/
structure Valid (n : PlanNode) : Prop where
  /-- Every node has as many inputs as its operator takes. -/
  arity : n.ArityFits
  /-- No id stands twice. -/
  nodup : n.ids.Nodup

theorem ArityFits.below {n m : PlanNode} (h : n.ArityFits) (hm : m ∈ n.preorder) : m.ArityFits :=
  fun i hi => h i (preorder_subset hm i hi)

theorem ArityFits.input {n m : PlanNode} (h : n.ArityFits) (hm : m ∈ n.inputs) : m.ArityFits :=
  h.below (by
    rw [preorder_eq]
    exact List.mem_cons_of_mem _ (mem_preorders_of_mem hm))

/-- A tree has the right numbers of inputs if its root has and its inputs have. -/
theorem arityFits_iff {n : PlanNode} :
    n.ArityFits ↔ n.inputs.length = n.kind.arity ∧ ∀ m ∈ n.inputs, m.ArityFits := by
  refine ⟨fun h => ⟨h n n.mem_preorder_self, fun m hm => h.input hm⟩, fun ⟨hn, hi⟩ m hm => ?_⟩
  rw [preorder_eq] at hm
  rcases List.mem_cons.mp hm with rfl | hm
  · exact hn
  · obtain ⟨i, hi', hmi⟩ := mem_preorders.mp hm
    exact hi i hi' m hmi

/-- No defect is found among nodes exactly if all have the right number of inputs
and their ids are new and different. -/
theorem firstDefect?_eq_none_iff {seen : List NodeId} {l : List PlanNode} :
    firstDefect? seen l = none ↔
      (∀ n ∈ l, n.inputs.length = n.kind.arity) ∧ (∀ n ∈ l, n.id ∉ seen) ∧
        (l.map (·.id)).Nodup := by
  induction l generalizing seen with
  | nil => simp [firstDefect?]
  | cons n rest ih =>
    rw [firstDefect?]
    by_cases ha : n.inputs.length = n.kind.arity
    · by_cases hs : n.id ∈ seen
      · simp [ha, hs]
      · have hc : seen.contains n.id = false := by simpa using hs
        simp only [ha, ne_eq, not_true_eq_false, if_false, hc, Bool.false_eq_true, ih,
          List.mem_cons, forall_eq_or_imp, true_and, List.map_cons, List.nodup_cons,
          List.mem_map, not_or, not_exists, not_and]
        constructor
        · rintro ⟨hr, hn, hd⟩
          exact ⟨hr, ⟨hs, fun m hm => (hn m hm).2⟩, fun m hm => (hn m hm).1, hd⟩
        · rintro ⟨hr, ⟨-, hn⟩, hne, hd⟩
          exact ⟨hr, fun m hm => ⟨hne m hm, hn m hm⟩, hd⟩
    · simp [ha]

/-- **The check passes exactly the valid trees.** -/
theorem check_eq_none_iff {n : PlanNode} : n.check = none ↔ n.Valid := by
  rw [check, nodes_eq_preorder, firstDefect?_eq_none_iff]
  exact ⟨fun ⟨ha, _, hd⟩ => ⟨ha, hd⟩, fun ⟨ha, hd⟩ => ⟨ha, by simp, hd⟩⟩

theorem Valid.input {n m : PlanNode} (h : n.Valid) (hm : m ∈ n.inputs) : m.Valid := by
  refine ⟨h.arity.input hm, ?_⟩
  have hd := h.nodup
  rw [ids_eq, List.nodup_cons] at hd
  obtain ⟨s, t, ht⟩ := List.append_of_mem hm
  have hids : allIds n.inputs = allIds s ++ (m.ids ++ allIds t) := by
    rw [ht, allIds, preorders_append, preorders_cons]
    simp [allIds, ids]
  rw [hids] at hd
  exact (List.nodup_append.mp (List.nodup_append.mp hd.2).2.1).1

end PlanNode

end KeyedSeries

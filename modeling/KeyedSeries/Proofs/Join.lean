import Mathlib.Data.List.Forall2
import KeyedSeries.Proofs.Filter.Conjuncts

/-!
# What a join keeps of its condition

Choosing an algorithm takes a condition apart and puts a part of it together again.
**Nothing gets lost on the way** (`KeyedSeries.JoinAlgorithm.choose_splits`): the
conjuncts that are equalities across the two sides become the keys, all others the
residual, both in their order, and the two together demand of every row what the
condition demands.

What counts as an equality across the sides is said here without the choice
(`KeyedSeries.Filter.IsCross`), by the texts of the two paths. A conjunct is one if and
only if it gives a key (`KeyedSeries.Filter.equiKey?_eq_none_iff`), and it has no
conjuncts but itself, so that the residual is taken apart into what it was put together
from (`KeyedSeries.Filter.conjunctsOf_ofConjuncts`).
-/

namespace KeyedSeries

/-- The path is the root with a point and more behind it, and the root is not empty. -/
def LiesUnder (root path : String) : Prop := root ≠ "" ∧ ∃ rest, path = root ++ "." ++ rest

theorem isBelow_iff {root path : String} : isBelow root path = true ↔ LiesUnder root path := by
  have hpoint : ".".toList = ['.'] := rfl
  rw [isBelow, Bool.and_eq_true, bne_iff_ne, List.isPrefixOf_iff_prefix]
  refine and_congr_right fun _ => ⟨?_, ?_⟩
  · rintro ⟨rest, hrest⟩
    refine ⟨String.ofList rest, String.toList_inj.mp ?_⟩
    rw [String.toList_append, String.toList_append, hpoint, String.toList_ofList, hrest]
  · rintro ⟨rest, rfl⟩
    refine ⟨rest.toList, ?_⟩
    rw [String.toList_append, String.toList_append, hpoint]

namespace Filter

variable {leftRoot rightRoot : String} {c f : Filter} {k : EquiKey}

/-! ### Equalities across the sides -/

/-- The filter demands that the two paths of the key are equal, one way round or the
other. -/
def IsEquality (c : Filter) (k : EquiKey) : Prop :=
  c = .cells k.left .eq k.right ∨ c = .cells k.right .eq k.left

/-- The filter demands that a path below one root equals a path below the other one. -/
def IsCross (leftRoot rightRoot : String) (c : Filter) : Prop :=
  ∃ k : EquiKey, c.IsEquality k ∧ LiesUnder leftRoot k.left ∧ LiesUnder rightRoot k.right

/-- The key of a conjunct has one of the paths that the conjunct compares on either
side. -/
theorem equiKey?_spec (h : c.equiKey? leftRoot rightRoot = some k) :
    c.IsEquality k ∧ LiesUnder leftRoot k.left ∧ LiesUnder rightRoot k.right := by
  match c with
  | cells a .eq b =>
    simp only [equiKey?, Bool.and_eq_true] at h
    split at h
    · next hsides =>
      cases h
      exact ⟨.inl rfl, isBelow_iff.mp hsides.1, isBelow_iff.mp hsides.2⟩
    · split at h
      · next hsides =>
        cases h
        exact ⟨.inr rfl, isBelow_iff.mp hsides.1, isBelow_iff.mp hsides.2⟩
      · cases h
  | key .. | cell .. | const _ | and _ | or _ | not _ => simp [equiKey?] at h
  | cells a .ne b | cells a .lt b | cells a .le b | cells a .gt b | cells a .ge b
  | cells a .like b => simp [equiKey?] at h

/-- **A conjunct gives no key** if and only if it is no equality across the sides. -/
theorem equiKey?_eq_none_iff :
    c.equiKey? leftRoot rightRoot = none ↔ ¬c.IsCross leftRoot rightRoot := by
  constructor
  · rintro hnone ⟨⟨a, b⟩, hc, ha, hb⟩
    rw [← isBelow_iff] at ha hb
    rcases hc with rfl | rfl
    · simp [equiKey?, ha, hb] at hnone
    · -- The paths may lie the right way round as well, where one root is below the other.
      simp only [equiKey?, ha, hb, Bool.and_self, if_true] at hnone
      split at hnone <;> cases hnone
  · intro hcross
    cases hk : c.equiKey? leftRoot rightRoot with
    | none => rfl
    | some k => exact absurd ⟨k, equiKey?_spec hk⟩ hcross

/-- Every key is the one of a conjunct, in the order of the conjuncts. -/
theorem forall₂_equiKey? (leftRoot rightRoot : String) (fs : List Filter) :
    List.Forall₂ IsEquality (fs.filter fun c => (c.equiKey? leftRoot rightRoot).isSome)
      (fs.filterMap (·.equiKey? leftRoot rightRoot)) := by
  induction fs with
  | nil => exact .nil
  | cons c rest ih =>
    cases hk : c.equiKey? leftRoot rightRoot with
    | none =>
      rw [List.filter_cons_of_neg (by simp [hk]), List.filterMap_cons_none hk]
      exact ih
    | some k =>
      rw [List.filter_cons_of_pos (by simp [hk]), List.filterMap_cons_some hk]
      exact .cons (equiKey?_spec hk).1 ih

/-! ### Conjuncts of what was put together -/

/-- The conjuncts of an optional filter; an absent one has none. -/
def conjunctsOf (f : Option Filter) : List Filter := f.elim [] conjuncts

/-- A conjunct is taken apart no further. -/
theorem conjuncts_of_mem (h : c ∈ f.conjuncts) : c.conjuncts = [c] := by
  induction f using inductionBelow with
  | and fs ih =>
    rw [conjuncts, allConjuncts_eq_flatMap] at h
    obtain ⟨f, hf, hc⟩ := List.mem_flatMap.mp h
    exact ih f hf hc
  | key | cell | cells | const | or | not =>
    obtain rfl := List.mem_singleton.mp h
    rfl

theorem flatMap_conjuncts {fs : List Filter} (h : ∀ c ∈ fs, c.conjuncts = [c]) :
    fs.flatMap conjuncts = fs := by
  induction fs with
  | nil => rfl
  | cons c rest ih =>
    obtain ⟨hc, hrest⟩ := List.forall_mem_cons.mp h
    rw [List.flatMap_cons, hc, ih hrest, List.singleton_append]

/-- **Conjuncts that are put together** can be told apart again. -/
theorem conjunctsOf_ofConjuncts {fs : List Filter} (h : ∀ c ∈ fs, c.conjuncts = [c]) :
    conjunctsOf (ofConjuncts fs) = fs := by
  match fs with
  | [] => rfl
  | [c] => exact h c List.mem_cons_self
  | c :: d :: rest =>
    rw [ofConjuncts, conjunctsOf, Option.elim_some, conjuncts, allConjuncts_eq_flatMap,
      flatMap_conjuncts h]
    · rintro ⟨⟩
    · rintro _ ⟨⟩

end Filter

namespace JoinAlgorithm

open KeyedSeries.Filter

variable {leftRoot rightRoot : String} {f : Filter}

/-! ### The choice -/

/-- Which algorithm is chosen depends on whether there are keys. -/
theorem choose_some (leftRoot rightRoot : String) (f : Filter) :
    choose leftRoot rightRoot (some f) =
      if f.conjuncts.filterMap (·.equiKey? leftRoot rightRoot) = [] then nestedLoop
      else hash (f.conjuncts.filterMap (·.equiKey? leftRoot rightRoot))
        (ofConjuncts (f.conjuncts.filter fun c => (c.equiKey? leftRoot rightRoot).isNone)) := by
  rw [choose]
  split
  · next hnone => rw [if_pos hnone]
  · next hkeys => rw [if_neg hkeys]

/-- All pairs are tried if no conjunct is an equality across the sides. -/
theorem choose_eq_nestedLoop_iff : choose leftRoot rightRoot (some f) = nestedLoop ↔
    ∀ c ∈ f.conjuncts, ¬c.IsCross leftRoot rightRoot := by
  have hnone : f.conjuncts.filterMap (·.equiKey? leftRoot rightRoot) = [] ↔
      ∀ c ∈ f.conjuncts, ¬c.IsCross leftRoot rightRoot := by
    rw [List.filterMap_eq_nil_iff]
    exact forall₂_congr fun c _ => equiKey?_eq_none_iff
  rw [choose_some, ← hnone]
  split
  · next h => exact iff_of_true rfl h
  · next h => exact iff_of_false nofun h

/-- **A condition is split into keys and a residual.** Where pairs are found by keys,
the keys and the residual accept together what the condition accepts; the paths of the
keys lie on their sides; no conjunct of the residual is an equality across the sides;
and keys and residual make up the conjuncts of the condition, each of them once and in
their order. All pairs are tried if and only if no conjunct is an equality across the
sides. -/
theorem choose_splits (leftRoot rightRoot : String) (f : Filter) :
    (∀ keys residual, choose leftRoot rightRoot (some f) = hash keys residual →
      (∀ row, f.accepts row = true ↔
        (∀ k ∈ keys, (Filter.cells k.left .eq k.right).accepts row = true) ∧
          acceptsOptional residual row = true) ∧
      (∀ k ∈ keys, LiesUnder leftRoot k.left ∧ LiesUnder rightRoot k.right) ∧
      (∀ c ∈ conjunctsOf residual, ¬c.IsCross leftRoot rightRoot) ∧
      ∃ equalities : List Filter, List.Forall₂ IsEquality equalities keys ∧
        equalities.Sublist f.conjuncts ∧ (conjunctsOf residual).Sublist f.conjuncts ∧
          (equalities ++ conjunctsOf residual).Perm f.conjuncts) ∧
    (choose leftRoot rightRoot (some f) = nestedLoop ↔
      ∀ c ∈ f.conjuncts, ¬c.IsCross leftRoot rightRoot) := by
  refine ⟨fun keys residual h => ?_, choose_eq_nestedLoop_iff⟩
  have hkeeps := keeps_choose leftRoot rightRoot (some f)
  rw [h] at hkeeps
  rw [choose_some] at h
  split at h
  · cases h
  obtain ⟨rfl, rfl⟩ := JoinAlgorithm.hash.inj h
  have hconjuncts : conjunctsOf (ofConjuncts
      (f.conjuncts.filter fun c => (c.equiKey? leftRoot rightRoot).isNone)) =
        f.conjuncts.filter fun c => (c.equiKey? leftRoot rightRoot).isNone :=
    conjunctsOf_ofConjuncts fun c hc => conjuncts_of_mem (List.mem_filter.mp hc).1
  refine ⟨fun row => ?_, fun k hk => ?_, fun c hc => ?_, _,
    forall₂_equiKey? leftRoot rightRoot f.conjuncts, List.filter_sublist, ?_, ?_⟩
  · rw [← acceptsOptional_some f row, ← hkeeps row, keeps, Bool.and_eq_true, List.all_eq_true]
    rfl
  · obtain ⟨c, -, hc⟩ := List.mem_filterMap.mp hk
    exact (equiKey?_spec hc).2
  · rw [hconjuncts] at hc
    exact equiKey?_eq_none_iff.mp (Option.isNone_iff_eq_none.mp (List.mem_filter.mp hc).2)
  · rw [hconjuncts]
    exact List.filter_sublist
  · rw [hconjuncts]
    simpa using List.filter_append_perm (fun c => (c.equiKey? leftRoot rightRoot).isSome)
      f.conjuncts

/-- A condition with a further conjunction in it, whose equality is the other way
round. -/
def mixedCondition : Filter :=
  .and [.cell "l.n" .gt (.long 1),
    .and [.cells "r.id" .eq "l.id", .cells "l.a" .eq "l.b"], .cells "l.k" .eq "r.k"]

theorem choose_splits_mixedCondition :
    let keys : List EquiKey := [⟨"l.id", "r.id"⟩, ⟨"l.k", "r.k"⟩]
    let residual : Filter := .and [.cell "l.n" .gt (.long 1), .cells "l.a" .eq "l.b"]
    choose "l" "r" (some mixedCondition) = hash keys (some residual) ∧
      (∀ row, mixedCondition.accepts row = true ↔
        (∀ k ∈ keys, (Filter.cells k.left .eq k.right).accepts row = true) ∧
          residual.accepts row = true) ∧
      (∀ c ∈ residual.conjuncts, ¬c.IsCross "l" "r") ∧
      ¬∀ c ∈ mixedCondition.conjuncts, ¬c.IsCross "l" "r" := by
  intro keys residual
  have hchoose : choose "l" "r" (some mixedCondition) = hash keys (some residual) := by
    rw [choose_some]
    rfl
  obtain ⟨hhash, hnested⟩ := choose_splits "l" "r" mixedCondition
  obtain ⟨hrows, -, hcross, -⟩ := hhash keys (some residual) hchoose
  refine ⟨hchoose, hrows, hcross, ?_⟩
  rw [← hnested, hchoose]
  exact nofun

end JoinAlgorithm

end KeyedSeries

import KeyedSeries.Filter.Evaluation
import KeyedSeries.Join
import KeyedSeries.Proofs.Value.Order

/-!
# Filters taken apart

A filter accepts a row if and only if all its conjuncts do
(`KeyedSeries.Filter.accepts_eq_all_conjuncts`), and so do the conjuncts of an
optional filter that was put together again
(`KeyedSeries.Filter.acceptsOptional_ofConjuncts`). Among the conjuncts are the
equalities that a join can use as its keys; a key says about a row what the
conjunct it was read off says (`KeyedSeries.Filter.accepts_equiKey?`), even
where the two paths have changed places.
-/

namespace KeyedSeries

namespace Filter

variable {row : FilterRow}

/-- **Induction over a filter**, with all operands of a connective at once. -/
theorem inductionBelow {motive : Filter → Prop}
    (key : ∀ c k, motive (key c k)) (cell : ∀ path c v, motive (cell path c v))
    (cells : ∀ left c right, motive (cells left c right)) (const : ∀ b, motive (const b))
    (and : ∀ fs, (∀ f ∈ fs, motive f) → motive (and fs))
    (or : ∀ fs, (∀ f ∈ fs, motive f) → motive (or fs))
    (not : ∀ f, motive f → motive (not f)) (f : Filter) : motive f := by
  have hbelow : ∀ g : Filter, sizeOf g < sizeOf f → motive g := fun g _ =>
    inductionBelow key cell cells const and or not g
  match f with
  | .key c k => exact key c k
  | .cell path c v => exact cell path c v
  | .cells left c right => exact cells left c right
  | .const b => exact const b
  | .and fs =>
    refine and fs fun g hg => hbelow g ?_
    have := List.sizeOf_lt_of_mem hg
    simp only [Filter.and.sizeOf_spec]
    omega
  | .or fs =>
    refine or fs fun g hg => hbelow g ?_
    have := List.sizeOf_lt_of_mem hg
    simp only [Filter.or.sizeOf_spec]
    omega
  | .not g => exact not g (hbelow g (by simp only [Filter.not.sizeOf_spec]; omega))
termination_by sizeOf f

/-! ### Evaluation, connective by connective -/

theorem allAcceptWith_eq (regex : String → Option Regex) (row : FilterRow) (fs : List Filter) :
    allAcceptWith regex row fs = fs.all (·.acceptsWith regex row) := by
  induction fs with
  | nil => rfl
  | cons f rest ih => rw [allAcceptWith, ih, List.all_cons]

theorem anyAcceptsWith_eq (regex : String → Option Regex) (row : FilterRow) (fs : List Filter) :
    anyAcceptsWith regex row fs = fs.any (·.acceptsWith regex row) := by
  induction fs with
  | nil => rfl
  | cons f rest ih => rw [anyAcceptsWith, ih, List.any_cons]

@[simp] theorem accepts_const [PatternLibrary] (b : Bool) (row : FilterRow) :
    (const b).accepts row = b := rfl

@[simp] theorem accepts_and [PatternLibrary] (fs : List Filter) (row : FilterRow) :
    (and fs).accepts row = fs.all (·.accepts row) :=
  allAcceptWith_eq wholeText? row fs

@[simp] theorem accepts_or [PatternLibrary] (fs : List Filter) (row : FilterRow) :
    (or fs).accepts row = fs.any (·.accepts row) :=
  anyAcceptsWith_eq wholeText? row fs

@[simp] theorem accepts_not [PatternLibrary] (f : Filter) (row : FilterRow) :
    (not f).accepts row = !f.accepts row := rfl

@[simp] theorem accepts_key [PatternLibrary] (c : Comparison) (k : Key) (row : FilterRow) :
    (key c k).accepts row = c.holds (compare row.key k) := rfl

/-- Two paths are equal on a row that has values at both, and equal ones. -/
theorem accepts_cells_eq {a b : String} :
    (cells a .eq b).accepts row = true ↔
      ∃ x y, row.value a = some x ∧ row.value b = some y ∧ x.compare? y = some .eq := by
  rw [accepts, acceptsWith]
  cases row.value a with
  | none => simp
  | some x =>
    cases row.value b with
    | none => simp
    | some y =>
      cases hxy : x.compare? y with
      | none => simp [compareWith, hxy]
      | some o => simp [compareWith, hxy, Comparison.holds]

/-- Equality of two paths has no direction. -/
theorem accepts_cells_eq_comm (a b : String) (row : FilterRow) :
    (cells a .eq b).accepts row = (cells b .eq a).accepts row := by
  rw [Bool.eq_iff_iff, accepts_cells_eq, accepts_cells_eq]
  constructor
  · rintro ⟨x, y, hx, hy, hxy⟩
    exact ⟨y, x, hy, hx, Value.compare?_eq_comm.mp hxy⟩
  · rintro ⟨y, x, hy, hx, hyx⟩
    exact ⟨x, y, hx, hy, Value.compare?_eq_comm.mp hyx⟩

/-! ### Optional filters -/

/-- Whether an optional filter accepts the row; an absent one accepts every row. -/
def acceptsOptional (f : Option Filter) (row : FilterRow) : Bool := f.all (·.accepts row)

@[simp] theorem acceptsOptional_none (row : FilterRow) : acceptsOptional none row = true := rfl

@[simp] theorem acceptsOptional_some (f : Filter) (row : FilterRow) :
    acceptsOptional (some f) row = f.accepts row := rfl

/-- **Combined filters ask both.** -/
@[simp] theorem acceptsOptional_combine (f g : Option Filter) (row : FilterRow) :
    acceptsOptional (combine f g) row = (acceptsOptional f row && acceptsOptional g row) := by
  cases f <;> cases g <;> simp [combine]

theorem acceptsOptional_ofConjuncts (fs : List Filter) (row : FilterRow) :
    acceptsOptional (ofConjuncts fs) row = fs.all (·.accepts row) := by
  match fs with
  | [] => rfl
  | [f] => simp [ofConjuncts]
  | f :: g :: rest => simp only [ofConjuncts, acceptsOptional_some, accepts_and]

/-! ### Conjuncts -/

theorem allConjuncts_eq_flatMap (fs : List Filter) : allConjuncts fs = fs.flatMap conjuncts := by
  induction fs with
  | nil => rfl
  | cons f rest ih => rw [allConjuncts, ih, List.flatMap_cons]

/-- **A filter is what its conjuncts are together.** -/
theorem accepts_eq_all_conjuncts (f : Filter) (row : FilterRow) :
    f.accepts row = f.conjuncts.all (·.accepts row) := by
  induction f using inductionBelow with
  | and fs ih =>
    rw [accepts_and, conjuncts, allConjuncts_eq_flatMap, List.all_flatMap]
    rw [Bool.eq_iff_iff, List.all_eq_true, List.all_eq_true]
    exact forall₂_congr fun f hf => by rw [ih f hf]
  | key c k | cell path c v | cells left c right | const b | or fs _ | not f _ => simp [conjuncts]

/-! ### Keys of a join -/

/-- The filter that demands of a row what a key of a join demands. -/
def ofKey (k : EquiKey) : Filter := .cells k.left .eq k.right

/-- Where a conjunct gives a key, the key demands the same of every row. -/
theorem accepts_equiKey? {leftRoot rightRoot : String} {f : Filter} {k : EquiKey}
    (h : f.equiKey? leftRoot rightRoot = some k) (row : FilterRow) :
    (ofKey k).accepts row = f.accepts row := by
  match f with
  | cells a .eq b =>
    simp only [equiKey?] at h
    split at h
    · cases h
      rfl
    · split at h
      · -- The sides are the other way round in the key.
        cases h
        exact accepts_cells_eq_comm b a row
      · cases h
  | key .. | cell .. | const _ | and _ | or _ | not _ => simp [equiKey?] at h
  | cells a .ne b | cells a .lt b | cells a .le b | cells a .gt b | cells a .ge b
  | cells a .like b => simp [equiKey?] at h

/-- **Keys and the other conjuncts together** demand what all conjuncts demand. -/
theorem all_accepts_split (leftRoot rightRoot : String) (fs : List Filter) (row : FilterRow) :
    fs.all (·.accepts row) =
      ((fs.filterMap (·.equiKey? leftRoot rightRoot)).all (fun k => (ofKey k).accepts row) &&
        (fs.filter fun c => (c.equiKey? leftRoot rightRoot).isNone).all (·.accepts row)) := by
  induction fs with
  | nil => rfl
  | cons f rest ih =>
    rw [List.all_cons, ih]
    cases hk : f.equiKey? leftRoot rightRoot with
    | none => simp [hk, Bool.and_left_comm]
    | some k => simp [hk, accepts_equiKey? hk row, Bool.and_assoc]

end Filter

namespace JoinAlgorithm

/-- Whether a join carried out in this way keeps a pair of rows, merged into one:
all keys have to be equal and the residual has to accept it, or the condition has
to where there are no keys to go by. -/
def keeps (condition : Option Filter) (row : FilterRow) : JoinAlgorithm → Bool
  | nestedLoop => Filter.acceptsOptional condition row
  | hash keys residual =>
    keys.all (fun k => (Filter.ofKey k).accepts row) && Filter.acceptsOptional residual row

/-- **The algorithm chosen for a condition keeps the pairs that the condition
accepts.** -/
theorem keeps_choose (leftRoot rightRoot : String) (condition : Option Filter) (row : FilterRow) :
    (choose leftRoot rightRoot condition).keeps condition row =
      Filter.acceptsOptional condition row := by
  cases condition with
  | none => rfl
  | some f =>
    simp only [choose]
    split
    · rfl
    · next keys _ =>
      rw [keeps, Filter.acceptsOptional_ofConjuncts, Filter.acceptsOptional_some,
        Filter.accepts_eq_all_conjuncts f row,
        Filter.all_accepts_split leftRoot rightRoot f.conjuncts]

end JoinAlgorithm

end KeyedSeries

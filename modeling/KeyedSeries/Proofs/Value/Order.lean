import KeyedSeries.Value.Order

/-!
# Swapping what is compared

Two values that are compared the other way round give the opposite order
(`KeyedSeries.Value.compare?_swap`), so that equality of values has no direction
(`KeyedSeries.Value.compare?_eq_comm`). What is behind it is that numbers are
compared over their *common* power of two, whichever of them comes first.
-/

namespace KeyedSeries

theorem Datum.compareScaled_swap (a p b q : Int) :
    compareScaled b q a p = (compareScaled a p b q).swap := by
  rw [compareScaled, compareScaled, Int.min_comm q p]
  exact Std.OrientedCmp.eq_swap

/-- **Data swap**: what is larger one way round is smaller the other way round. -/
theorem Datum.compare?_swap (x y : Datum) : y.compare? x = (x.compare? y).map (·.swap) := by
  cases x with
  | nan => cases y <;> rfl
  | infinity s =>
    cases y with
    | nan => rfl
    | infinity t => cases s <;> cases t <;> rfl
    | finite t b q => cases s <;> rfl
  | finite s a p =>
    cases y with
    | nan => rfl
    | infinity t => cases t <;> rfl
    | finite t b q =>
      simp only [compare?, Option.map_some]
      rw [compareScaled_swap]

namespace Value

/-- Numbers of different types swap, as their data do. -/
theorem compare?_datum_swap (a b : Value) :
    (do let y ← b.datum?; let x ← a.datum?; y.compare? x) =
      (do let x ← a.datum?; let y ← b.datum?; x.compare? y : Option Ordering).map (·.swap) := by
  cases a.datum? with
  | none => cases b.datum? <;> rfl
  | some x =>
    cases b.datum? with
    | none => rfl
    | some y => exact Datum.compare?_swap x y

/-- **Values swap**: what is larger one way round is smaller the other way round,
and what has no order has none either way. -/
theorem compare?_swap (a b : Value) : b.compare? a = (a.compare? b).map (·.swap) := by
  cases a <;> cases b <;>
    first
    | exact compare?_datum_swap _ _
    | exact congrArg some Std.OrientedCmp.eq_swap

/-- Equality of values has no direction. -/
theorem compare?_eq_comm {a b : Value} : a.compare? b = some .eq ↔ b.compare? a = some .eq := by
  rw [compare?_swap a b]
  cases a.compare? b with
  | none => simp
  | some o => cases o <;> simp

end Value

end KeyedSeries

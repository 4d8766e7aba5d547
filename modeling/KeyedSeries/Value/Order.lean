import KeyedSeries.Value

/-!
# The order of cells

Two cells can be compared if they are of one kind: truth values, bytes, or
numbers of any width (`KeyedSeries.Value.compare?`). Integers of one width are
compared as integers; every other pair of numbers goes through the
64-bit floating-point numbers, to which a 64-bit integer may have to be
rounded (`KeyedSeries.Value.datum?`).
-/

namespace KeyedSeries.Value

/-- The number a value counts as in a comparison across types. A floating-point
number and a 32-bit integer count as themselves, a 64-bit integer as the nearest
64-bit floating-point number. -/
def datum? : Value → Option Datum
  | integer i => some (BinaryFloat.ofInt (f := .double) i.toInt).datum
  | long i => some (BinaryFloat.ofInt (f := .double) i.toInt).datum
  | float x => some x.datum
  | double x => some x.datum
  | boolean _ | binary _ => none

/-- The order of two values, where they have one. -/
def compare? : Value → Value → Option Ordering
  | boolean a, boolean b => some (compare a b)
  | binary a, binary b => some (compare a b)
  | integer a, integer b => some (compare a b)
  | long a, long b => some (compare a b)
  | a, b => do
    let x ← a.datum?
    let y ← b.datum?
    x.compare? y

/-- Whether two values are of one type and the same: floating-point numbers
by their value, so that zeros are the same whatever their sign and what is not
a number is not even the same as itself. -/
def same : Value → Value → Bool
  | boolean a, boolean b => a == b
  | integer a, integer b => a == b
  | long a, long b => a == b
  | float a, float b => a.datum.compare? b.datum == some .eq
  | double a, double b => a.datum.compare? b.datum == some .eq
  | binary a, binary b => a == b
  | _, _ => false

end KeyedSeries.Value

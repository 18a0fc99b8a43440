import LeastSquares.Vector

/-!
# Scalars

Every numerical definition of the library is written once, over a type of scalars, so that the same
text has two readings: with the instance for `Float` it is IEEE double arithmetic, evaluated in the
order it is written, and with an instance for a field it is exact arithmetic.

Nothing is assumed of the operations. Rounding makes addition fail to associate and `NaN` makes
every comparison false, so the order of a sum and the direction of a comparison are part of each
definition below. A sum names the value it starts from: a sum that starts at `0` and one that
starts at `-0` differ when they have no terms.
-/

set_option autoImplicit false

namespace LeastSquares

class Scalar (α : Type) extends Zero α, One α, Add α, Sub α, Mul α, Div α, Neg α, LT α, LE α,
    BEq α, NatCast α, OfScientific α where
  sqrt : α → α
  abs : α → α
  /-- The distance from 1 to the next larger double, `2⁻⁵²`. -/
  epsilon : α
  /-- The least positive normal double, `2⁻¹⁰²²`. -/
  minPositive : α
  /-- The scalar that no other is below, if there is one. -/
  least? : Option α
  /-- The scalar that no other is above, if there is one. -/
  greatest? : Option α
  decLt : DecidableLT α
  decLe : DecidableLE α

instance Scalar.decidableLt {α : Type} [Scalar α] (x y : α) : Decidable (x < y) := Scalar.decLt x y

instance Scalar.decidableLe {α : Type} [Scalar α] (x y : α) : Decidable (x ≤ y) := Scalar.decLe x y

instance Scalar.float : Scalar Float where
  zero := 0.0
  one := 1.0
  natCast := Float.ofNat
  sqrt := Float.sqrt
  abs := Float.abs
  epsilon := Float.ofBits 0x3CB0000000000000
  minPositive := Float.ofBits 0x0010000000000000
  least? := some (Float.ofBits 0xFFF0000000000000)
  greatest? := some (Float.ofBits 0x7FF0000000000000)
  decLt := inferInstanceAs (DecidableLT Float)
  decLe := inferInstanceAs (DecidableLE Float)

namespace Scalar

variable {α : Type} [Scalar α]

@[specialize] def isNaN (x : α) : Bool := !(x == x)

/-- The larger of two scalars. Of two equal ones it is the first, and of a number and a `NaN` it is
the number. -/
@[specialize] def max (x y : α) : α :=
  if x == x then if x < y then y else x else y

@[specialize] def min (x y : α) : α :=
  if x == x then if y < x then y else x else y

/-! ## Ordered sums -/

variable {n : Nat}

/-- `start + f i₁ + f i₂ + …` over the indices that satisfy `p`, in increasing order. -/
@[specialize] def addOver (start : α) (p : Fin n → Bool) (f : Fin n → α) : α :=
  Fin.foldl n (fun acc i => if p i then acc + f i else acc) start

@[specialize] def subOver (start : α) (p : Fin n → Bool) (f : Fin n → α) : α :=
  Fin.foldl n (fun acc i => if p i then acc - f i else acc) start

/-- The sum of the squares of the entries that satisfy `p`, started at `-0`. -/
@[specialize] def sumSquares (p : Fin n → Bool) (v : Vector α n) : α :=
  addOver (-0) p fun i => v i * v i

@[specialize] def norm (p : Fin n → Bool) (v : Vector α n) : α := sqrt (sumSquares p v)

end Scalar

end LeastSquares

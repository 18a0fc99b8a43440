import LeastSquares.Scalar

/-!
# Targets

A target is a value that the model should take at a point, or a bound on it. A bound that the model
keeps is inactive: it adds nothing to chi-square and nothing to the gradient.
-/

set_option autoImplicit false

namespace LeastSquares

inductive Inequality where
  /-- The model should not exceed the target. -/
  | smaller
  | equal
  /-- The model should not fall below the target. -/
  | larger
deriving DecidableEq, Repr

instance : Inhabited Inequality := ⟨.equal⟩

variable {α : Type} [Scalar α] {m : Nat}

@[specialize] def Inequality.isActive (tag : Inequality) (value target : α) : Bool :=
  match tag with
  | .smaller => decide (target < value)
  | .equal => true
  | .larger => decide (value < target)

structure Targets (α : Type) (m : Nat) where
  target : Vector α m
  sigma : Vector α m
  tags : Vector Inequality m

namespace Targets

@[specialize] def active (T : Targets α m) (values : Vector α m) : Vector Bool m :=
  Vector.ofFn fun i => (T.tags i).isActive (values i) (T.target i)

@[specialize] def residual (T : Targets α m) (values : Vector α m) (i : Fin m) : α :=
  (T.target i - values i) / T.sigma i

@[specialize] def chiSquare (T : Targets α m) (active : Vector Bool m) (values : Vector α m) : α :=
  Scalar.addOver 0 (fun i => active i) fun i =>
    let residual := T.residual values i
    residual * residual

/-- The weight of point `i` in the gradient: its residual over its deviation once more, and zero
where it is inactive. -/
@[specialize] def weight (T : Targets α m) (active : Vector Bool m) (values : Vector α m)
    (i : Fin m) : α :=
  if active i then (T.target i - values i) / (T.sigma i * T.sigma i) else 0

end Targets

end LeastSquares

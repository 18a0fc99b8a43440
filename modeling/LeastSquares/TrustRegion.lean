import LeastSquares.Scalar

/-!
# The trust region

A step `x` is trusted while `‖D x‖` is about `delta` at most. The scaling `D` is diagonal and grows
with the column norms of the Jacobians met so far. After a trial step the radius follows the ratio
`rho` of the actual to the predicted reduction: it shrinks when the agreement is poor and grows when
it is good, and the damping parameter `alpha` moves the other way.
-/

set_option autoImplicit false

namespace LeastSquares

structure TrustRegion (α : Type) (n : Nat) where
  delta : α
  alpha : α
  /-- The diagonal of `D`. -/
  scale : Vector α n
  initialized : Bool

/-- What a trial step came to. Reductions are relative to the current chi-square. -/
structure TrialOutcome (α : Type) where
  actual : α
  predicted : α
  /-- The directional derivative of the normalized chi-square along the step. -/
  slope : α
  stepNorm : α
  /-- Whether chi-square grew beyond a hundred times its value. -/
  blewUp : Bool

namespace TrustRegion

variable {α : Type} [Scalar α] {n : Nat}

def initialFraction : α := 0.1

def initial : TrustRegion α n :=
  { delta := 0, alpha := 0, scale := Vector.replicate n 0, initialized := false }

/-- `‖D v‖`. -/
@[specialize] def scaledNorm (scale v : Vector α n) : α :=
  Scalar.norm (fun _ => true) (Vector.ofFn fun i : Fin n => scale i * v i)

@[specialize] def firstScale (norms : Vector α n) : Vector α n :=
  norms.map fun norm => if norm == 0 then 1 else norm

@[specialize] def firstRadius (scale a : Vector α n) : α :=
  let size := scaledNorm scale a
  if size == 0 then initialFraction else initialFraction * size

/-- Lets the scaling grow to the column norms of a new Jacobian. The first time it takes them as
they are, and the radius is set from the parameters `a`. -/
@[specialize] def rescale (T : TrustRegion α n) (norms a : Vector α n) : TrustRegion α n :=
  if T.initialized then
    { T with scale := Vector.ofFn fun i => Scalar.max (T.scale i) (norms i) }
  else
    let scale := firstScale norms
    { T with delta := firstRadius scale a, scale, initialized := true }

/-- The ratio of the actual to the predicted reduction, zero where none was predicted. -/
@[specialize] def agreement (trial : TrialOutcome α) : α :=
  if 0 < trial.predicted then trial.actual / trial.predicted else 0

/-- The factor by which a poor trial shrinks the radius: a half where chi-square went down, else the
minimum of the parabola through the trial; never below a tenth. -/
@[specialize] def shrinkage (trial : TrialOutcome α) : α :=
  let mu :=
    if 0 ≤ trial.actual then 0.5
    else 0.5 * trial.slope / (trial.slope + 0.5 * trial.actual)
  if trial.blewUp || Scalar.isNaN mu || decide (mu < 0.1) then 0.1 else mu

@[specialize] def adapt (T : TrustRegion α n) (trial : TrialOutcome α) : TrustRegion α n :=
  let rho := agreement trial
  if rho ≤ 0.25 then
    let mu := shrinkage trial
    { T with
      delta := mu * Scalar.min T.delta (trial.stepNorm / 0.1)
      alpha := T.alpha / mu }
  else if T.alpha == 0 || decide (0.75 ≤ rho) then
    { T with delta := trial.stepNorm / 0.5, alpha := T.alpha * 0.5 }
  else T

end TrustRegion

end LeastSquares

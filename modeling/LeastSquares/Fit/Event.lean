import LeastSquares.Fit.Status
import LeastSquares.TrustRegion.Damping

/-!
# What a fit reports

A running fit emits events in order: records for a log, a report on each trial step, and the status
that ends a run.
-/

set_option autoImplicit false

namespace LeastSquares

structure IterationReport (α : Type) where
  iteration : Nat
  chiSquare : α
  trialChiSquare : α
  /-- The ratio of the actual to the predicted reduction. -/
  rho : α
  alpha : α
  delta : α
  gradientNorm : α
  accepted : Bool
  bounded : Bool

inductive LogRecord (α : Type) where
  | clamped (parameter : Nat) (value limited : α)
  | prepared (chiSquare : α)
  | stuck (parameter : Nat)
  | rankDeficient (rank free : Nat)
  | terminated (iterations : Nat) (status : Status) (chiSquare : α)
  | search (seen : Damping.Observation α)

inductive Event (α : Type) where
  | log (record : LogRecord α)
  | iteration (report : IterationReport α)
  | finish (status : Status)

end LeastSquares

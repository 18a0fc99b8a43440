import LeastSquares.Fit.State
import LeastSquares.Products

/-!
# The correlation of parameters

The correlation of two parameters is that of their weighted sensitivities over the active points. A
parameter whose sensitivity does not vary there correlates with nothing, not even with itself.
-/

set_option autoImplicit false

namespace LeastSquares.Fit

variable {α σ ε : Type} [Scalar α] [Products α] {n m : Nat}

@[specialize] def sensitivity (fit : Fit α σ n m) (J : DenseMatrix α m n) (p : Fin n) (i : Fin m) :
    α :=
  J.get i p / fit.targets.sigma i

def activePoints (fit : Fit α σ n m) : List (Fin m) :=
  (List.finRange m).filter fun i => fit.active i

def activeCount (fit : Fit α σ n m) : Nat := fit.activePoints.length

@[specialize] def meanSensitivity (fit : Fit α σ n m) (J : DenseMatrix α m n) (p : Fin n) : α :=
  Scalar.addOver (-0) (fun i => fit.active i) (fit.sensitivity J p) / (fit.activeCount : α)

@[specialize] def centeredSensitivities (fit : Fit α σ n m) (J : DenseMatrix α m n) :
    DenseMatrix α fit.activeCount n :=
  let means : Vector α n := Vector.ofFn (fit.meanSensitivity J)
  .ofFn fun i p => fit.sensitivity J p (fit.activePoints.get i) - means p

@[specialize] def gram (fit : Fit α σ n m) (J : DenseMatrix α m n) : DenseMatrix α n n :=
  let centered := fit.centeredSensitivities J
  Products.transposeMul centered centered

@[specialize] def correlations (G : DenseMatrix α n n) : DenseMatrix α n n :=
  .ofFn fun p q =>
    if 0 < G.get p p ∧ 0 < G.get q q then
      G.get p q / Scalar.sqrt (G.get p p * G.get q q)
    else 0

/-- The sizes of the buffers that a call takes: for the centered sensitivities, their products and
the correlations. -/
def correlationBuffers (fit : Fit α σ n m) : List Nat := [fit.activeCount * n, n * n, n * n]

/-- The correlations at the current parameters, with memory for `budget` buffers. The derivatives
are evaluated and counted before memory is asked for. -/
def correlation (M : Model α σ ε n m) (budget : Nat) (fit : Fit α σ n m) :
    Call α σ ε n m (DenseMatrix α n n) :=
  if fit.prepared then
    match fit.evaluateJacobian M with
    | (fit, .error error) => .fail fit [] (.model error)
    | (fit, .ok J) =>
      match checkBudget budget fit.correlationBuffers with
      | .error error => .fail fit [] (.linalg error)
      | .ok () => { fit, events := [], result := .ok (correlations (fit.gram J)) }
  else .fail fit [] .notPrepared

end LeastSquares.Fit

import LeastSquares.LinalgError

/-!
# Errors of a fit
-/

set_option autoImplicit false

namespace LeastSquares

inductive SetupError (α : Type) where
  | invalidDimensions (parameters points : Nat)
  | dimensionMismatch (what : String) (expected actual : Nat)
  | zeroSigma (index : Nat)
  | invalidLimits (index : Nat) (lower upper : α)
  | linalg (error : LinalgError)

/-- Why a call on a fit failed, `ε` being the errors of the model. -/
inductive FitError (ε : Type) where
  | model (error : ε)
  | linalg (error : LinalgError)
  | notPrepared
  | alreadyPrepared

namespace SetupError

def message {α : Type} (scalar : α → String) : SetupError α → String
  | invalidDimensions parameters points =>
      "invalid dimensions: nb_par=" ++ toString parameters ++ ", nb_points=" ++ toString points
  | dimensionMismatch what expected actual =>
      what ++ " length " ++ toString actual ++ " does not match expected " ++ toString expected
  | zeroSigma index => "sigma[" ++ toString index ++ "] is zero"
  | invalidLimits index lower upper =>
      "limits of parameter " ++ toString index ++ " are inverted: " ++ scalar lower ++ " > " ++
        scalar upper
  | linalg error => error.message

def cause? {α : Type} : SetupError α → Option String
  | linalg error => some error.message
  | _ => none

end SetupError

namespace FitError

def message {ε : Type} (model : ε → String) : FitError ε → String
  | .model error => "model evaluation failed: " ++ model error
  | linalg error => "linear algebra failure: " ++ error.message
  | notPrepared => "prepare() must be called before iterating"
  | alreadyPrepared => "prepare() was already called"

def cause? {ε : Type} (model : ε → String) : FitError ε → Option String
  | .model error => some (model error)
  | linalg error => some error.message
  | _ => none

end FitError

end LeastSquares

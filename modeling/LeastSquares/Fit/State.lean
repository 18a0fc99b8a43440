import LeastSquares.Fit.Error
import LeastSquares.Fit.Event
import LeastSquares.Fit.Limits
import LeastSquares.Fit.Model
import LeastSquares.Fit.Targets
import LeastSquares.TrustRegion

/-!
# The state of a fit

A fit holds the current parameters and what the model made of them: the values, which points are
active, and chi-square. These caches belong to the same parameters at every moment; a trial step is
evaluated in a spare buffer, and all of them move at once when it is accepted.

The setters check their arguments before they change anything.
-/

set_option autoImplicit false

namespace LeastSquares

/-- When an iteration ends a run. Zero turns a criterion off. -/
structure StopCriteria (α : Type) where
  minGradient : α
  acceptableChiSquare : α
  /-- End when an unbounded step reduces chi-square by a smaller fraction. -/
  minChiSquareChange : α

def StopCriteria.off {α : Type} [Zero α] : StopCriteria α :=
  { minGradient := 0, acceptableChiSquare := 0, minChiSquareChange := 0 }

structure Fit (α σ : Type) (n m : Nat) where
  model : σ
  parameters : Vector α n
  limits : Limits α n
  targets : Targets α m
  criteria : StopCriteria α
  values : Vector α m
  /-- The buffer that the next trial step is evaluated in. -/
  spare : Vector α m
  active : Vector Bool m
  chiSquare : α
  gradientNorm : α
  /-- The number of parameters that the last iteration could move. -/
  freeCount : Nat
  rank : Nat
  trust : TrustRegion α n
  prepared : Bool
  iteration : Nat
  valueCalls : Nat
  jacobianCalls : Nat

structure Call (α σ ε : Type) (n m : Nat) (ρ : Type) where
  fit : Fit α σ n m
  events : List (Event α)
  result : Except (FitError ε) ρ

namespace Call

variable {α σ ε ρ : Type} {n m : Nat}

def fail (fit : Fit α σ n m) (events : List (Event α)) (error : FitError ε) : Call α σ ε n m ρ :=
  { fit, events, result := .error error }

def after (call : Call α σ ε n m ρ) (events : List (Event α)) : Call α σ ε n m ρ :=
  { call with events := events ++ call.events }

end Call

namespace Fit

variable {α σ : Type} [Scalar α] {n m : Nat}

/-! ## Setting up -/

/-- A fit of a model to targets, from the given parameters. The first deviation that is zero is
refused. -/
def start (model : σ) (parameters : Vector α n) (target : Vector α m) (sigma : Array α) :
    Except (SetupError α) (Fit α σ n m) :=
  if n = 0 ∨ m = 0 then .error (.invalidDimensions n m)
  else if h : sigma.size = m then
    match sigma.findIdx? (· == 0) with
    | some index => .error (.zeroSigma index)
    | none =>
      .ok
        { model, parameters
          limits := .unbounded
          targets := { target, sigma := ⟨sigma, h⟩, tags := Vector.replicate m .equal }
          criteria := .off
          values := Vector.replicate m 0
          spare := Vector.replicate m 0
          active := Vector.replicate m true
          chiSquare := 0
          gradientNorm := 0
          freeCount := n
          rank := 0
          trust := .initial
          prepared := false
          iteration := 0
          valueCalls := 0
          jacobianCalls := 0 }
  else .error (.dimensionMismatch "sigma" m sigma.size)

/-! ## Settings -/

@[specialize] def refresh (fit : Fit α σ n m) : Fit α σ n m :=
  let active := fit.targets.active fit.values
  { fit with active, chiSquare := fit.targets.chiSquare active fit.values }

def setCriteria (fit : Fit α σ n m) (criteria : StopCriteria α) : Fit α σ n m :=
  { fit with criteria }

def checkArgument {β : Type} (what : String) (k : Nat) :
    Option (Array β) → Except (SetupError α) (Option (Vector β k))
  | none => .ok none
  | some given =>
      if h : given.size = k then .ok (some ⟨given, h⟩)
      else .error (.dimensionMismatch what k given.size)

/-- Sets the limits of all parameters; a missing list leaves its side unbounded. -/
def setLimits (fit : Fit α σ n m) (lower upper : Option (Array α)) :
    Except (SetupError α) (Fit α σ n m) := do
  let lower ← checkArgument "a_min" n lower
  let upper ← checkArgument "a_max" n upper
  let limits := Limits.ofVectors lower upper
  match limits.firstInverted? with
  | some (index, lower, upper) => throw (.invalidLimits index lower upper)
  | none => return { fit with limits }

/-- Sets how each target is compared; a missing list makes every target an equality. A prepared fit
takes the new tags into account at once. -/
def setInequalities (fit : Fit α σ n m) (tags : Option (Array Inequality)) :
    Except (SetupError α) (Fit α σ n m) := do
  let tags ← checkArgument "inequalities" m tags
  let targets := { fit.targets with tags := tags.getD (Vector.replicate m .equal) }
  let fit : Fit α σ n m := { fit with targets }
  return if fit.prepared then fit.refresh else fit

/-! ## Calls of the model -/

variable {ε : Type}

@[specialize] def evaluateJacobian (M : Model α σ ε n m) (fit : Fit α σ n m) :
    Fit α σ n m × Except ε (DenseMatrix α m n) :=
  let answer := M.jacobian fit.model fit.parameters .zeros
  let fit : Fit α σ n m := { fit with model := answer.state }
  match answer.failure? with
  | some error => (fit, .error error)
  | none => ({ fit with jacobianCalls := fit.jacobianCalls + 1 }, .ok answer.buffer)

@[specialize] def clamped (fit : Fit α σ n m) : Vector α n :=
  Vector.ofFn fun p =>
    let limited := fit.limits.clamp p (fit.parameters p)
    if limited == fit.parameters p then fit.parameters p else limited

def clampRecords (fit : Fit α σ n m) : List (Event α) :=
  (List.finRange n).filterMap fun p =>
    let limited := fit.limits.clamp p (fit.parameters p)
    if limited == fit.parameters p then none
    else some (.log (.clamped p (fit.parameters p) limited))

/-- Moves the parameters into their limits and evaluates the model there. A failure of the model
leaves the fit unprepared. -/
def prepare (M : Model α σ ε n m) (fit : Fit α σ n m) : Call α σ ε n m Unit :=
  if fit.prepared then .fail fit [] .alreadyPrepared
  else
    let records := fit.clampRecords
    let parameters := fit.clamped
    let answer := M.values fit.model parameters fit.values
    let fit : Fit α σ n m := { fit with model := answer.state, parameters, values := answer.buffer }
    match answer.failure? with
    | some error => .fail fit records (.model error)
    | none =>
      let fit : Fit α σ n m :=
        { fit with valueCalls := fit.valueCalls + 1, prepared := true }.refresh
      { fit, events := records ++ [.log (.prepared fit.chiSquare)], result := .ok () }

end Fit

end LeastSquares

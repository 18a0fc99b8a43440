import LeastSquares.Fit.Iterate

/-!
# Whole runs

A run prepares the fit if need be and iterates until a status is terminal or the allowed number of
iterations has been made. It finishes exactly once, whichever way it ends, unless it fails.
-/

set_option autoImplicit false

namespace LeastSquares

structure RunSummary (α : Type) where
  status : Status
  iterations : Nat
  chiSquare : α
  gradientNorm : α
  valueCalls : Nat
  jacobianCalls : Nat

namespace Fit

variable {α σ ε : Type} [Scalar α] [Products α] {n m : Nat}

/-- Makes up to `left` iterations, after `made` of them that ended with `status`. Returns the last
status and the number of all iterations made. -/
def iterateUpTo (M : Model α σ ε n m) (fuel : Nat) :
    (left made : Nat) → Status → Fit α σ n m → Option (Call α σ ε n m (Status × Nat))
  | 0, made, status, fit => some { fit, events := [], result := .ok (status, made) }
  | left + 1, made, _, fit =>
    match fit.iterate M fuel with
    | none => none
    | some { fit, events, result := .error error } => some (.fail fit events error)
    | some { fit, events, result := .ok status } =>
      if status.isTerminal then some { fit, events, result := .ok (status, made + 1) }
      else (iterateUpTo M fuel left (made + 1) status fit).map (·.after events)

def summary (fit : Fit α σ n m) (status : Status) (iterations : Nat) : RunSummary α :=
  { status, iterations
    chiSquare := fit.chiSquare
    gradientNorm := fit.gradientNorm
    valueCalls := fit.valueCalls
    jacobianCalls := fit.jacobianCalls }

def runPrepared (M : Model α σ ε n m) (fuel maxIterations : Nat) (fit : Fit α σ n m) :
    Option (Call α σ ε n m (RunSummary α)) :=
  (iterateUpTo M fuel maxIterations 0 .improving fit).map fun call =>
    match call.result with
    | .error error => .fail call.fit call.events error
    | .ok (status, iterations) =>
      { fit := call.fit
        events := call.events ++ if status.isTerminal then [] else [.finish status]
        result := .ok (call.fit.summary status iterations) }

def run (M : Model α σ ε n m) (fuel maxIterations : Nat) (fit : Fit α σ n m) :
    Option (Call α σ ε n m (RunSummary α)) :=
  if fit.prepared then fit.runPrepared M fuel maxIterations
  else
    match fit.prepare M with
    | { fit, events, result := .error error } => some (.fail fit events error)
    | { fit, events, result := .ok () } =>
      (fit.runPrepared M fuel maxIterations).map (·.after events)

end Fit

end LeastSquares

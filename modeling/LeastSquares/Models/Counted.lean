import LeastSquares.Fit.Model

/-!
# Models that count their calls

A counted model numbers the calls of either kind from one, and fails where a fault plan says so. A
call that fails counts too, and writes nothing.
-/

set_option autoImplicit false

namespace LeastSquares

structure CallCounts where
  values : Nat
  jacobian : Nat
deriving DecidableEq, Repr

def CallCounts.zero : CallCounts := { values := 0, jacobian := 0 }

inductive ModelFault where
  | valuesFailed (call : Nat)
  | jacobianFailed (call : Nat)
  | budgetExhausted
deriving DecidableEq, Repr

def ModelFault.message : ModelFault → String
  | valuesFailed call => "values failed at call " ++ toString call
  | jacobianFailed call => "jacobian failed at call " ++ toString call
  | budgetExhausted => "evaluation budget exhausted"

structure FaultPlan where
  failValuesAt : Option Nat
  failJacobianAt : Option Nat
  /-- The number of the last call for values that is answered. -/
  budget : Nat

namespace FaultPlan

def valuesFault? (plan : FaultPlan) (call : Nat) : Option ModelFault :=
  if plan.failValuesAt = some call then some (.valuesFailed call)
  else if plan.budget < call then some .budgetExhausted
  else none

def jacobianFault? (plan : FaultPlan) (call : Nat) : Option ModelFault :=
  if plan.failJacobianAt = some call then some (.jacobianFailed call) else none

end FaultPlan

structure CallTable (α : Type) (n m : Nat) where
  values : (call : Nat) → Vector α n → Vector α m → Vector α m
  jacobian : (call : Nat) → Vector α n → DenseMatrix α m n → DenseMatrix α m n

/-- The model that answers from a table, except where the plan makes it fail. -/
def CallTable.toModel {α : Type} {n m : Nat} (table : CallTable α n m) (plan : FaultPlan) :
    Model α CallCounts ModelFault n m where
  values counts parameters buffer :=
    let call := counts.values + 1
    let state := { counts with values := call }
    match plan.valuesFault? call with
    | some fault => { state, buffer, failure? := some fault }
    | none => { state, buffer := table.values call parameters buffer, failure? := none }
  jacobian counts parameters buffer :=
    let call := counts.jacobian + 1
    let state := { counts with jacobian := call }
    match plan.jacobianFault? call with
    | some fault => { state, buffer, failure? := some fault }
    | none => { state, buffer := table.jacobian call parameters buffer, failure? := none }

end LeastSquares

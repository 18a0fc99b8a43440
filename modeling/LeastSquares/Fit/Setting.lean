import LeastSquares.Fit.State
import LeastSquares.Storage

/-!
# Setting in place

The setters of a fit as programs that overwrite it, in the order in which arguments are read and
cells are written. A program has no way to take back what it has written: that it writes only where
nothing can be refused any more is something to prove, as it is that no position is out of range.
-/

set_option autoImplicit false

namespace LeastSquares

open Storage

variable {α σ : Type} [Scalar α] {n m : Nat}

structure Setting (α σ : Type) (n m : Nat) where
  fit : Fit α σ n m
  result : Except (SetupError α) Unit

/-- Position `i` of a list that may be missing, and then stands for one and the same entry
everywhere. -/
def entry {β γ : Type} (given : Option (Array γ)) (f : γ → β) (missing : β) (i : Nat) : Option β :=
  match given with
  | some list => list[i]?.map f
  | none => some missing

def put {β : Type} {k : Nat} (cells : Vector β k) (i : Nat) (x : β) : Option (Vector β k) :=
  if h : i < k then some (cells.set i x h) else none

def overwrite {β : Type} {k : Nat} (cells : Vector β k) (source : Nat → Option β) :
    Option (Vector β k) :=
  ascend 0 k cells fun i cells => do put cells i (← source i)

/-- The error for the first parameter whose lower limit is not known to be at most its upper one. -/
def findInverted (n : Nat) (lower upper : Option (Array α)) : Option (Option (SetupError α)) :=
  ascend 0 n none fun p found => do
    if found.isSome then return found
    match ← entry lower some Scalar.least? p, ← entry upper some Scalar.greatest? p with
    | some min, some max => return if min ≤ max then none else some (.invalidLimits p min max)
    | _, _ => return none

namespace Fit

variable (fit : Fit α σ n m)

def setLimitsInPlace (lower upper : Option (Array α)) : Option (Setting α σ n m) :=
  let check : Except (SetupError α) Unit := do
    discard <| checkArgument "a_min" n lower
    discard <| checkArgument "a_max" n upper
  match check with
  | .error e => some { fit, result := .error e }
  | .ok () => do
    if let some e := ← findInverted n lower upper then
      return { fit, result := .error e }
    let lower ← overwrite fit.limits.lower (entry lower some Scalar.least?)
    let fit : Fit α σ n m := { fit with limits := { fit.limits with lower } }
    let upper ← overwrite fit.limits.upper (entry upper some Scalar.greatest?)
    return { fit := { fit with limits := { fit.limits with upper } }, result := .ok () }

def refreshPoint (i : Nat) (state : Vector Bool m × α) : Option (Vector Bool m × α) := do
  let (active, sum) := state
  let tag ← fit.targets.tags[i]?
  let value ← fit.values[i]?
  let target ← fit.targets.target[i]?
  let active ← put active i (tag.isActive value target)
  if ← active[i]? then
    let residual := (target - value) / (← fit.targets.sigma[i]?)
    return (active, sum + residual * residual)
  return (active, sum)

def refreshInPlace : Option (Fit α σ n m) := do
  let (active, chiSquare) ← ascend 0 m (fit.active, 0) fit.refreshPoint
  return { fit with active, chiSquare }

def setInequalitiesInPlace (tags : Option (Array Inequality)) : Option (Setting α σ n m) :=
  match checkArgument (α := α) "inequalities" m tags with
  | .error e => some { fit, result := .error e }
  | .ok _ => do
    let tags ← overwrite fit.targets.tags (entry tags id .equal)
    let fit : Fit α σ n m := { fit with targets := { fit.targets with tags } }
    let fit ← if fit.prepared then fit.refreshInPlace else some fit
    return { fit, result := .ok () }

end Fit

end LeastSquares

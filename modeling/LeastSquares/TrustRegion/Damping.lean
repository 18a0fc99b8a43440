import LeastSquares.QR.Damped
import LeastSquares.QR.MinimumNorm
import LeastSquares.TrustRegion

/-!
# The search for the damping parameter

The step of a trust region is the Gauss-Newton step if that is short enough. Otherwise it is a
damped one, `x(alpha)` minimizing `‖[R P'; √alpha D] x - [c; 0]‖`, with `‖D x(alpha)‖` within a
tenth of the radius. The search for `alpha` is Newton's method on `1 / ‖D x(alpha)‖`, kept above a
lower bound that rises with every step that is too long. It gives up after ten steps.

The step found and the `alpha` found belong together: `x` is the damped step of that `alpha`.
-/

set_option autoImplicit false

namespace LeastSquares.Damping

variable {α : Type} [Scalar α] {m n : Nat}

/-- How far `‖D x‖` may be from the radius, as a fraction of it. -/
def tolerance : α := 0.1

def furtherSteps : Nat := 9

/-- The system whose damped solutions are searched: a factorization, a right-hand side in pivot
order, the diagonal of `D` in the caller's order, and the radius. -/
structure Problem (α : Type) (m n : Nat) where
  factor : Factorization α m n
  rhs : Vector α n
  scale : Vector α n
  delta : α

structure Step (α : Type) (n : Nat) where
  x : Vector α n
  alpha : α

inductive Observation (α : Type) where
  | gaussNewtonFits (length : α)
  | tried (step : Nat) (alpha length delta : α)

structure Bounds (α : Type) where
  lower : α
  upper : α

namespace Bounds

/-- Where a search starts: the previous `alpha` moved into the bounds, or `gradient / length` where
that is zero. -/
@[specialize] def start (B : Bounds α) (previous gradient length : α) : α :=
  let alpha := Scalar.min (Scalar.max previous B.lower) B.upper
  if alpha == 0 then gradient / length else alpha

@[specialize] def positive (B : Bounds α) (alpha : α) : α :=
  if alpha == 0 then Scalar.max Scalar.minPositive (0.001 * B.upper) else alpha

/-- Raises the lower bound to an `alpha` whose step is too long, and lowers the upper bound to one
whose step is too short. -/
@[specialize] def narrow (B : Bounds α) (alpha excess : α) : Bounds α :=
  { lower := if 0 < excess then Scalar.max B.lower alpha else B.lower
    upper := if excess < 0 then Scalar.min B.upper alpha else B.upper }

end Bounds

structure Search (α : Type) where
  bounds : Bounds α
  alpha : α
  excess : α

structure Found (α : Type) (n : Nat) where
  step : Step α n
  seen : List (Observation α)

namespace Problem

/-- `D' D x / ‖D x‖` in pivot order. -/
@[specialize] def outward (Q : Problem α m n) (x : Vector α n) (length : α) : Vector α n :=
  Vector.ofFn fun j =>
    let l := Q.factor.perm.get j
    Q.scale l * (Q.scale l * x l / length)

/-- The Gauss-Newton step: back substitution where the rank is full, the minimum-norm solution where
it is not. -/
@[specialize] def gaussNewton (Q : Problem α m n) (fullRank : Bool) :
    Except LinalgError (Vector α n) :=
  if Q.factor.rank = 0 then .ok (Vector.replicate n 0)
  else if fullRank then .ok (Q.factor.rSolve Q.rhs)
  else Q.factor.minimumNorm Q.rhs

/-- A lower bound on `alpha`: the Newton step from zero, for which `R` has to be invertible. -/
@[specialize] def lowerBound (Q : Problem α m n) (fullRank : Bool) (x : Vector α n)
    (length excess : α) : α :=
  if fullRank then
    let z := Q.factor.rtSolve (Q.outward x length)
    let size := Scalar.norm (fun i => i.val < Q.factor.rank) z
    if 0 < size then excess / Q.delta / size / size else 0
  else 0

/-- `‖D⁻¹ P R' c‖`. -/
@[specialize] def gradient (Q : Problem α m n) : α :=
  Scalar.norm (fun _ => true) <| Vector.ofFn fun j =>
    Scalar.addOver 0 (fun i => i ≤ j && i.val < Q.factor.rank)
      (fun i => Q.factor.r i j * Q.rhs i) / Q.scale (Q.factor.perm.get j)

@[specialize] def upperBound (Q : Problem α m n) (gradient : α) : α :=
  let upper := gradient / Q.delta
  if upper == 0 then Scalar.minPositive / Scalar.min Q.delta tolerance else upper

/-- The triangle of the system damped by `√alpha D`. -/
@[specialize] def triangle (Q : Problem α m n) (alpha : α) : Triangle α n :=
  let root := Scalar.sqrt alpha
  Q.factor.dampedTriangle Q.rhs (Q.scale.map fun d => root * d)

/-- The Newton correction of `alpha`, from `S' z = D' D x / ‖D x‖`. -/
@[specialize] def correction (Q : Problem α m n) (S : Triangle α n) (x : Vector α n)
    (length excess : α) : α :=
  let z := forwardSubstitute n S.entry (Q.outward x length)
  let size := Scalar.norm (fun _ => true) z
  excess / Q.delta / size / size

/-- Whether a search may end with a step of this excess and length, `before` being the excess of the
step made last. -/
@[specialize] def accepts (Q : Problem α m n) (bounds : Bounds α) (before excess length : α) :
    Bool :=
  decide (Scalar.abs excess ≤ tolerance * Q.delta) ||
    (bounds.lower == 0 && decide (excess ≤ before) && decide (before < 0)) ||
    length == 0

@[specialize] def searchFrom (Q : Problem α m n) : (left number : Nat) → Search α → Found α n
  | left, number, S =>
    let alpha := S.bounds.positive S.alpha
    let triangle := Q.triangle alpha
    let x := Q.factor.perm.restore triangle.solve
    let length := TrustRegion.scaledNorm Q.scale x
    let excess := length - Q.delta
    let seen := Observation.tried number alpha length Q.delta
    match left with
    | 0 => { step := { x, alpha }, seen := [seen] }
    | left + 1 =>
      if Q.accepts S.bounds S.excess excess length then { step := { x, alpha }, seen := [seen] }
      else
        let correction := Q.correction triangle x length excess
        let bounds := S.bounds.narrow alpha excess
        let rest := Q.searchFrom left (number + 1)
          { bounds, alpha := Scalar.max bounds.lower (alpha + correction), excess }
        { rest with seen := seen :: rest.seen }

/-- The step of the trust region, from the `alpha` of the step before. `fullRank` says that the rank
equals the number of columns that are not zero by construction. -/
@[specialize] def solve (Q : Problem α m n) (fullRank : Bool) (previous : α) :
    Except LinalgError (Found α n) :=
  match Q.gaussNewton fullRank with
  | .error e => .error e
  | .ok x =>
    let length := TrustRegion.scaledNorm Q.scale x
    let excess := length - Q.delta
    if excess ≤ tolerance * Q.delta then
      .ok { step := { x, alpha := 0 }, seen := [.gaussNewtonFits length] }
    else
      let gradient := Q.gradient
      let bounds : Bounds α :=
        { lower := Q.lowerBound fullRank x length excess, upper := Q.upperBound gradient }
      .ok (Q.searchFrom furtherSteps 1
        { bounds, alpha := bounds.start previous gradient length, excess })

end Problem

end LeastSquares.Damping

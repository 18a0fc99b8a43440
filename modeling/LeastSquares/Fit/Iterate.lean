import LeastSquares.Fit.State
import LeastSquares.Products

/-!
# Iterations

An iteration linearizes the model at the current parameters and makes trial steps until one lowers
chi-square or the trust region collapses. A parameter at a limit with the gradient pointing outward
is frozen for the iteration: its column is left out of the Jacobian, and it does not move.

On every way out the parameters are those of the last accepted step.
-/

set_option autoImplicit false

namespace LeastSquares

structure Linearization (α : Type) (n m : Nat) where
  /-- Minus half the gradient of chi-square. -/
  gradient : Vector α n
  free : Vector Bool n
  /-- The weighted Jacobian over the active points and the free parameters, factored. It has as
  many rows as there are points, or as parameters if these are more. -/
  factor : Factorization α (max n m) n
  /-- The head of `Q' b` for the weighted residual `b`, in pivot order. -/
  rhs : Vector α n
  fullRank : Bool
  fresh : Bool

structure Move (α : Type) (n : Nat) where
  next : Vector α n
  step : Vector α n
  bounded : Bool

structure Proposal (α : Type) (n : Nat) where
  move : Move α n
  /-- `‖D x‖` for the step within the limits. -/
  stepNorm : α
  trust : TrustRegion α n
  seen : List (Damping.Observation α)

def Proposal.events {α : Type} {n : Nat} (proposal : Proposal α n) : List (Event α) :=
  proposal.seen.map fun seen => .log (.search seen)

/-- Where an iteration stands after its linear algebra: over, or ready for trial steps. -/
inductive Prospect (α σ ε : Type) (n m : Nat) where
  | settled (call : Call α σ ε n m Status)
  | ready (fit : Fit α σ n m) (events : List (Event α)) (problem : Linearization α n m)

inductive Trial (α σ ε : Type) (n m : Nat) where
  | settled (call : Call α σ ε n m Status)
  | rejected (fit : Fit α σ n m) (events : List (Event α))

namespace Fit

variable {α σ ε : Type} [Scalar α] [Products α] {n m : Nat}

/-! ## The linear problem -/

@[specialize] def weights (fit : Fit α σ n m) : DenseMatrix α m 1 :=
  .ofFn fun i _ => fit.targets.weight fit.active fit.values i

/-- `J' w`, for the weights `w` of the targets. -/
@[specialize] def gradient (fit : Fit α σ n m) (J : DenseMatrix α m n) : Vector α n :=
  (Products.transposeMul J fit.weights).col (Fin.last 0)

/-- Whether parameter `p` is at a limit with the gradient pointing outward. -/
@[specialize] def isStuck (fit : Fit α σ n m) (gradient : Vector α n) (p : Fin n) : Bool :=
  (fit.limits.atUpper p (fit.parameters p) && decide (0 < gradient p)) ||
    (fit.limits.atLower p (fit.parameters p) && decide (gradient p < 0))

@[specialize] def weightedJacobian (fit : Fit α σ n m) (J : DenseMatrix α m n)
    (free : Vector Bool n) : DenseMatrix α (max n m) n :=
  .ofFn fun i p =>
    if h : i.val < m then
      if free p && fit.active ⟨i, h⟩ then J.get ⟨i, h⟩ p / fit.targets.sigma ⟨i, h⟩ else 0
    else 0

@[specialize] def weightedResidual (fit : Fit α σ n m) : Vector α (max n m) :=
  Vector.ofFn fun i =>
    if h : i.val < m then
      if fit.active ⟨i, h⟩ then fit.targets.residual fit.values ⟨i, h⟩ else 0
    else 0

def conclude (fit : Fit α σ n m) (events : List (Event α)) (status : Status) :
    Call α σ ε n m Status :=
  let last :=
    if status.isTerminal then
      [.log (.terminated fit.iteration status fit.chiSquare), .finish status]
    else []
  { fit, events := events ++ last, result := .ok status }

@[specialize] def free (fit : Fit α σ n m) (J : DenseMatrix α m n) : Vector Bool n :=
  let gradient := fit.gradient J
  Vector.ofFn fun p => !fit.isStuck gradient p

def stuck (fit : Fit α σ n m) (J : DenseMatrix α m n) : List (Fin n) :=
  let free := fit.free J
  (List.finRange n).filter fun p => !free p

def stuckEvents (fit : Fit α σ n m) (J : DenseMatrix α m n) : List (Event α) :=
  (fit.stuck J).map fun p => .log (.stuck p.val)

def counted (fit : Fit α σ n m) (J : DenseMatrix α m n) : Fit α σ n m :=
  { fit with freeCount := n - (fit.stuck J).length }

def measured (fit : Fit α σ n m) (J : DenseMatrix α m n) : Fit α σ n m :=
  let free := fit.free J
  { fit with gradientNorm := Scalar.norm (fun p => free p) (fit.gradient J) }

@[specialize] def linearization (fit : Fit α σ n m) (J : DenseMatrix α m n) :
    Linearization α n m :=
  let free := fit.free J
  let factor := Factorization.ofMatrix (fit.weightedJacobian J free)
  let reduced := factor.qtMul fit.weightedResidual
  { gradient := fit.gradient J
    free, factor
    rhs := Vector.ofFn fun i => reduced (i.castLE (Nat.le_max_left n m))
    fullRank := factor.rank == fit.freeCount
    fresh := !fit.trust.initialized }

def deficientEvents (fit : Fit α σ n m) (L : Linearization α n m) : List (Event α) :=
  if L.fullRank then [] else [.log (.rankDeficient L.factor.rank fit.freeCount)]

def linearized (fit : Fit α σ n m) (L : Linearization α n m) : Fit α σ n m :=
  { fit with
    rank := L.factor.rank
    trust := fit.trust.rescale L.factor.norms fit.parameters }

/-- Evaluates the Jacobian and factors it, unless every parameter is stuck or the gradient is small
enough. -/
def linearize (M : Model α σ ε n m) (fit : Fit α σ n m) : Prospect α σ ε n m :=
  match fit.evaluateJacobian M with
  | (fit, .error error) => .settled (.fail fit [] (.model error))
  | (fit, .ok J) =>
    let events := fit.stuckEvents J
    let fit := fit.counted J
    if fit.freeCount = 0 then .settled (fit.conclude events .allParametersAreStuck)
    else
      let fit := fit.measured J
      if fit.gradientNorm ≤ fit.criteria.minGradient then
        .settled (fit.conclude events .minimumFound)
      else
        let problem := fit.linearization J
        .ready (fit.linearized problem) (events ++ fit.deficientEvents problem) problem

/-! ## Trial steps -/

@[specialize] def move (fit : Fit α σ n m) (free : Vector Bool n) (x : Vector α n) : Move α n :=
  let target (p : Fin n) : α := fit.parameters p + if free p then x p else 0
  let next : Vector α n := Vector.ofFn fun p =>
    match fit.limits.exceeded? p (target p) with
    | some limit => limit
    | none => target p
  { next
    step := Vector.ofFn fun p => next p - fit.parameters p
    bounded := (List.finRange n).any fun p => (fit.limits.exceeded? p (target p)).isSome }

/-- What a trial step came to, from its chi-square. The prediction is the reduction of
`‖b - A x‖²` in the factored coordinates. -/
@[specialize] def outcome (fit : Fit α σ n m) (L : Linearization α n m) (step : Vector α n)
    (stepNorm trialChiSquare : α) : TrialOutcome α :=
  if fit.chiSquare == 0 then
    { actual := if trialChiSquare == 0 then 0 else -1
      predicted := 0
      slope := 0
      stepNorm
      blewUp := decide (0 < trialChiSquare) }
  else
    let blewUp := !decide (0.01 * trialChiSquare < fit.chiSquare)
    let fitted := L.factor.rMul step
    let gain : α := Scalar.addOver (-0) (fun i => i.val < L.factor.rank) fun i : Fin n =>
      fitted i * (2.0 * L.rhs i - fitted i)
    let slope : α := Scalar.addOver (-0) (fun _ => true) fun p : Fin n =>
      step p * L.gradient p
    { actual := if blewUp then -1 else 1 - trialChiSquare / fit.chiSquare
      predicted := gain / fit.chiSquare
      slope := -slope / fit.chiSquare
      stepNorm
      blewUp }

@[specialize] def acceptedStatus (fit : Fit α σ n m) (previous : α) (bounded : Bool) : Status :=
  if fit.chiSquare ≤ fit.criteria.acceptableChiSquare then .chiSquareIsOk
  else if !bounded &&
      decide ((previous - fit.chiSquare) / previous < fit.criteria.minChiSquareChange) then
    .chiSquareChangeTooSmall
  else .improving

@[specialize] def collapsed (fit : Fit α σ n m) : Bool :=
  let size := TrustRegion.scaledNorm fit.trust.scale fit.parameters
  decide (fit.trust.delta ≤ Scalar.epsilon * size) ||
    decide (fit.trust.delta < Scalar.minPositive)

/-- The trust region in force at a trial step: a first step that is short takes the radius down to
its length. -/
@[specialize] def trustAt (fit : Fit α σ n m) (fresh : Bool) (alpha stepNorm : α) :
    TrustRegion α n :=
  { fit.trust with
    alpha
    delta :=
      if fresh && decide (0 < stepNorm) then Scalar.min fit.trust.delta stepNorm
      else fit.trust.delta }

def problem (fit : Fit α σ n m) (L : Linearization α n m) : Damping.Problem α (max n m) n :=
  { factor := L.factor, rhs := L.rhs, scale := fit.trust.scale, delta := fit.trust.delta }

def propose (L : Linearization α n m) (fit : Fit α σ n m) : Except LinalgError (Proposal α n) :=
  match (fit.problem L).solve L.fullRank fit.trust.alpha with
  | .error error => .error error
  | .ok found =>
    let move := fit.move L.free found.step.x
    let stepNorm := TrustRegion.scaledNorm fit.trust.scale move.step
    .ok
      { move, stepNorm
        trust := fit.trustAt L.fresh found.step.alpha stepNorm
        seen := found.seen }

/-- Evaluates the values at other parameters, in the spare buffer. -/
def evaluateAt (M : Model α σ ε n m) (fit : Fit α σ n m) (parameters : Vector α n) :
    Fit α σ n m × Except ε (Vector α m) :=
  let answer := M.values fit.model parameters fit.spare
  let fit : Fit α σ n m := { fit with model := answer.state, spare := answer.buffer }
  match answer.failure? with
  | some error => (fit, .error error)
  | none => ({ fit with valueCalls := fit.valueCalls + 1 }, .ok answer.buffer)

@[specialize] def chiSquareAt (fit : Fit α σ n m) (values : Vector α m) : α :=
  fit.targets.chiSquare (fit.targets.active values) values

@[specialize] def outcomeAt (fit : Fit α σ n m) (L : Linearization α n m) (proposal : Proposal α n)
    (values : Vector α m) : TrialOutcome α :=
  fit.outcome L proposal.move.step proposal.stepNorm (fit.chiSquareAt values)

def report (fit : Fit α σ n m) (L : Linearization α n m) (proposal : Proposal α n)
    (values : Vector α m) : IterationReport α :=
  { iteration := fit.iteration
    chiSquare := fit.chiSquare
    trialChiSquare := fit.chiSquareAt values
    rho := TrustRegion.agreement (fit.outcomeAt L proposal values)
    alpha := fit.trust.alpha
    delta := fit.trust.delta
    gradientNorm := fit.gradientNorm
    accepted := decide (fit.chiSquareAt values < fit.chiSquare)
    bounded := proposal.move.bounded }

def take (fit : Fit α σ n m) (proposal : Proposal α n) (values : Vector α m) : Fit α σ n m :=
  { fit with
    parameters := proposal.move.next
    values
    spare := fit.values
    active := fit.targets.active values
    chiSquare := fit.chiSquareAt values }

def proposed (fit : Fit α σ n m) (proposal : Proposal α n) : Fit α σ n m :=
  { fit with trust := proposal.trust }

def adapted (fit : Fit α σ n m) (L : Linearization α n m) (proposal : Proposal α n)
    (values : Vector α m) : Fit α σ n m :=
  { fit with trust := fit.trust.adapt (fit.outcomeAt L proposal values) }

def judge (L : Linearization α n m) (proposal : Proposal α n) (fit : Fit α σ n m)
    (values : Vector α m) : Trial α σ ε n m :=
  let events := proposal.events ++ [.iteration (fit.report L proposal values)]
  let adapted := fit.adapted L proposal values
  if fit.chiSquareAt values < fit.chiSquare then
    let taken := adapted.take proposal values
    .settled (taken.conclude events (taken.acceptedStatus fit.chiSquare proposal.move.bounded))
  else if adapted.collapsed then .settled (adapted.conclude events .deltaIsTooSmall)
  else .rejected adapted events

def trial (M : Model α σ ε n m) (L : Linearization α n m) (fit : Fit α σ n m) :
    Trial α σ ε n m :=
  match fit.propose L with
  | .error error => .settled (.fail fit [] (.linalg error))
  | .ok proposal =>
    match (fit.proposed proposal).evaluateAt M proposal.move.next with
    | (fit, .error error) => .settled (.fail fit proposal.events (.model error))
    | (fit, .ok values) => judge L proposal fit values

/-- Makes trial steps until one ends the iteration; `none` if `fuel` of them did not. -/
def trials (M : Model α σ ε n m) (L : Linearization α n m) :
    (fuel : Nat) → Fit α σ n m → Option (Call α σ ε n m Status)
  | 0, _ => none
  | fuel + 1, fit =>
    match fit.trial M L with
    | .settled call => some call
    | .rejected fit events => (trials M L fuel fit).map (·.after events)

def iterate (M : Model α σ ε n m) (fuel : Nat) (fit : Fit α σ n m) :
    Option (Call α σ ε n m Status) :=
  if fit.prepared then
    match linearize M { fit with iteration := fit.iteration + 1 } with
    | .settled call => some call
    | .ready fit events problem => (trials M problem fuel fit).map (·.after events)
  else some (.fail fit [] .notPrepared)

end Fit

end LeastSquares

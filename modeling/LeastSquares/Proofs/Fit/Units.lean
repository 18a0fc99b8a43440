import LeastSquares.Proofs.Damping.Units
import LeastSquares.Proofs.Fit.Prediction

/-!
# Iterations in other units

A model can be asked in other units: it takes parameters measured in the units `s`, and gives
derivatives by these. The fit of such a model, from the same point, differs from the original one in
its parameters, its scaling and the norm of its gradient. Over exact numbers and without limits its
trial steps are the same steps in the units `s`, as long as the factored Jacobians have full rank in
both: it proposes them with the same damping and the same radius, and judges them alike. So an
iteration comes to the same, and tells the same but for the norm of the gradient.
-/

set_option autoImplicit false

namespace LeastSquares

open Matrix

variable {σ ε ρ : Type} {n m : Nat}

/-! ## Other units -/

noncomputable def Model.inUnits (s : Vector ℝ n) (M : Model ℝ σ ε n m) : Model ℝ σ ε n m where
  values state a buffer := M.values state (timesUnits s a) buffer
  jacobian state a buffer :=
    let answer := M.jacobian state (timesUnits s a) buffer
    { answer with buffer := answer.buffer.timesUnits s }

noncomputable def TrustRegion.inUnits (s : Vector ℝ n) (T : TrustRegion ℝ n) : TrustRegion ℝ n :=
  { T with scale := timesUnits s T.scale }

def IterationReport.withGradient (g : ℝ) (report : IterationReport ℝ) : IterationReport ℝ :=
  { report with gradientNorm := g }

def Event.withGradient (g : ℝ) : Event ℝ → Event ℝ
  | .iteration report => .iteration (report.withGradient g)
  | event => event

/-- The fit with its parameters measured in the units `s`, where the norm of the gradient is `g`. -/
noncomputable def Fit.inUnits (s : Vector ℝ n) (g : ℝ) (fit : Fit ℝ σ n m) : Fit ℝ σ n m :=
  { fit with
    parameters := LeastSquares.inUnits s fit.parameters
    gradientNorm := g
    trust := fit.trust.inUnits s }

noncomputable def Call.inUnits (s : Vector ℝ n) (g : ℝ) (call : Call ℝ σ ε n m ρ) :
    Call ℝ σ ε n m ρ :=
  { call with
    fit := call.fit.inUnits s g
    events := call.events.map (Event.withGradient g) }

noncomputable def Trial.inUnits (s : Vector ℝ n) (g : ℝ) : Trial ℝ σ ε n m → Trial ℝ σ ε n m
  | .settled call => .settled (call.inUnits s g)
  | .rejected fit events => .rejected (fit.inUnits s g) (events.map (Event.withGradient g))

noncomputable def Move.inUnits (s : Vector ℝ n) (move : Move ℝ n) : Move ℝ n :=
  { next := LeastSquares.inUnits s move.next
    step := LeastSquares.inUnits s move.step
    bounded := move.bounded }

noncomputable def Proposal.inUnits (s : Vector ℝ n) (proposal : Proposal ℝ n) : Proposal ℝ n :=
  { proposal with
    move := proposal.move.inUnits s
    trust := proposal.trust.inUnits s }

/-- Of one linear problem in the two units, whose factors have full rank in both. -/
structure Linearization.InUnits (s : Vector ℝ n) (A : DenseMatrix ℝ (max n m) n)
    (b : Vector ℝ (max n m)) (L K : Linearization ℝ n m) : Prop where
  system : Factorization.InUnits s A b L.factor K.factor L.rhs K.rhs
  gradient : K.gradient = timesUnits s L.gradient
  free : ∀ p, L.free p = true
  otherFree : ∀ p, K.free p = true
  fullRank : L.fullRank = true
  otherFullRank : K.fullRank = true
  fresh : K.fresh = L.fresh

namespace Linearization.InUnits

variable {s : Vector ℝ n} {A : DenseMatrix ℝ (max n m) n} {b : Vector ℝ (max n m)}
  {L K : Linearization ℝ n m} (same : Linearization.InUnits s A b L K)

include same

theorem gain (step : Vector ℝ n) :
    Scalar.addOver (-0) (fun i => i.val < K.factor.rank) (fun i : Fin n =>
      K.factor.rMul (inUnits s step) i *
        (2.0 * K.rhs i - K.factor.rMul (inUnits s step) i)) =
    Scalar.addOver (-0) (fun i => i.val < L.factor.rank) fun i : Fin n =>
      L.factor.rMul step i * (2.0 * L.rhs i - L.factor.rMul step i) := by
  let plain (F : Linearization ℝ n m) (scale : Vector ℝ n) : Damping.Problem ℝ (max n m) n :=
    { factor := F.factor, rhs := F.rhs, scale, delta := 0 }
  let one : Vector ℝ n := .replicate n 1
  have problem : Damping.Problem.InUnits s A b (plain L one) (plain K (timesUnits s one)) :=
    { system := same.system
      scale_pos := fun p => by rw [Vector.get_replicate]; exact one_pos
      scale := rfl
      radius := le_rfl
      delta := rfl }
  calc _ = (plain K (timesUnits s one)).gain (inUnits s step).get :=
        (plain K (timesUnits s one)).gain_sum (inUnits s step)
    _ = (plain L one).gain step.get := problem.gain step
    _ = _ := ((plain L one).gain_sum step).symm

theorem slope (step : Vector ℝ n) :
    Scalar.addOver (-0) (fun _ => true) (fun p : Fin n => inUnits s step p * K.gradient p) =
      Scalar.addOver (-0) (fun _ => true) fun p : Fin n => step p * L.gradient p := by
  rw [Scalar.addOver_real, Scalar.addOver_real]
  congr 1
  apply Finset.sum_congr rfl
  intro p _
  have unit := (same.system.units p).ne'
  rw [if_pos rfl, if_pos rfl, same.gradient, timesUnits_get, inUnits_get]
  field_simp

end Linearization.InUnits

/-! ## The trust region -/

namespace TrustRegion

variable {s : Vector ℝ n}

theorem adapt_inUnits (T : TrustRegion ℝ n) (trial : TrialOutcome ℝ) :
    (T.inUnits s).adapt trial = (T.adapt trial).inUnits s := by
  simp only [adapt]
  by_cases poor : agreement trial ≤ 0.25
  · rw [if_pos poor, if_pos poor]
    rfl
  · rw [if_neg poor, if_neg poor]
    by_cases grows : (T.alpha == 0 || decide (0.75 ≤ agreement trial)) = true
    · rw [if_pos grows]
      exact if_pos grows
    · rw [if_neg grows]
      exact if_neg grows

variable (units : ∀ p, 0 < s p)

include units

theorem firstScale_timesUnits {norms : Vector ℝ n} (nonzero : ∀ p, norms p ≠ 0) :
    firstScale (timesUnits s norms) = timesUnits s (firstScale norms) := by
  apply Vector.ext_get
  intro p
  have norm : ¬ (norms p == 0) = true := fun zero => nonzero p (beq_iff_eq.mp zero)
  have product : ¬ (norms p * s p == 0) = true := fun zero =>
    (mul_ne_zero (nonzero p) (units p).ne') (beq_iff_eq.mp zero)
  rw [timesUnits_get, firstScale, firstScale, Vector.get_map, Vector.get_map, timesUnits_get,
    if_neg norm, if_neg product]

theorem firstRadius_inUnits (d a : Vector ℝ n) :
    firstRadius (timesUnits s d) (LeastSquares.inUnits s a) = firstRadius d a := by
  rw [firstRadius, scaledNorm_inUnits fun p => (units p).ne']
  rfl

theorem rescale_inUnits (T : TrustRegion ℝ n) {norms : Vector ℝ n} (nonzero : ∀ p, norms p ≠ 0)
    (a : Vector ℝ n) : (T.inUnits s).rescale (timesUnits s norms) (LeastSquares.inUnits s a) =
      (T.rescale norms a).inUnits s := by
  rw [rescale, rescale]
  by_cases known : T.initialized = true
  · have grown : (Vector.ofFn fun p => Scalar.max (timesUnits s T.scale p) (timesUnits s norms p)) =
        timesUnits s (Vector.ofFn fun p => Scalar.max (T.scale p) (norms p)) := by
      apply Vector.ext_get
      intro p
      rw [Vector.get_ofFn, timesUnits_get, timesUnits_get, timesUnits_get, Vector.get_ofFn,
        Scalar.max_real, Scalar.max_real, max_mul_of_nonneg _ _ (units p).le]
    rw [if_pos known]
    refine (if_pos known).trans ?_
    exact congrArg (fun scale => ({ T with scale } : TrustRegion ℝ n)) grown
  · rw [if_neg known]
    refine (if_neg known).trans ?_
    simp only [firstScale_timesUnits units nonzero, firstRadius_inUnits units]
    rfl

end TrustRegion

/-! ## Trial steps -/

namespace Fit

variable {s : Vector ℝ n} {g : ℝ} {A : DenseMatrix ℝ (max n m) n} {b : Vector ℝ (max n m)}
  {L K : Linearization ℝ n m} {fit : Fit ℝ σ n m}

structure Underway (fit : Fit ℝ σ n m) : Prop where
  limits : fit.limits = .unbounded
  scale_pos : ∀ p, 0 < fit.trust.scale p
  sound : fit.Sound

theorem Underway.problem (underway : fit.Underway) (same : Linearization.InUnits s A b L K)
    (g : ℝ) :
    Damping.Problem.InUnits s A b (fit.problem L) ((fit.inUnits s g).problem K) where
  system := same.system
  scale_pos := underway.scale_pos
  scale := rfl
  radius := underway.sound.delta_nonneg
  delta := rfl

section Units

variable (units : ∀ p, s p ≠ 0)

include units

theorem evaluateAt_inUnits (M : Model ℝ σ ε n m) (fit : Fit ℝ σ n m) (a : Vector ℝ n) :
    (fit.inUnits s g).evaluateAt (M.inUnits s) (LeastSquares.inUnits s a) =
      ((fit.evaluateAt M a).1.inUnits s g, (fit.evaluateAt M a).2) := by
  simp only [evaluateAt, inUnits, Model.inUnits, timesUnits_inUnits units]
  cases (M.values fit.model a fit.spare).failure? with
  | none => rfl
  | some error => rfl

theorem collapsed_inUnits (fit : Fit ℝ σ n m) : (fit.inUnits s g).collapsed = fit.collapsed := by
  simp only [collapsed, inUnits, TrustRegion.inUnits, TrustRegion.scaledNorm_inUnits units]
  rfl

end Units

theorem move_of_unbounded (limits : fit.limits = .unbounded) {free : Vector Bool n}
    (all : ∀ p, free p = true) (x : Vector ℝ n) : fit.move free x =
      { next := Vector.ofFn fun p => fit.parameters p + x p
        step := Vector.ofFn fun p => fit.parameters p + x p - fit.parameters p
        bounded := false } := by
  have none : ((List.finRange n).any fun p => (fit.limits.exceeded? p
      (fit.parameters p + if free p then x p else 0)).isSome) = false := by
    apply List.any_eq_false.mpr
    intro p _
    rw [limits, exceeded?_unbounded]
    exact Bool.false_ne_true
  simp only [move, none]
  simp only [limits, exceeded?_unbounded, all, if_true, Vector.get_ofFn]

theorem move_inUnits (limits : fit.limits = .unbounded) {free other : Vector Bool n}
    (all : ∀ p, free p = true) (otherAll : ∀ p, other p = true) (x : Vector ℝ n) :
    (fit.inUnits s g).move other (LeastSquares.inUnits s x) = (fit.move free x).inUnits s := by
  have otherLimits : (fit.inUnits s g).limits = .unbounded := limits
  rw [move_of_unbounded otherLimits otherAll, move_of_unbounded limits all, Move.inUnits,
    Move.mk.injEq]
  refine ⟨?_, ?_, rfl⟩
  · apply congrArg Vector.ofFn
    funext p
    change LeastSquares.inUnits s fit.parameters p + LeastSquares.inUnits s x p = _
    rw [inUnits_get, inUnits_get, Vector.get_ofFn, add_div]
  · apply congrArg Vector.ofFn
    funext p
    change LeastSquares.inUnits s fit.parameters p + LeastSquares.inUnits s x p -
      LeastSquares.inUnits s fit.parameters p = _
    rw [inUnits_get, inUnits_get, Vector.get_ofFn, sub_div, add_div]

theorem propose_inUnits (underway : fit.Underway) (same : Linearization.InUnits s A b L K) :
    (fit.inUnits s g).propose K = (fit.propose L).map (·.inUnits s) := by
  have problem := underway.problem same g
  have solves := problem.solve fit.trust.alpha
  have again : (fit.inUnits s g).trust.alpha = fit.trust.alpha := rfl
  rw [propose, propose, same.fullRank, same.otherFullRank, again, solves]
  cases (fit.problem L).solve true fit.trust.alpha with
  | error error => rfl
  | ok found =>
      have moves : (fit.inUnits s g).move K.free (LeastSquares.inUnits s found.step.x) =
          (fit.move L.free found.step.x).inUnits s :=
        move_inUnits underway.limits same.free same.otherFree found.step.x
      have length : TrustRegion.scaledNorm (fit.inUnits s g).trust.scale
          ((fit.move L.free found.step.x).inUnits s).step =
            TrustRegion.scaledNorm fit.trust.scale (fit.move L.free found.step.x).step :=
        TrustRegion.scaledNorm_inUnits problem.unit_ne_zero _ _
      simp only [Except.map, Damping.Found.inUnits, moves, length, same.fresh]
      rfl

/-! ## Their outcome -/

section Same

variable (same : Linearization.InUnits s A b L K)

include same

theorem outcomeAt_inUnits (fit : Fit ℝ σ n m) (proposal : Proposal ℝ n) (values : Vector ℝ m) :
    (fit.inUnits s g).outcomeAt K (proposal.inUnits s) values =
      fit.outcomeAt L proposal values := by
  simp only [outcomeAt, outcome, Proposal.inUnits, Move.inUnits, same.gain, same.slope]
  rfl

theorem report_inUnits (fit : Fit ℝ σ n m) (proposal : Proposal ℝ n) (values : Vector ℝ m) :
    (fit.inUnits s g).report K (proposal.inUnits s) values =
      (fit.report L proposal values).withGradient g := by
  simp only [report, outcomeAt_inUnits same]
  rfl

theorem adapted_inUnits (fit : Fit ℝ σ n m) (proposal : Proposal ℝ n) (values : Vector ℝ m) :
    (fit.inUnits s g).adapted K (proposal.inUnits s) values =
      (fit.adapted L proposal values).inUnits s g := by
  simp only [adapted, outcomeAt_inUnits same]
  exact congrArg (fun trust => ({ fit.inUnits s g with trust } : Fit ℝ σ n m))
    (fit.trust.adapt_inUnits _)

end Same

theorem events_withGradient (g : ℝ) (proposal : Proposal ℝ n) :
    proposal.events.map (Event.withGradient g) = proposal.events := by
  rw [Proposal.events, List.map_map]
  rfl

theorem conclude_inUnits (s : Vector ℝ n) (g : ℝ) (fit : Fit ℝ σ n m) (events : List (Event ℝ))
    (status : Status) :
    ((fit.inUnits s g).conclude (events.map (Event.withGradient g)) status :
      Call ℝ σ ε n m Status) = (fit.conclude events status).inUnits s g := by
  simp only [conclude, Call.inUnits, List.map_append]
  split
  · rfl
  · rfl

theorem judge_inUnits (same : Linearization.InUnits s A b L K) (proposal : Proposal ℝ n)
    (fit : Fit ℝ σ n m) (values : Vector ℝ m) :
    (judge K (proposal.inUnits s) (fit.inUnits s g) values : Trial ℝ σ ε n m) =
      (judge L proposal fit values).inUnits s g := by
  have told : (proposal.inUnits s).events ++
      [Event.iteration ((fit.inUnits s g).report K (proposal.inUnits s) values)] =
        (proposal.events ++ [Event.iteration (fit.report L proposal values)]).map
          (Event.withGradient g) := by
    rw [report_inUnits same, List.map_append, events_withGradient]
    rfl
  simp only [judge, told, adapted_inUnits same]
  by_cases better : fit.chiSquareAt values < fit.chiSquare
  · rw [if_pos better]
    refine (if_pos better).trans ?_
    let taken := (fit.adapted L proposal values).take proposal values
    exact congrArg Trial.settled (conclude_inUnits s g taken _
      (taken.acceptedStatus fit.chiSquare proposal.move.bounded))
  · rw [if_neg better]
    refine (if_neg better).trans ?_
    have units (p : Fin n) : s p ≠ 0 := (same.system.units p).ne'
    rw [collapsed_inUnits units]
    by_cases collapsed : (fit.adapted L proposal values).collapsed = true
    · rw [if_pos collapsed, if_pos collapsed]
      exact congrArg Trial.settled (conclude_inUnits s g _ _ _)
    · rw [if_neg collapsed, if_neg collapsed]
      rfl

theorem trial_inUnits (underway : fit.Underway) (same : Linearization.InUnits s A b L K)
    (M : Model ℝ σ ε n m) :
    (fit.inUnits s g).trial (M.inUnits s) K = (fit.trial M L).inUnits s g := by
  have units (p : Fin n) : s p ≠ 0 := (same.system.units p).ne'
  simp only [trial, propose_inUnits underway same]
  cases fit.propose L with
  | error error => rfl
  | ok proposal =>
      have asks : ((fit.inUnits s g).proposed (proposal.inUnits s)).evaluateAt (M.inUnits s)
          (proposal.inUnits s).move.next = _ :=
        evaluateAt_inUnits (g := g) units M (fit.proposed proposal) proposal.move.next
      simp only [Except.map, asks]
      cases (fit.proposed proposal).evaluateAt M proposal.move.next with
      | mk asked result =>
          cases result with
          | error error =>
              exact congrArg (fun events => Trial.settled (Call.fail (asked.inUnits s g) events _))
                (events_withGradient g proposal).symm
          | ok values => exact judge_inUnits same proposal asked values

theorem Underway.rejected (underway : fit.Underway) {M : Model ℝ σ ε n m} {next : Fit ℝ σ n m}
    {events : List (Event ℝ)} (rejected : fit.trial M L = .rejected next events) :
    next.Underway := by
  have stays := retry_stays (retry_of_rejected rejected)
  have scaling := trial_scaling M L fit
  have sound := underway.sound.trial M L
  rw [rejected] at scaling sound
  constructor
  · exact stays.limits.trans underway.limits
  · intro p
    rw [show next.trust.scale = fit.trust.scale from scaling.1]
    exact underway.scale_pos p
  · exact sound

theorem trials_inUnits (same : Linearization.InUnits s A b L K) (M : Model ℝ σ ε n m) (fuel : Nat)
    {fit : Fit ℝ σ n m} (underway : fit.Underway) :
    trials (M.inUnits s) K fuel (fit.inUnits s g) =
      (trials M L fuel fit).map (·.inUnits s g) := by
  induction fuel generalizing fit with
  | zero => rfl
  | succ fuel ih =>
      rw [trials, trials, trial_inUnits underway same]
      cases ended : fit.trial M L with
      | settled call => rfl
      | rejected next events =>
          simp only [Trial.inUnits, ih (underway.rejected ended), Option.map_map]
          congr 1
          funext call
          simp only [Function.comp_apply, Call.after, Call.inUnits, List.map_append]

end Fit

end LeastSquares

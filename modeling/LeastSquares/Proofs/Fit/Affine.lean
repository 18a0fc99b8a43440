import LeastSquares.Proofs.Fit.Prediction

/-!
# Affine models

The linear model of an affine model is the model itself, if nothing but equalities are asked of it.
Then every trial gets the reduction that it predicts, whether or not a limit cut its step short. And
without limits an iteration that has a gradient to follow accepts its first trial: the linear model
falls along the step, so chi-square does.
-/

set_option autoImplicit false

namespace LeastSquares.Fit

open Matrix

variable {σ ε : Type} {n m : Nat}

/-- Wherever the model does not fail, its values are affine in the parameters, and its derivatives
are those of the values. -/
structure Affine (M : Model ℝ σ ε n m) (B : Matrix (Fin m) (Fin n) ℝ) (c : Fin m → ℝ) : Prop where
  values : M.Answers fun a values => values.get = B *ᵥ a.get + c
  jacobian : ∀ state a buffer, (M.jacobian state a buffer).failure? = none →
    (M.jacobian state a buffer).buffer.toMatrix = B

theorem active_of_equal {T : Targets ℝ m} (equal : ∀ i, T.tags i = .equal) (values : Vector ℝ m) :
    T.active values = Vector.replicate m true := by
  apply Vector.ext_get
  intro i
  rw [Targets.active, Vector.get_ofFn, equal, Vector.get_replicate]
  rfl

theorem freeJacobian_mulVec [Products ℝ] {fit : Fit ℝ σ n m} {J : DenseMatrix ℝ m n}
    {step : Fin n → ℝ} (frozen : ∀ p, fit.free J p = false → step p = 0) (i : fit.ActivePoint) :
    (fit.freeJacobian J *ᵥ fit.freePart J step) i =
      (J.toMatrix *ᵥ step) i.val / fit.targets.sigma i.val := by
  rw [mulVec, mulVec, dotProduct, dotProduct, Finset.sum_div]
  apply Fintype.sum_of_injective Subtype.val Subtype.val_injective
  · intro p outside
    have stuck : fit.free J p = false := by
      by_contra free
      exact outside ⟨⟨p, Bool.not_eq_false _ ▸ free⟩, rfl⟩
    rw [frozen p stuck, mul_zero, zero_div]
  · intro p
    exact div_mul_eq_mul_div _ _ _

section AffineModel

variable [Products ℝ] {M : Model ℝ σ ε n m} {fit first : Fit ℝ σ n m} {L : Linearization ℝ n m}
  {B : Matrix (Fin m) (Fin n) ℝ} {c : Fin m → ℝ} (affine : Affine M B c)
  (ready : fit.Ready fun a values => values.get = B *ᵥ a.get + c) (prepared : fit.prepared = true)
  (equal : ∀ i, fit.targets.tags i = .equal)

include affine ready prepared equal

theorem Attempt.chiSquareAt_affine {later asked : Fit ℝ σ n m} {proposal : Proposal ℝ n}
    {values : Vector ℝ m} (attempt : fit.Attempt M L later asked proposal values)
    (answered : (M.jacobian fit.model fit.parameters .zeros).failure? = none) :
    asked.chiSquareAt values =
      euclid (fit.activeResidual - fit.freeJacobian (fit.jacobianAnswer M) *ᵥ
        fit.freePart (fit.jacobianAnswer M) proposal.move.step.get) ^ 2 := by
  have cached := ready.cached prepared
  have derivatives : (fit.jacobianAnswer M).toMatrix = B := affine.jacobian _ _ _ answered
  have reached : values.get = B *ᵥ proposal.move.next.get + c :=
    evaluateAt_answers affine.values attempt.answers
  have held : fit.values.get = B *ᵥ fit.parameters.get + c := cached.answered
  have frozen (p : Fin n) (stuck : fit.free (fit.jacobianAnswer M) p = false) :
      proposal.move.step p = 0 :=
    step_frozen ready.upright attempt.problem attempt.before attempt.proposes stuck
  have change (i : Fin m) : values i = fit.values i + (B *ᵥ proposal.move.step.get) i := by
    have step : proposal.move.step.get = proposal.move.next.get - fit.parameters.get := by
      funext p
      rw [propose_step attempt.proposes, attempt.before.parameters]
      rfl
    rw [reached, held, step, mulVec_sub]
    simp only [Pi.add_apply, Pi.sub_apply]
    ring
  have active : fit.targets.active values = fit.active := by
    rw [cached.active, active_of_equal equal, active_of_equal equal]
  rw [chiSquareAt, attempt.stays.targets, active, chiSquare_sum, euclid_sq, dotProduct]
  apply Finset.sum_congr rfl
  intro i _
  have residual : fit.targets.residual values i.val = (fit.activeResidual -
      fit.freeJacobian (fit.jacobianAnswer M) *ᵥ
        fit.freePart (fit.jacobianAnswer M) proposal.move.step.get) i := by
    rw [Pi.sub_apply, freeJacobian_mulVec frozen, derivatives, activeResidual, Targets.residual,
      Targets.residual, change, ← sub_div]
    ring
  rw [residual]

end AffineModel

/-! ## The first trial -/

section First

variable [Products ℝ] {M : Model ℝ σ ε n m} {fit first later asked : Fit ℝ σ n m}
  {L : Linearization ℝ n m} {proposal : Proposal ℝ n} {values : Vector ℝ m}

theorem Tries.padded_steep [Products.Exact] (tries : fit.Tries M first L)
    (asks : 0 ≤ fit.criteria.minGradient) :
    (fit.padded (fit.jacobianAnswer M))ᵀ *ᵥ fit.weightedResidual.get ≠ 0 := by
  intro flat
  apply tries.steep
  have zero : Scalar.norm (fun p => fit.free (fit.jacobianAnswer M) p)
      (fit.gradient (fit.jacobianAnswer M)) = 0 := by
    apply (Scalar.norm_eq_zero_iff _ _).mpr
    intro p free
    rw [gradient_of_free _ _ free, flat]
    rfl
  rw [zero]
  exact asks

theorem Tries.accepts (tries : fit.Tries M first L) (prepared : fit.prepared = true)
    (attempt : fit.Attempt M L first asked proposal values)
    (better : asked.chiSquareAt values < asked.chiSquare) (fuel : Nat) :
    ∃ call status, fit.iterate M (fuel + 1) = some call ∧ call.result = .ok status ∧
      status.tookStep = true ∧ call.fit.parameters = proposal.move.next ∧
      call.fit.chiSquare = asked.chiSquareAt values := by
  rcases iterate_tries M prepared with ⟨_, never, _, _⟩ | ⟨other, K, events, again, loops⟩
  · exact absurd tries (never first L)
  · obtain ⟨rfl, rfl⟩ := tries.unique again
    let taken := (asked.adapted K proposal values).take proposal values
    let last : Call ℝ σ ε n m Status := taken.conclude (asked.trialEvents K proposal values)
      (taken.acceptedStatus asked.chiSquare proposal.move.bounded)
    have settled : other.trial M K = .settled last := by
      rw [attempt.judged]
      exact if_pos better
    refine ⟨last.after events, _, ?_, rfl, taken.acceptedStatus_tookStep _ _, rfl, rfl⟩
    rw [loops, trials, settled, Option.map_some]

theorem Tries.accepts_affine [Products.Exact] (tries : fit.Tries M first L)
    (reachable : Reachable M fit) (prepared : fit.prepared = true)
    (nothing : L.factor.discarded = 0)
    (innerNothing : L.fullRank = false → L.factor.inner.discarded = 0)
    {B : Matrix (Fin m) (Fin n) ℝ} {c : Fin m → ℝ} (affine : Affine M B c)
    (equal : ∀ i, fit.targets.tags i = .equal) (unlimited : fit.limits = .unbounded)
    (asks : 0 ≤ fit.criteria.minGradient) :
    ∃ proposal, first.propose L = .ok proposal ∧ ∀ asked values,
      (first.proposed proposal).evaluateAt M proposal.move.next = (asked, .ok values) →
      asked.chiSquareAt values < fit.chiSquare ∧
      ∀ fuel, ∃ call status, fit.iterate M (fuel + 1) = some call ∧
        call.result = .ok status ∧ status.tookStep = true ∧
        call.fit.parameters = proposal.move.next ∧
        call.fit.chiSquare = asked.chiSquareAt values := by
  have ready := reachable.ready affine.values
  obtain ⟨proposal, step⟩ := propose_ok L first
  refine ⟨proposal, step, fun asked values answer => ?_⟩
  have attempt : fit.Attempt M L first asked proposal values :=
    ⟨⟨first, 0, tries, rfl⟩, step, answer⟩
  have whole := propose_of_unbounded (tries.stays.limits.trans unlimited) step
  have falls := (whole_step_gain tries.problem.2 nothing innerNothing
    (tries.scale_pos ready.scaled) (tries.sound reachable.sound).delta_nonneg step whole).2
    (tries.padded_steep asks)
  rw [tries.problem.2.gain nothing (ready.cached prepared), sub_pos] at falls
  have better : asked.chiSquareAt values < fit.chiSquare := by
    rw [attempt.chiSquareAt_affine affine ready prepared equal tries.problem.1]
    exact falls
  exact ⟨better, tries.accepts prepared attempt (attempt.stays.chiSquare.symm ▸ better)⟩

end First

theorem gauge_affine : Affine (gauge id) 1 0 where
  values _ a _ _ := by
    funext i
    rw [one_mulVec, add_zero]
    exact Vector.get_map id a i
  jacobian _ _ _ _ := by
    ext i p
    rw [Subsingleton.elim p i, one_apply_eq]
    exact DenseMatrix.get_ofFn _ _ _

end LeastSquares.Fit

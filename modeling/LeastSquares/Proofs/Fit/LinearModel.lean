import LeastSquares.Proofs.Damping.Decrease
import LeastSquares.Proofs.Fit.Failure
import LeastSquares.Proofs.Fit.Prepared
import LeastSquares.Proofs.Products

/-!
# The linear model of an iteration

Around the point of a prepared fit the weighted residuals `b` of the active points change with a
step by `-A` times the part of the step that belongs to the free parameters. What an iteration
factors is this matrix with a zero row for every point that is inactive, a zero column for every
parameter that is frozen, and zero rows below where there are fewer points than parameters. None of
these change the residual, so what the factors say of a step is true of `A` and `b` themselves.
-/

set_option autoImplicit false

namespace LeastSquares

open Matrix

variable {α σ ε : Type} {n m : Nat}

namespace Fit

/-! ## Points and parameters that count -/

abbrev ActivePoint (fit : Fit α σ n m) : Type := {i : Fin m // fit.active i = true}

abbrev FreeParameter [Scalar α] [Products α] (fit : Fit α σ n m) (J : DenseMatrix α m n) : Type :=
  {p : Fin n // fit.free J p = true}

theorem card_eq_countP {k : Nat} (counts : Fin k → Bool) :
    Fintype.card {i : Fin k // counts i = true} = (List.finRange k).countP counts := by
  rw [Fintype.card_subtype, Finset.card_def, Finset.filter_val, Fin.univ_def,
    Multiset.filter_coe, Multiset.coe_card, List.countP_eq_length_filter]
  simp only [Bool.decide_eq_true]

/-- What the model writes when it is asked for derivatives. -/
def jacobianAnswer [Scalar α] (M : Model α σ ε n m) (fit : Fit α σ n m) : DenseMatrix α m n :=
  (M.jacobian fit.model fit.parameters .zeros).buffer

theorem evaluateJacobian_of_answered [Scalar α] {M : Model α σ ε n m} {fit : Fit α σ n m}
    (answered : (M.jacobian fit.model fit.parameters .zeros).failure? = none) :
    fit.evaluateJacobian M =
      ({ fit with
        model := (M.jacobian fit.model fit.parameters .zeros).state
        jacobianCalls := fit.jacobianCalls + 1 }, .ok (fit.jacobianAnswer M)) := by
  simp only [evaluateJacobian, answered, jacobianAnswer]

section Linear

variable (fit : Fit ℝ σ n m)

/-- The residuals of the active points, in deviations. -/
noncomputable def activeResidual : fit.ActivePoint → ℝ :=
  fun i => fit.targets.residual fit.values i.val

def rowOf (i : fit.ActivePoint) : Fin (max n m) := i.val.castLE (Nat.le_max_right n m)

theorem rowOf_injective : Function.Injective fit.rowOf := by
  intro i j same
  exact Subtype.ext (Fin.castLE_injective (Nat.le_max_right n m) same)

theorem active_of_rowOf {i : Fin (max n m)} (outside : i ∉ Set.range fit.rowOf)
    (inside : i.val < m) : fit.active ⟨i.val, inside⟩ = false := by
  by_contra active
  exact outside ⟨⟨⟨i.val, inside⟩, Bool.not_eq_false _ ▸ active⟩, rfl⟩

theorem dot_rowOf {u : Fin (max n m) → ℝ} (v : Fin (max n m) → ℝ)
    (zero : ∀ i, i ∉ Set.range fit.rowOf → u i = 0) :
    u ⬝ᵥ v = (u ∘ fit.rowOf) ⬝ᵥ (v ∘ fit.rowOf) := by
  symm
  apply Fintype.sum_of_injective fit.rowOf fit.rowOf_injective
  · intro i outside
    rw [zero i outside, zero_mul]
  · intro i
    rfl

theorem weightedResidual_rowOf : fit.weightedResidual.get ∘ fit.rowOf = fit.activeResidual := by
  funext i
  have inside : (fit.rowOf i).val < m := i.val.isLt
  rw [Function.comp_apply, weightedResidual, Vector.get_ofFn, dif_pos inside]
  exact if_pos i.property

theorem weightedResidual_outside {i : Fin (max n m)} (outside : i ∉ Set.range fit.rowOf) :
    fit.weightedResidual i = 0 := by
  rw [weightedResidual, Vector.get_ofFn]
  split
  · rename_i inside
    rw [fit.active_of_rowOf outside inside]
    exact if_neg Bool.false_ne_true
  · rfl

theorem weightedResidual_dot :
    fit.weightedResidual.get ⬝ᵥ fit.weightedResidual.get =
      fit.activeResidual ⬝ᵥ fit.activeResidual := by
  rw [fit.dot_rowOf _ fun i outside => fit.weightedResidual_outside outside,
    weightedResidual_rowOf]

/-! ## The factored matrix -/

variable [Products ℝ] (J : DenseMatrix ℝ m n)

/-- The derivatives at the active points by the free parameters, in deviations. -/
noncomputable def freeJacobian : Matrix fit.ActivePoint (fit.FreeParameter J) ℝ :=
  .of fun i p => J.get i.val p.val / fit.targets.sigma i.val

/-- The entries of a step that belong to free parameters. -/
def freePart (step : Fin n → ℝ) : fit.FreeParameter J → ℝ := fun p => step p.val

/-- The matrix that an iteration with these derivatives factors. -/
noncomputable def padded : Matrix (Fin (max n m)) (Fin n) ℝ :=
  (fit.weightedJacobian J (fit.free J)).toMatrix

theorem padded_apply (i : Fin (max n m)) (p : Fin n) : fit.padded J i p =
    if inside : i.val < m then
      if fit.free J p && fit.active ⟨i, inside⟩ then
        J.get ⟨i, inside⟩ p / fit.targets.sigma ⟨i, inside⟩
      else 0
    else 0 :=
  DenseMatrix.get_ofFn _ i p

theorem padded_outside {i : Fin (max n m)} (outside : i ∉ Set.range fit.rowOf) (p : Fin n) :
    fit.padded J i p = 0 := by
  rw [padded_apply]
  split
  · rename_i inside
    rw [fit.active_of_rowOf outside inside, Bool.and_false]
    exact if_neg Bool.false_ne_true
  · rfl

theorem padded_frozen {p : Fin n} (frozen : fit.free J p = false) (i : Fin (max n m)) :
    fit.padded J i p = 0 := by
  rw [padded_apply]
  split
  · rw [frozen, Bool.false_and]
    exact if_neg Bool.false_ne_true
  · rfl

theorem padded_rowOf (i : fit.ActivePoint) (p : fit.FreeParameter J) :
    fit.padded J (fit.rowOf i) p.val = fit.freeJacobian J i p := by
  have inside : (fit.rowOf i).val < m := i.val.isLt
  have counts : (fit.free J p.val && fit.active ⟨(fit.rowOf i).val, inside⟩) = true := by
    rw [p.property, Bool.true_and]
    exact i.property
  rw [padded_apply, dif_pos inside, if_pos counts]
  rfl

theorem padded_mulVec_outside (step : Fin n → ℝ) {i : Fin (max n m)}
    (outside : i ∉ Set.range fit.rowOf) : (fit.padded J *ᵥ step) i = 0 := by
  rw [mulVec, dotProduct]
  apply Finset.sum_eq_zero
  intro p _
  rw [fit.padded_outside J outside, zero_mul]

theorem padded_mulVec_rowOf (step : Fin n → ℝ) :
    (fit.padded J *ᵥ step) ∘ fit.rowOf = fit.freeJacobian J *ᵥ fit.freePart J step := by
  funext i
  symm
  rw [Function.comp_apply, mulVec, mulVec, dotProduct, dotProduct]
  apply Fintype.sum_of_injective Subtype.val Subtype.val_injective
  · intro p outside
    have frozen : fit.free J p = false := by
      by_contra free
      exact outside ⟨⟨p, Bool.not_eq_false _ ▸ free⟩, rfl⟩
    rw [fit.padded_frozen J frozen, zero_mul]
  · intro p
    rw [fit.padded_rowOf J i p]
    rfl

theorem padded_mulVec_congr {x y : Fin n → ℝ} (same : ∀ p, fit.free J p = true → x p = y p) :
    fit.padded J *ᵥ x = fit.padded J *ᵥ y := by
  funext i
  rw [mulVec, mulVec, dotProduct, dotProduct]
  apply Finset.sum_congr rfl
  intro p _
  cases free : fit.free J p with
  | true => rw [same p free]
  | false => rw [fit.padded_frozen J free, zero_mul, zero_mul]

theorem padded_residual (step : Fin n → ℝ) :
    (fit.padded J *ᵥ step - fit.weightedResidual.get) ⬝ᵥ
        (fit.padded J *ᵥ step - fit.weightedResidual.get) =
      euclid (fit.activeResidual - fit.freeJacobian J *ᵥ fit.freePart J step) ^ 2 := by
  have zero (i : Fin (max n m)) (outside : i ∉ Set.range fit.rowOf) :
      (fit.padded J *ᵥ step - fit.weightedResidual.get) i = 0 := by
    rw [Pi.sub_apply, fit.padded_mulVec_outside J step outside]
    exact sub_eq_zero.mpr (fit.weightedResidual_outside outside).symm
  have rows : (fit.padded J *ᵥ step - fit.weightedResidual.get) ∘ fit.rowOf =
      -(fit.activeResidual - fit.freeJacobian J *ᵥ fit.freePart J step) := by
    rw [neg_sub, ← padded_mulVec_rowOf, ← weightedResidual_rowOf]
    rfl
  rw [fit.dot_rowOf _ zero, rows, neg_dotProduct_neg, euclid_sq]

variable [Products.Exact]

theorem gradient_eq_sum (p : Fin n) : fit.gradient J p =
    ∑ i, J.get i p * fit.targets.weight fit.active fit.values i := by
  rw [gradient, DenseMatrix.col, Vector.get_ofFn, Products.Exact.get_transposeMul]
  simp only [weights, DenseMatrix.get_ofFn]

theorem gradient_of_free {p : Fin n} (free : fit.free J p = true) :
    fit.gradient J p = ((fit.padded J)ᵀ *ᵥ fit.weightedResidual.get) p := by
  have outer : ((fit.padded J)ᵀ *ᵥ fit.weightedResidual.get) p =
      ∑ i : fit.ActivePoint, J.get i.val p / fit.targets.sigma i.val * fit.activeResidual i := by
    symm
    change _ = ∑ i, fit.padded J i p * fit.weightedResidual i
    apply Fintype.sum_of_injective fit.rowOf fit.rowOf_injective
    · intro i outside
      rw [fit.padded_outside J outside, zero_mul]
    · intro i
      rw [fit.padded_rowOf J i ⟨p, free⟩, ← weightedResidual_rowOf]
      rfl
  rw [outer, gradient_eq_sum]
  symm
  apply Fintype.sum_of_injective Subtype.val Subtype.val_injective
  · intro i outside
    have inactive : ¬ fit.active i = true := fun active => outside ⟨⟨i, active⟩, rfl⟩
    rw [Targets.weight, if_neg inactive, mul_zero]
  · intro i
    rw [Targets.weight, if_pos i.property, activeResidual,
      Targets.residual, div_mul_div_comm, mul_div_assoc]

end Linear

/-! ## The problem of the trial steps -/

section Problem

variable [Scalar α] {M : Model α σ ε n m} {L : Linearization α n m} {fit first later : Fit α σ n m}

section Stays

variable (stays : fit.Stays later)

include stays

theorem Stays.weightedJacobian (J : DenseMatrix α m n) (free : Vector Bool n) :
    later.weightedJacobian J free = fit.weightedJacobian J free := by
  simp only [Fit.weightedJacobian, stays.active, stays.targets]

theorem Stays.weightedResidual : later.weightedResidual = fit.weightedResidual := by
  simp only [Fit.weightedResidual, stays.active, stays.targets, stays.values]

variable [Products α]

theorem Stays.gradient (J : DenseMatrix α m n) : later.gradient J = fit.gradient J := by
  simp only [Fit.gradient, weights, stays.targets, stays.active, stays.values]

theorem Stays.free (J : DenseMatrix α m n) : later.free J = fit.free J := by
  simp only [Fit.free, isStuck, stays.gradient, stays.limits, stays.parameters]

end Stays

theorem evaluateJacobian_answer {J : DenseMatrix α m n}
    (answer : fit.evaluateJacobian M = (later, .ok J)) :
    (M.jacobian fit.model fit.parameters .zeros).failure? = none ∧ J = fit.jacobianAnswer M := by
  simp only [evaluateJacobian] at answer
  split at answer
  · cases answer
  · rename_i succeeded
    cases answer
    exact ⟨succeeded, rfl⟩

theorem retry_stays (again : retry M L fit = some later) : fit.Stays later := by
  obtain ⟨events, rejected⟩ := retry_eq_some again
  rcases fit.trial_outcome M L with ⟨stays, _⟩ | ⟨_, _, _, _, _, _, settled, _⟩
  · rw [rejected] at stays
    exact stays
  · rw [settled] at rejected
    cases rejected

theorem retried_stays {k : Nat} (reached : retried M L k fit = some later) : fit.Stays later := by
  apply retried_keeps fit.Stays _ (Stays.refl fit) reached
  intro before next stays again
  exact stays.trans (retry_stays again)

theorem retried_scaling {k : Nat} (reached : retried M L k fit = some later) :
    later.trust.scale = fit.trust.scale ∧ later.trust.initialized = fit.trust.initialized := by
  apply retried_keeps (fun later => later.trust.scale = fit.trust.scale ∧
    later.trust.initialized = fit.trust.initialized) _ ⟨rfl, rfl⟩ reached
  intro before next same again
  obtain ⟨events, rejected⟩ := retry_eq_some again
  have scaling := trial_scaling M L before
  rw [rejected] at scaling
  exact ⟨scaling.1.trans same.1, scaling.2.trans same.2⟩

variable [Products α]

/-- The linear problem belongs to the point of the fit and these derivatives. -/
structure HasProblem (fit : Fit α σ n m) (J : DenseMatrix α m n) (L : Linearization α n m) :
    Prop where
  free : L.free = fit.free J
  gradient : L.gradient = fit.gradient J
  factor : L.factor = .ofMatrix (fit.weightedJacobian J (fit.free J))
  rhs : leading n (L.factor.qtMul fit.weightedResidual).toArray = L.rhs

theorem Tries.stays (tries : fit.Tries M first L) : fit.Stays first := by
  obtain ⟨events, ready⟩ := tries
  have stays := linearize_stays M { fit with iteration := fit.iteration + 1 }
  rw [ready] at stays
  exact (nextIteration_stays fit).trans stays

theorem Tries.problem (tries : fit.Tries M first L) :
    (M.jacobian fit.model fit.parameters .zeros).failure? = none ∧
      fit.HasProblem (fit.jacobianAnswer M) L := by
  obtain ⟨asked, J, answer, factor, rhs⟩ := tries.made
  obtain ⟨other, K, again, linear, _⟩ := tries.linearized
  cases answer.symm.trans again
  obtain ⟨answered, same⟩ := evaluateJacobian_answer answer
  obtain rfl : J = fit.jacobianAnswer M := same
  have here := tries.stays
  have asks := (nextIteration_stays fit).trans (evaluateJacobian_stays answer)
  constructor
  · exact answered
  · constructor
    · rw [← asks.free, linear]
      rfl
    · rw [← asks.gradient, linear]
      rfl
    · rw [← here.free, ← here.weightedJacobian]
      exact factor
    · rw [← here.weightedResidual]
      exact rhs

theorem Tries.steep (tries : fit.Tries M first L) :
    ¬ Scalar.norm (fun p => fit.free (fit.jacobianAnswer M) p)
      (fit.gradient (fit.jacobianAnswer M)) ≤ fit.criteria.minGradient := by
  obtain ⟨events, ready⟩ := tries
  rcases linearize_cases M { fit with iteration := fit.iteration + 1 } with
    ⟨_, _, _, ended⟩ | ⟨_, _, _, _, ended⟩ | ⟨_, _, _, _, _, ended⟩ |
    ⟨asked, J, answer, _, steep, _, _⟩
  · rw [ended] at ready
    cases ready
  · rw [ended] at ready
    cases ready
  · rw [ended] at ready
    cases ready
  · obtain ⟨_, same⟩ := evaluateJacobian_answer answer
    obtain rfl : J = fit.jacobianAnswer M := same
    have stays := (nextIteration_stays fit).trans (evaluateJacobian_stays answer)
    rw [← stays.free, ← stays.gradient, ← stays.criteria]
    exact steep

/-! ## Trial steps -/

/-- A trial step of the iteration that `fit` makes, at which the model answered. It is proposed at
`later`, and `asked` is what is left once the model has answered with `values`. -/
structure Attempt (M : Model α σ ε n m) (fit : Fit α σ n m) (L : Linearization α n m)
    (later asked : Fit α σ n m) (proposal : Proposal α n) (values : Vector α m) : Prop where
  reached : ∃ first k, fit.Tries M first L ∧ retried M L k first = some later
  proposes : later.propose L = .ok proposal
  answers : (later.proposed proposal).evaluateAt M proposal.move.next = (asked, .ok values)

namespace Attempt

variable {asked : Fit α σ n m} {proposal : Proposal α n} {values : Vector α m}
  (attempt : fit.Attempt M L later asked proposal values)

include attempt

theorem before : fit.Stays later := by
  obtain ⟨first, k, tries, reached⟩ := attempt.reached
  exact tries.stays.trans (retried_stays reached)

theorem stays : fit.Stays asked :=
  (attempt.before.trans (proposed_stays later proposal)).trans (evaluateAt_stays attempt.answers)

theorem problem : fit.HasProblem (fit.jacobianAnswer M) L := by
  obtain ⟨first, k, tries, _⟩ := attempt.reached
  exact tries.problem.2

theorem asks : asked.trust = proposal.trust := by
  rw [evaluateAt_eq attempt.answers]
  rfl

theorem judged : later.trial M L = judge L proposal asked values := by
  simp only [trial, attempt.proposes, attempt.answers]

end Attempt

end Problem

end Fit

end LeastSquares

import Mathlib.Tactic.Linarith
import LeastSquares.Proofs.QR.MinimumNorm
import LeastSquares.TrustRegion.Damping

/-!
# The trust region in exact arithmetic

A trial that did not lower chi-square leaves a radius of at most half of what it was, as long as the
parabola through it has its minimum before the middle of the step. The exception is a trial that was
worse than the start although chi-square rises along the step even faster: there the minimum that
the formula finds lies on the other side, and the factor passes a half without a bound.
-/

set_option autoImplicit false

namespace LeastSquares

variable {n : Nat}

/-- A trial that raised chi-square, along a step on which its slope says that it would rise by no
less. -/
def TrialOutcome.Runaway (trial : TrialOutcome ℝ) : Prop :=
  trial.blewUp = false ∧ trial.actual < 0 ∧ 0 ≤ trial.slope + 0.5 * trial.actual

namespace TrustRegion

theorem scaledNorm_nonneg (scale v : Vector ℝ n) : 0 ≤ scaledNorm scale v :=
  Scalar.norm_nonneg _ _

/-! ## The factor -/

noncomputable def vertex (trial : TrialOutcome ℝ) : ℝ :=
  0.5 * trial.slope / (trial.slope + 0.5 * trial.actual)

theorem shrinkage_of_blewUp {trial : TrialOutcome ℝ} (blewUp : trial.blewUp = true) :
    shrinkage trial = 0.1 := by
  rw [shrinkage, if_pos]
  rw [blewUp]
  rfl

theorem shrinkage_of_nonneg {trial : TrialOutcome ℝ} (bounded : trial.blewUp = false)
    (nonneg : 0 ≤ trial.actual) : shrinkage trial = 0.5 := by
  have notSmall : ¬ ((0.5 : ℝ) < 0.1) := by norm_num
  simp only [shrinkage, if_pos nonneg, bounded, Scalar.isNaN_real, Bool.or_self, Bool.false_or,
    decide_eq_true_eq]
  exact if_neg notSmall

theorem shrinkage_of_neg {trial : TrialOutcome ℝ} (bounded : trial.blewUp = false)
    (neg : trial.actual < 0) :
    shrinkage trial = if vertex trial < 0.1 then 0.1 else vertex trial := by
  simp only [shrinkage, if_neg (not_le.mpr neg), bounded, Scalar.isNaN_real, Bool.or_self,
    Bool.false_or, decide_eq_true_eq]
  rfl

theorem tenth_le_shrinkage (trial : TrialOutcome ℝ) : 1 / 10 ≤ shrinkage trial := by
  by_cases blewUp : trial.blewUp = true
  · rw [shrinkage_of_blewUp blewUp]
    norm_num
  · have bounded := Bool.eq_false_iff.mpr blewUp
    by_cases nonneg : 0 ≤ trial.actual
    · rw [shrinkage_of_nonneg bounded nonneg]
      norm_num
    · rw [shrinkage_of_neg bounded (not_le.mp nonneg)]
      split
      · norm_num
      · rename_i large
        norm_num at large
        exact large

theorem shrinkage_le_half {trial : TrialOutcome ℝ} (tame : ¬ trial.Runaway) :
    shrinkage trial ≤ 1 / 2 := by
  by_cases blewUp : trial.blewUp = true
  · rw [shrinkage_of_blewUp blewUp]
    norm_num
  · have bounded := Bool.eq_false_iff.mpr blewUp
    by_cases nonneg : 0 ≤ trial.actual
    · rw [shrinkage_of_nonneg bounded nonneg]
      norm_num
    · have neg := not_le.mp nonneg
      have below : trial.slope + 0.5 * trial.actual < 0 := by
        by_contra above
        refine tame ⟨bounded, neg, ?_⟩
        norm_num at above
        linarith
      have vertexLe : vertex trial ≤ 1 / 2 := by
        rw [vertex, div_le_iff_of_neg below]
        norm_num
        linarith
      rw [shrinkage_of_neg bounded neg]
      split
      · norm_num
      · exact vertexLe

theorem half_lt_shrinkage {trial : TrialOutcome ℝ} (runaway : trial.Runaway)
    (defined : trial.slope + 0.5 * trial.actual ≠ 0) : 1 / 2 < shrinkage trial := by
  obtain ⟨bounded, neg, above⟩ := runaway
  have positive : 0 < trial.slope + 0.5 * trial.actual := by
    have strict := lt_of_le_of_ne above (Ne.symm defined)
    norm_num
    linarith
  have large : 1 / 2 < vertex trial := by
    rw [vertex, lt_div_iff₀ positive]
    norm_num
    linarith
  rw [shrinkage_of_neg bounded neg, if_neg]
  · exact large
  · norm_num
    linarith

/-! ## The radius -/

theorem adapt_of_poor (T : TrustRegion ℝ n) {trial : TrialOutcome ℝ}
    (poor : agreement trial ≤ 1 / 4) : T.adapt trial =
      { T with
        delta := shrinkage trial * min T.delta (trial.stepNorm / 0.1)
        alpha := T.alpha / shrinkage trial } := by
  have small : agreement trial ≤ 0.25 := by norm_num at poor ⊢; exact poor
  rw [adapt, if_pos small, Scalar.min_real]

theorem agreement_of_actual {trial : TrialOutcome ℝ} (worse : trial.actual ≤ 0) :
    agreement trial ≤ 1 / 4 := by
  rw [agreement]
  split
  · rename_i positive
    exact (div_nonpos_of_nonpos_of_nonneg worse positive.le).trans (by norm_num)
  · norm_num

theorem adapt_delta_nonneg {T : TrustRegion ℝ n} {trial : TrialOutcome ℝ} (radius : 0 ≤ T.delta)
    (length : 0 ≤ trial.stepNorm) : 0 ≤ (T.adapt trial).delta := by
  simp only [adapt, Scalar.min_real]
  split
  · have factor := tenth_le_shrinkage trial
    exact mul_nonneg (by linarith) (le_min radius (div_nonneg length (by norm_num)))
  · split
    · exact div_nonneg length (by norm_num)
    · exact radius

theorem adapt_halves {T : TrustRegion ℝ n} {trial : TrialOutcome ℝ} (radius : 0 ≤ T.delta)
    (length : 0 ≤ trial.stepNorm) (worse : trial.actual ≤ 0) (tame : ¬ trial.Runaway) :
    (T.adapt trial).delta ≤ T.delta / 2 := by
  rw [T.adapt_of_poor (agreement_of_actual worse)]
  have inner : 0 ≤ min T.delta (trial.stepNorm / 0.1) :=
    le_min radius (div_nonneg length (by norm_num))
  calc shrinkage trial * min T.delta (trial.stepNorm / 0.1)
      ≤ 1 / 2 * min T.delta (trial.stepNorm / 0.1) :=
        mul_le_mul_of_nonneg_right (shrinkage_le_half tame) inner
    _ ≤ 1 / 2 * T.delta := mul_le_mul_of_nonneg_left (min_le_left _ _) (by norm_num)
    _ = T.delta / 2 := by ring

theorem firstRadius_nonneg (scale a : Vector ℝ n) : 0 ≤ firstRadius scale a := by
  simp only [firstRadius, initialFraction]
  split
  · norm_num
  · exact mul_nonneg (by norm_num) (scaledNorm_nonneg _ _)

theorem rescale_delta_nonneg {T : TrustRegion ℝ n} (radius : 0 ≤ T.delta) (norms a : Vector ℝ n) :
    0 ≤ (T.rescale norms a).delta := by
  simp only [rescale]
  split
  · exact radius
  · exact firstRadius_nonneg _ _

end TrustRegion

/-! ## The search -/

namespace Damping.Problem

variable {k : Nat} (Q : Problem ℝ k n)

theorem gaussNewton_ok (fullRank : Bool) : ∃ x, Q.gaussNewton fullRank = .ok x := by
  rw [gaussNewton]
  split
  · exact ⟨_, rfl⟩
  · split
    · exact ⟨_, rfl⟩
    · exact Q.factor.minimumNorm_ok Q.rhs

theorem solve_ok (fullRank : Bool) (previous : ℝ) :
    ∃ found, Q.solve fullRank previous = .ok found := by
  obtain ⟨x, step⟩ := Q.gaussNewton_ok fullRank
  simp only [solve, step]
  split
  · exact ⟨_, rfl⟩
  · exact ⟨_, rfl⟩

end Damping.Problem

end LeastSquares

import LeastSquares.Proofs.Double.Special
import LeastSquares.TrustRegion

/-!
# The trust region in doubles

A trial that agrees poorly with the model multiplies the radius by a factor. It is a tenth at least,
and a half at most unless the parabola through the trial has its minimum behind the middle of the
step. With such a factor a finite radius becomes less, or less than the least positive normal
double. A radius that is `NaN` stays so while the scaling has a `NaN`, since the length of the step
is `NaN` as well.
-/

set_option autoImplicit false

namespace LeastSquares

open Double Float.Model Float.Model.UnpackedFloat

structure TrialOutcome.Halves (trial : TrialOutcome Float) : Prop where
  poor : TrustRegion.agreement trial ≤ 0.25
  factor : TrustRegion.shrinkage trial ≤ 0.5

namespace TrustRegion

variable {n : Nat}

theorem shrinkage_floor (trial : TrialOutcome Float) : 0.1 ≤ shrinkage trial := by
  have floored (mu : Float) : 0.1 ≤ if trial.blewUp || Scalar.isNaN mu || decide (mu < 0.1) then 0.1
      else mu := by
    split
    · decide
    · rename_i regular
      simp only [Bool.or_eq_true, decide_eq_true_eq, not_or, Bool.not_eq_true] at regular
      obtain ⟨⟨_, number⟩, large⟩ := regular
      exact Scalar.Ordered.le_of_not_lt (by decide) number large
  exact floored _

theorem shrinkage_pos (trial : TrialOutcome Float) : 0 < shrinkage trial :=
  Scalar.Ordered.lt_of_lt_of_le (by decide) (shrinkage_floor trial)

theorem shrinkage_blewUp {trial : TrialOutcome Float} (blewUp : trial.blewUp = true) :
    shrinkage trial = 0.1 := by
  rw [shrinkage, if_pos]
  rw [blewUp]
  rfl

theorem adapt_poor (T : TrustRegion Float n) {trial : TrialOutcome Float}
    (poor : agreement trial ≤ 0.25) :
    (T.adapt trial).delta = shrinkage trial * Scalar.min T.delta (trial.stepNorm / 0.1) := by
  rw [adapt, if_pos poor]

/-- A radius that is not above a finite double falls below that, or below all normal doubles. -/
theorem adapt_lowers (T : TrustRegion Float n) {trial : TrialOutcome Float} {bound : Float}
    (halves : trial.Halves) (finite : bound.isFinite = true) (within : T.delta ≤ bound) :
    (T.adapt trial).delta < bound ∨ (T.adapt trial).delta < Scalar.minPositive := by
  have number := (Scalar.Ordered.number_of_le within).1
  have atMost := Scalar.Ordered.le_trans
    (Scalar.Ordered.min_le_left number (trial.stepNorm / 0.1)) within
  rw [T.adapt_poor halves.poor]
  rcases mul_half (shrinkage_pos trial) halves.factor (Scalar.Ordered.number_of_le atMost).1
    (ne_infinity_of_le finite atMost) with less | subnormal
  · exact .inl (Scalar.Ordered.lt_of_lt_of_le less atMost)
  · exact .inr subnormal

/-! ## Trials that went out of range -/

theorem neg_one_div {p : Float} (positive : 0 < p) : -1 / p ≤ 0.25 := by
  have quarter : (0.25 : Float).toModel.unpack =
      .finite .positive (2 ^ 52) (-54) (by decide) := by rfl
  have minus : (-1 : Float).toModel.unpack = .finite .negative (2 ^ 52) (-52) (by decide) := by rfl
  refine Scalar.Ordered.le_of_lt (lt_of_low ?_ quarter)
  rw [unpack_div, minus]
  rcases unpack_of_pos positive with value | ⟨m, e, some, value⟩
  · rw [value]
    exact ⟨_, .inl (reread_zero _)⟩
  · rw [value]
    refine ⟨.negative, .inr ?_⟩
    rw [sign?_reread]
    exact sign?_roundWithAccuracy _ _ _ _

theorem halves_of_blewUp {trial : TrialOutcome Float} (blewUp : trial.blewUp = true)
    (lost : trial.actual = -1) : trial.Halves where
  poor := by
    rw [agreement, lost]
    split
    · exact neg_one_div ‹_›
    · decide
  factor := by
    rw [shrinkage_blewUp blewUp]
    decide

theorem halves_of_nothing {trial : TrialOutcome Float} (lost : trial.actual = -1)
    (predicted : trial.predicted = 0) (slope : trial.slope = 0) : trial.Halves where
  poor := by
    rw [agreement, predicted]
    split
    · exact absurd ‹_› (Scalar.Ordered.lt_irrefl _)
    · decide
  factor := by
    rw [shrinkage, lost, slope]
    cases trial.blewUp <;> decide +kernel

theorem not_hundredth_lt {trial previous : Float} (worse : ¬ trial < previous)
    (outside : trial.isFinite = false ∨ previous.isFinite = false) :
    ¬ 0.01 * trial < previous := by
  have hundredth : ∃ m e some, (0.01 : Float).toModel.unpack = .finite .positive m e some :=
    ⟨_, _, _, rfl⟩
  obtain ⟨m, e, some, hundredth⟩ := hundredth
  have infinite (sign : Sign) (same : trial.toModel.unpack = .infinity sign) :
      (0.01 * trial).toModel.unpack = .infinity (.positive * sign) := by
    rw [unpack_mul, hundredth, same]
    exact reread_infinity _
  intro less
  rcases outside with trialOut | previousOut
  · rcases nonfinite_cases trialOut with missing | top | bottom
    · exact not_lt_of_isNaN_left (isNaN_mul_right missing) less
    · exact not_infinity_lt (infinite _ top) less
    · have same := congrArg position ((infinite _ bottom).trans bottom.symm)
      exact worse ((Scalar.Ordered.lt_congr_left same).mp less)
  · rcases nonfinite_cases previousOut with missing | top | bottom
    · exact not_lt_of_isNaN_right missing less
    · refine worse (lt_infinity ?_ (fun same => not_infinity_lt (infinite _ same) less) top)
      by_contra missing
      exact not_lt_of_isNaN_left (isNaN_mul_right (Bool.not_eq_false _ ▸ missing)) less
    · exact not_lt_infinity bottom less

/-! ## A radius that is not a number -/

theorem scaledNorm_isNaN {scale : Vector Float n} {p : Fin n}
    (missing : Scalar.isNaN (scale p) = true) (v : Vector Float n) :
    Scalar.isNaN (scaledNorm scale v) = true := by
  refine isNaN_norm (i := p) rfl ?_
  rw [Vector.get_ofFn]
  exact isNaN_mul_left missing

theorem adapt_isNaN {T : TrustRegion Float n} {trial : TrialOutcome Float}
    (missing : Scalar.isNaN T.delta = true) (length : Scalar.isNaN trial.stepNorm = true) :
    Scalar.isNaN (T.adapt trial).delta = true ∧ (T.adapt trial).scale = T.scale := by
  rw [adapt]
  split
  · exact ⟨isNaN_mul_right (isNaN_min missing (isNaN_div_left length)), rfl⟩
  · split
    · exact ⟨isNaN_div_left length, rfl⟩
    · exact ⟨missing, rfl⟩

/-- The first scaling takes the column norms as they are, so that a `NaN` among them reaches the
radius. -/
theorem rescale_isNaN {T : TrustRegion Float n} (fresh : T.initialized = false)
    {norms : Vector Float n} {p : Fin n} (missing : Scalar.isNaN (norms p) = true)
    (a : Vector Float n) : Scalar.isNaN (T.rescale norms a).delta = true ∧
      Scalar.isNaN ((T.rescale norms a).scale p) = true := by
  have scale : Scalar.isNaN (firstScale norms p) = true := by
    rw [firstScale, Vector.get_map, beq_of_isNaN missing]
    exact missing
  have size := scaledNorm_isNaN scale a
  have radius : Scalar.isNaN (firstRadius (firstScale norms) a) = true := by
    simp only [firstRadius, beq_of_isNaN size]
    exact isNaN_mul_right size
  rw [rescale, if_neg (Bool.eq_false_iff.mp fresh)]
  exact ⟨radius, scale⟩

end TrustRegion

end LeastSquares

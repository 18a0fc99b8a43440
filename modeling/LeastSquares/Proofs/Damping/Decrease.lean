import LeastSquares.Proofs.Damping.Newton
import LeastSquares.Proofs.QR.Stacked

/-!
# Steps that go down

The step of a trust region solves the normal equations of the linear model, damped by an `alpha`
that is not negative. So the linear model never says that the squares grow along it, and it says
that they shrink unless its gradient is zero. Nothing is asked of the radius but that it is not
negative: a search of radius zero divides by it, and still ends with such a step.
-/

set_option autoImplicit false

namespace LeastSquares.Damping

open Matrix

variable {m n : Nat} {Q : Problem ℝ m n} {A : DenseMatrix ℝ m n}

/-! ## The damping of a search -/

structure Search.Nonneg (S : Search ℝ) : Prop where
  lower : 0 ≤ S.bounds.lower
  alpha : 0 ≤ S.alpha

theorem Search.Nonneg.next {S : Search ℝ} (nonneg : S.Nonneg) (Q : Problem ℝ m n) :
    (Q.next S).Nonneg := by
  have lower : 0 ≤ (Q.next S).bounds.lower := by
    simp only [Problem.next, Bounds.narrow, Scalar.max_real]
    split
    · exact le_max_of_le_left nonneg.lower
    · exact nonneg.lower
  constructor
  · exact lower
  · simp only [Problem.next, Scalar.max_real]
    exact le_max_of_le_left lower

theorem Search.Nonneg.iterate {S : Search ℝ} (nonneg : S.Nonneg) (Q : Problem ℝ m n) (k : Nat) :
    (Q.next^[k] S).Nonneg := by
  induction k with
  | zero => exact nonneg
  | succ k ih =>
      rw [Function.iterate_succ_apply']
      exact ih.next Q

namespace Problem

theorem upperBound_nonneg (radius : 0 ≤ Q.delta) : 0 ≤ Q.upperBound Q.gradient := by
  have fraction : (0 : ℝ) ≤ tolerance := by norm_num [tolerance]
  simp only [upperBound, Scalar.min_real]
  split
  · exact div_nonneg Scalar.minPositive_pos.le (le_min radius fraction)
  · exact div_nonneg Q.gradient_nonneg radius

theorem begun_nonneg (radius : 0 ≤ Q.delta) (fullRank : Bool) (previous : ℝ) {x : Vector ℝ n}
    (long : ¬ TrustRegion.scaledNorm Q.scale x - Q.delta ≤ tolerance * Q.delta) :
    (Q.begun fullRank previous x).Nonneg := by
  have excess : 0 ≤ TrustRegion.scaledNorm Q.scale x - Q.delta := by
    have share : 0 ≤ tolerance * Q.delta := mul_nonneg (by norm_num [tolerance]) radius
    exact share.trans (not_le.mp long).le
  have lower : 0 ≤ (Q.begun fullRank previous x).bounds.lower := by
    simp only [begun, lowerBound]
    split
    · split
      · rename_i size
        exact div_nonneg (div_nonneg (div_nonneg excess radius) size.le) size.le
      · exact le_rfl
    · exact le_rfl
  constructor
  · exact lower
  · simp only [begun, Bounds.start, Scalar.max_real, Scalar.min_real]
    split
    · exact div_nonneg Q.gradient_nonneg (TrustRegion.scaledNorm_nonneg _ _)
    · exact le_min (le_max_of_le_right lower) (upperBound_nonneg radius)

/-! ## The step -/

theorem IsGaussNewton.reaches {fullRank : Bool} {x : Vector ℝ n}
    (isGaussNewton : Q.IsGaussNewton fullRank x)
    (innerNothing : fullRank = false → Q.factor.inner.discarded = 0) :
    Q.rows *ᵥ x.get = Q.rhs ∘ Q.factor.topCol := by
  cases full : fullRank with
  | true => exact isGaussNewton.solves full
  | false => exact (isGaussNewton.shortest full (innerNothing full)).1

/-- The step that is found solves the equations shifted by the `alpha` that is found with it. -/
theorem solve_shifted (factors : Q.factor.Factors A) (positive : ∀ p, 0 < Q.scale p)
    (radius : 0 ≤ Q.delta) {fullRank : Bool}
    (innerNothing : fullRank = false → Q.factor.inner.discarded = 0) {previous : ℝ}
    {found : Found ℝ n} (solved : Q.solve fullRank previous = .ok found) :
    0 ≤ found.step.alpha ∧
      shifted Q.scaledRows found.step.alpha (Q.scaled found.step.x) = Q.pull := by
  obtain ⟨x, step⟩ := Q.gaussNewton_ok fullRank
  by_cases fits : TrustRegion.scaledNorm Q.scale x - Q.delta ≤ tolerance * Q.delta
  · rw [Q.solve_of_fits previous step fits] at solved
    cases solved
    constructor
    · exact le_rfl
    · exact shifted_of_rows positive ((gaussNewton_spec factors step).reaches innerNothing)
  · rw [Q.solve_of_long previous step fits] at solved
    cases solved
    obtain ⟨k, ended⟩ := Q.searchFrom_ended furtherSteps 1 (Q.begun fullRank previous x)
    have nonneg := (begun_nonneg radius fullRank previous fits).iterate Q k
    have damped : 0 < (Q.made (Q.next^[k] (Q.begun fullRank previous x))).alpha :=
      Bounds.positive_pos nonneg.alpha
    rw [ended.step, made_x]
    constructor
    · exact damped.le
    · exact dampedStep_shifted factors positive damped

/-! ## What the linear model says of it -/

section Model

variable {alpha : ℝ} {x : Vector ℝ n}

/-- The reduction of the squares that the rows of `R` predict for a step. -/
noncomputable def gain (Q : Problem ℝ m n) (x : Fin n → ℝ) : ℝ :=
  (Q.rows *ᵥ x) ⬝ᵥ (Q.rhs ∘ Q.factor.topCol) +
    (Q.rows *ᵥ x) ⬝ᵥ (Q.rhs ∘ Q.factor.topCol - Q.rows *ᵥ x)

theorem gain_eq (Q : Problem ℝ m n) (x : Fin n → ℝ) : Q.gain x =
    2 * ((Q.rows *ᵥ x) ⬝ᵥ (Q.rhs ∘ Q.factor.topCol)) - (Q.rows *ᵥ x) ⬝ᵥ (Q.rows *ᵥ x) := by
  rw [gain, dotProduct_sub]
  ring

theorem rMul_topCol (Q : Problem ℝ m n) (x : Vector ℝ n) (i : Fin Q.factor.rank) :
    Q.factor.rMul x (Q.factor.topCol i) = (Q.rows *ᵥ x.get) i := by
  have inside : (Q.factor.topCol i).val < Q.factor.rank := i.isLt
  rw [rows_mulVec, Factorization.rMul, Vector.get_ofFn, if_pos inside, Factorization.rMulRow,
    Scalar.addOver_real, zero_add]
  apply Finset.sum_congr rfl
  intro j _
  by_cases right : Q.factor.topCol i ≤ j
  · exact if_pos (decide_eq_true right)
  · rw [if_neg (ne_true_of_eq_false (decide_eq_false right)),
      Q.factor.r_of_gt (not_le.mp right), zero_mul]

theorem gain_sum (Q : Problem ℝ m n) (x : Vector ℝ n) :
    Scalar.addOver (-0) (fun i => i.val < Q.factor.rank) (fun i : Fin n =>
      Q.factor.rMul x i * (2.0 * Q.rhs i - Q.factor.rMul x i)) = Q.gain x.get := by
  rw [Scalar.addOver_real, neg_zero, zero_add, Q.factor.sum_of_rank_le Q.factor.rank_le_cols]
  · rw [gain_eq, dotProduct, dotProduct, Finset.mul_sum, ← Finset.sum_sub_distrib]
    apply Finset.sum_congr rfl
    intro i _
    have inside : (i.castLE Q.factor.rank_le_cols).val < Q.factor.rank := i.isLt
    rw [if_pos (decide_eq_true inside), ← rMul_topCol]
    change Q.factor.rMul x (Q.factor.topCol i) *
      (2.0 * Q.rhs (Q.factor.topCol i) - Q.factor.rMul x (Q.factor.topCol i)) =
        2 * (_ * Q.rhs (Q.factor.topCol i)) - _
    norm_num
    ring
  · intro i low
    exact if_neg (ne_true_of_eq_false (decide_eq_false (not_lt.mpr low)))

theorem dot_transpose_mulVec {ι κ : Type} [Fintype ι] [Fintype κ] (J : Matrix ι κ ℝ) (u : κ → ℝ)
    (w : ι → ℝ) : u ⬝ᵥ (Jᵀ *ᵥ w) = (J *ᵥ u) ⬝ᵥ w := by
  rw [dotProduct_mulVec, vecMul_transpose]

theorem dot_pull (positive : ∀ p, 0 < Q.scale p) (x : Vector ℝ n) :
    Q.scaled x ⬝ᵥ Q.pull = (Q.rows *ᵥ x.get) ⬝ᵥ (Q.rhs ∘ Q.factor.topCol) := by
  rw [pull, dot_transpose_mulVec, scaledRows_scaled positive]

theorem dot_of_shifted (positive : ∀ p, 0 < Q.scale p)
    (solution : shifted Q.scaledRows alpha (Q.scaled x) = Q.pull) :
    (Q.rows *ᵥ x.get) ⬝ᵥ (Q.rhs ∘ Q.factor.topCol) =
      (Q.rows *ᵥ x.get) ⬝ᵥ (Q.rows *ᵥ x.get) + alpha * (Q.scaled x ⬝ᵥ Q.scaled x) := by
  rw [← dot_pull positive, ← solution, dot_shifted, scaledRows_scaled positive]

theorem gain_of_shifted (positive : ∀ p, 0 < Q.scale p)
    (solution : shifted Q.scaledRows alpha (Q.scaled x) = Q.pull) :
    Q.gain x.get =
      (Q.rows *ᵥ x.get) ⬝ᵥ (Q.rows *ᵥ x.get) + 2 * alpha * (Q.scaled x ⬝ᵥ Q.scaled x) := by
  rw [gain_eq, dot_of_shifted positive solution]
  ring

theorem dot_nonneg (positive : ∀ p, 0 < Q.scale p) (nonneg : 0 ≤ alpha)
    (solution : shifted Q.scaledRows alpha (Q.scaled x) = Q.pull) :
    0 ≤ (Q.rows *ᵥ x.get) ⬝ᵥ (Q.rhs ∘ Q.factor.topCol) := by
  rw [dot_of_shifted positive solution]
  exact add_nonneg (dot_self_nonneg _) (mul_nonneg nonneg (dot_self_nonneg _))

theorem gain_nonneg (positive : ∀ p, 0 < Q.scale p) (nonneg : 0 ≤ alpha)
    (solution : shifted Q.scaledRows alpha (Q.scaled x) = Q.pull) : 0 ≤ Q.gain x.get := by
  rw [gain_of_shifted positive solution]
  have twice : 0 ≤ 2 * alpha := mul_nonneg two_pos.le nonneg
  exact add_nonneg (dot_self_nonneg _) (mul_nonneg twice (dot_self_nonneg _))

/-- Where the gradient is not zero, the linear model falls along the step. -/
theorem gain_pos (positive : ∀ p, 0 < Q.scale p) (nonneg : 0 ≤ alpha)
    (solution : shifted Q.scaledRows alpha (Q.scaled x) = Q.pull) (steep : Q.pull ≠ 0) :
    0 < Q.gain x.get := by
  apply lt_of_le_of_ne (gain_nonneg positive nonneg solution)
  intro zero
  rw [gain_of_shifted positive solution] at zero
  have image := dot_self_nonneg (Q.rows *ᵥ x.get)
  have own := mul_nonneg nonneg (dot_self_nonneg (Q.scaled x))
  -- Both squares are zero, and so is the left side of the equations.
  have noImage : Q.rows *ᵥ x.get = 0 := dotProduct_self_eq_zero.mp (by linarith)
  have noOwn : alpha • Q.scaled x = 0 := by
    have product : alpha * (Q.scaled x ⬝ᵥ Q.scaled x) = 0 := by linarith
    rcases mul_eq_zero.mp product with none | still
    · rw [none, zero_smul]
    · rw [dotProduct_self_eq_zero.mp still, smul_zero]
  apply steep
  rw [← solution, shifted, scaledRows_scaled positive, noImage, mulVec_zero, noOwn, add_zero]

end Model

/-! ## What the factored problem says of it -/

section Original

/-- If the factorization discards nothing and the right-hand side is the head of `Q' b`, the rows of
`R` have the residuals of `A`, up to the part of `b` that `A` does not reach. -/
theorem rows_residual (factors : Q.factor.Factors A) (nothing : Q.factor.discarded = 0)
    {b : Vector ℝ m} (head : leading n (Q.factor.qtMul b).toArray = Q.rhs) :
    ∃ rest : ℝ, ∀ x : Fin n → ℝ,
      (A.toMatrix *ᵥ x - b.get) ⬝ᵥ (A.toMatrix *ᵥ x - b.get) =
        (Q.rows *ᵥ x - Q.rhs ∘ Q.factor.topCol) ⬝ᵥ (Q.rows *ᵥ x - Q.rhs ∘ Q.factor.topCol) +
          rest := by
  obtain ⟨rest, residual⟩ := factors.residual_eq nothing b.get
  have top : Q.rhs ∘ Q.factor.topCol = (Q.factor.orthogonalᵀ *ᵥ b.get) ∘ Q.factor.topRow := by
    rw [← head]
    exact funext fun i => Q.factor.leading_qtMul b i
  refine ⟨rest, fun x => ?_⟩
  rw [residual, top, rows, ← mulVec_mulVec, Permutation.transpose_mulVec]

variable (factors : Q.factor.Factors A) (nothing : Q.factor.discarded = 0) {b : Vector ℝ m}
  (head : leading n (Q.factor.qtMul b).toArray = Q.rhs)

include factors nothing head

theorem gain_eq_residual (x : Fin n → ℝ) : Q.gain x =
    b.get ⬝ᵥ b.get - (A.toMatrix *ᵥ x - b.get) ⬝ᵥ (A.toMatrix *ᵥ x - b.get) := by
  obtain ⟨rest, residual⟩ := rows_residual factors nothing head
  have start := residual 0
  rw [mulVec_zero, mulVec_zero, zero_sub, zero_sub, neg_dotProduct_neg, neg_dotProduct_neg] at start
  rw [start, residual, gain_eq, sub_dotProduct, dotProduct_sub, dotProduct_sub,
    dotProduct_comm (Q.rhs ∘ Q.factor.topCol) (Q.rows *ᵥ x)]
  ring

theorem gain_congr {x y : Fin n → ℝ} (same : A.toMatrix *ᵥ x = A.toMatrix *ᵥ y) :
    Q.gain x = Q.gain y := by
  rw [gain_eq_residual factors nothing head, gain_eq_residual factors nothing head, same]

theorem dot_rhs (x : Fin n → ℝ) :
    (Q.rows *ᵥ x) ⬝ᵥ (Q.rhs ∘ Q.factor.topCol) = (A.toMatrix *ᵥ x) ⬝ᵥ b.get := by
  -- The gains of a step and of its opposite differ by four times either side.
  have forward := gain_eq_residual factors nothing head x
  have backward := gain_eq_residual factors nothing head (-x)
  simp only [gain_eq, mulVec_neg, sub_dotProduct, dotProduct_sub, neg_dotProduct, dotProduct_neg,
    neg_neg, dotProduct_comm b.get (A.toMatrix *ᵥ x)] at forward backward
  linarith

theorem dot_rows (x y : Fin n → ℝ) :
    (Q.rows *ᵥ x) ⬝ᵥ (Q.rows *ᵥ y) = (A.toMatrix *ᵥ x) ⬝ᵥ (A.toMatrix *ᵥ y) := by
  have square (z : Fin n → ℝ) :
      (Q.rows *ᵥ z) ⬝ᵥ (Q.rows *ᵥ z) = (A.toMatrix *ᵥ z) ⬝ᵥ (A.toMatrix *ᵥ z) := by
    have falls := gain_eq_residual factors nothing head z
    rw [gain_eq, dot_rhs factors nothing head, sub_dotProduct, dotProduct_sub, dotProduct_sub,
      dotProduct_comm b.get (A.toMatrix *ᵥ z)] at falls
    linarith
  have both := square (x + y)
  simp only [mulVec_add, add_dotProduct, dotProduct_add, square x, square y] at both
  rw [dotProduct_comm (Q.rows *ᵥ y) (Q.rows *ᵥ x),
    dotProduct_comm (A.toMatrix *ᵥ y) (A.toMatrix *ᵥ x)] at both
  linarith

theorem pull_ne_zero_of (positive : ∀ p, 0 < Q.scale p) (steep : A.toMatrixᵀ *ᵥ b.get ≠ 0) :
    Q.pull ≠ 0 := by
  intro flat
  apply steep
  have still : Q.rowsᵀ *ᵥ (Q.rhs ∘ Q.factor.topCol) = 0 := by
    funext p
    have entry := congrFun flat p
    rw [pull, scaledRows_transpose_mulVec] at entry
    exact (mul_eq_zero.mp entry).resolve_left (inv_ne_zero (positive p).ne')
  have meets := dot_rhs factors nothing head (A.toMatrixᵀ *ᵥ b.get)
  rw [← dot_transpose_mulVec Q.rows, ← dot_transpose_mulVec A.toMatrix, still,
    dotProduct_zero] at meets
  exact dotProduct_self_eq_zero.mp meets.symm

end Original

end Problem

end LeastSquares.Damping

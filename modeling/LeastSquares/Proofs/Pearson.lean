import Mathlib.Algebra.BigOperators.Field
import Mathlib.Algebra.Order.BigOperators.Ring.Finset
import Mathlib.Algebra.Order.Star.Real
import Mathlib.LinearAlgebra.Matrix.PosDef
import LeastSquares.Proofs.Euclid
import LeastSquares.Proofs.Exact

/-!
# Pearson's correlation

The correlation of two samples over a finite set is the cosine of the angle between them once their
means are taken off. A sample that does not vary is nothing once its mean is taken off; the quotient
is zero then, as any quotient by zero is.
-/

set_option autoImplicit false

namespace LeastSquares

open Matrix

variable {ι κ : Type} [Fintype ι]

noncomputable def mean (x : ι → ℝ) : ℝ := (∑ i, x i) / Fintype.card ι

noncomputable def pearson (x y : ι → ℝ) : ℝ :=
  (∑ i, (x i - mean x) * (y i - mean y)) /
    (√(∑ i, (x i - mean x) ^ 2) * √(∑ i, (y i - mean y) ^ 2))

/-- Whether a sample takes different values. -/
def Varies (x : ι → ℝ) : Prop := ∃ i j, x i ≠ x j

/-! ## Samples with their means taken off -/

noncomputable def centered (x : ι → ℝ) : ι → ℝ := fun i => x i - mean x

theorem mean_of_constant {x : ι → ℝ} (constant : ¬ Varies x) (i : ι) : mean x = x i := by
  simp only [Varies, not_exists, not_not] at constant
  have some : (Fintype.card ι : ℝ) ≠ 0 :=
    Nat.cast_ne_zero.mpr (Fintype.card_pos_iff.mpr ⟨i⟩).ne'
  rw [mean, Finset.sum_congr rfl fun j _ => constant j i, Finset.sum_const, Finset.card_univ,
    nsmul_eq_mul, mul_div_cancel_left₀ _ some]

theorem centered_eq_zero_iff (x : ι → ℝ) : centered x = 0 ↔ ¬ Varies x := by
  constructor
  · rintro zero ⟨i, j, differ⟩
    have first : x i = mean x := sub_eq_zero.mp (congrFun zero i)
    have second : x j = mean x := sub_eq_zero.mp (congrFun zero j)
    exact differ (first.trans second.symm)
  · intro constant
    funext i
    exact sub_eq_zero.mpr (mean_of_constant constant i).symm

theorem centered_dot_pos_iff (x : ι → ℝ) : 0 < centered x ⬝ᵥ centered x ↔ Varies x := by
  constructor
  · intro positive
    by_contra constant
    rw [(centered_eq_zero_iff x).mpr constant, zero_dotProduct] at positive
    exact lt_irrefl 0 positive
  · intro varies
    exact dot_self_pos fun zero => (centered_eq_zero_iff x).mp zero varies

theorem not_varies_of_card (few : Fintype.card ι ≤ 1) (x : ι → ℝ) : ¬ Varies x := by
  rintro ⟨i, j, differ⟩
  exact differ (congrArg x (Fintype.card_le_one_iff.mp few i j))

/-! ## Cosines -/

/-- A sample with its mean taken off, at length one if it varies. -/
noncomputable def standardized (x : ι → ℝ) : ι → ℝ := fun i => centered x i / euclid (centered x)

theorem pearson_eq_div (x y : ι → ℝ) :
    pearson x y = (centered x ⬝ᵥ centered y) / (euclid (centered x) * euclid (centered y)) := by
  simp only [pearson, euclid, dotProduct, centered, pow_two]

theorem pearson_eq_dot (x y : ι → ℝ) : pearson x y = standardized x ⬝ᵥ standardized y := by
  simp only [pearson_eq_div, dotProduct, standardized, div_mul_div_comm, Finset.sum_div]

theorem pearson_comm (x y : ι → ℝ) : pearson x y = pearson y x := by
  rw [pearson_eq_dot, pearson_eq_dot, dotProduct_comm]

theorem pearson_of_constant {x : ι → ℝ} (constant : ¬ Varies x) (y : ι → ℝ) : pearson x y = 0 := by
  rw [pearson_eq_div, (centered_eq_zero_iff x).mpr constant, zero_dotProduct, zero_div]

theorem pearson_self {x : ι → ℝ} (varies : Varies x) : pearson x x = 1 := by
  have positive := (centered_dot_pos_iff x).mpr varies
  rw [pearson_eq_div, euclid, Real.mul_self_sqrt positive.le, div_self positive.ne']

theorem abs_pearson_le_one (x y : ι → ℝ) : |pearson x y| ≤ 1 := by
  have cauchy : (centered x ⬝ᵥ centered y) ^ 2 ≤
      (centered x ⬝ᵥ centered x) * (centered y ⬝ᵥ centered y) := by
    have squares := Finset.sum_mul_sq_le_sq_mul_sq Finset.univ (centered x) (centered y)
    simp only [pow_two (centered _ _)] at squares
    exact squares
  rw [pearson_eq_div, euclid, euclid, ← Real.sqrt_mul (dot_self_nonneg _), abs_div,
    abs_of_nonneg (Real.sqrt_nonneg _)]
  exact div_le_one_of_le₀ (Real.abs_le_sqrt cauchy) (Real.sqrt_nonneg _)

theorem pearson_posSemidef [Finite κ] (x : κ → ι → ℝ) :
    (Matrix.of fun p q => pearson (x p) (x q)).PosSemidef := by
  let columns : Matrix ι κ ℝ := .of fun i p => standardized (x p) i
  have gram : (Matrix.of fun p q => pearson (x p) (x q)) = columnsᴴ * columns := by
    ext p q
    exact pearson_eq_dot (x p) (x q)
  rw [gram]
  exact posSemidef_conjTranspose_mul_self columns

end LeastSquares

import Mathlib.Analysis.Real.Sqrt
import Mathlib.Data.Matrix.Mul
import Mathlib.LinearAlgebra.Matrix.DotProduct
import LeastSquares.DenseMatrix

/-!
# Least squares in exact arithmetic

What it means to solve `A x = b` in the least-squares sense, for a matrix `A` over any finite sets
of rows and columns, and when a vector does. A solution is recognized by its normal equations
`A' (A x - b) = 0`; it is the shortest one if it is a combination of the rows of `A`, and the only
one if the columns of `A` are independent.
-/

set_option autoImplicit false

namespace LeastSquares

open Matrix

variable {ι κ : Type} [Fintype ι] [Fintype κ]

def DenseMatrix.toMatrix {m n : Nat} (A : DenseMatrix ℝ m n) : Matrix (Fin m) (Fin n) ℝ :=
  Matrix.of A.get

noncomputable def euclid (v : ι → ℝ) : ℝ := √(v ⬝ᵥ v)

/-- No vector brings `A` closer to `b` than `x`. -/
def IsMinimizer (A : Matrix ι κ ℝ) (b : ι → ℝ) (x : κ → ℝ) : Prop :=
  ∀ y, euclid (A *ᵥ x - b) ≤ euclid (A *ᵥ y - b)

/-- Every other vector leaves `A` farther from `b` than `x`. -/
def IsOnlyMinimizer (A : Matrix ι κ ℝ) (b : ι → ℝ) (x : κ → ℝ) : Prop :=
  ∀ y, y ≠ x → euclid (A *ᵥ x - b) < euclid (A *ᵥ y - b)

/-- `x` brings `A` as close to `b` as can be, and every other vector that does so is longer. -/
structure IsShortestMinimizer (A : Matrix ι κ ℝ) (b : ι → ℝ) (x : κ → ℝ) : Prop where
  minimizes : IsMinimizer A b x
  shortest : ∀ y, IsMinimizer A b y → y ≠ x → euclid x < euclid y

def Normal (A : Matrix ι κ ℝ) (b : ι → ℝ) (x : κ → ℝ) : Prop := Aᵀ *ᵥ (A *ᵥ x - b) = 0

/-! ## The norm -/

theorem dot_self_nonneg (v : ι → ℝ) : 0 ≤ v ⬝ᵥ v :=
  Finset.sum_nonneg fun i _ => mul_self_nonneg (v i)

theorem dot_self_pos {v : ι → ℝ} (nonzero : v ≠ 0) : 0 < v ⬝ᵥ v :=
  lt_of_le_of_ne (dot_self_nonneg v) fun zero => nonzero (dotProduct_self_eq_zero.mp zero.symm)

theorem euclid_le_iff {u : ι → ℝ} {v : κ → ℝ} : euclid u ≤ euclid v ↔ u ⬝ᵥ u ≤ v ⬝ᵥ v :=
  Real.sqrt_le_sqrt_iff (dot_self_nonneg v)

theorem euclid_lt_iff {u : ι → ℝ} {v : κ → ℝ} : euclid u < euclid v ↔ u ⬝ᵥ u < v ⬝ᵥ v :=
  Real.sqrt_lt_sqrt_iff (dot_self_nonneg u)

theorem dot_self_add {u v : ι → ℝ} (orthogonal : u ⬝ᵥ v = 0) :
    (u + v) ⬝ᵥ (u + v) = u ⬝ᵥ u + v ⬝ᵥ v := by
  rw [add_dotProduct, dotProduct_add, dotProduct_add, dotProduct_comm v u, orthogonal]
  ring

theorem dot_mulVec_of_orthogonal [DecidableEq κ] {Q : Matrix ι κ ℝ} (orthogonal : Qᵀ * Q = 1)
    (v w : κ → ℝ) : (Q *ᵥ v) ⬝ᵥ (Q *ᵥ w) = v ⬝ᵥ w := by
  rw [dotProduct_mulVec, ← mulVec_transpose, mulVec_mulVec, orthogonal, one_mulVec]

/-! ## Solutions of the normal equations -/

section Solutions

variable {A : Matrix ι κ ℝ} {b : ι → ℝ} {x : κ → ℝ}

/-- Away from a solution of the normal equations the squared residual grows by `‖A (y - x)‖²`. -/
theorem Normal.residual_eq (normal : Normal A b x) (y : κ → ℝ) :
    (A *ᵥ y - b) ⬝ᵥ (A *ᵥ y - b) =
      (A *ᵥ x - b) ⬝ᵥ (A *ᵥ x - b) + (A *ᵥ (y - x)) ⬝ᵥ (A *ᵥ (y - x)) := by
  have split : A *ᵥ y - b = (A *ᵥ x - b) + A *ᵥ (y - x) := by
    rw [mulVec_sub]
    abel
  have orthogonal : (A *ᵥ x - b) ⬝ᵥ (A *ᵥ (y - x)) = 0 := by
    rw [dotProduct_mulVec, ← mulVec_transpose, normal, zero_dotProduct]
  rw [split, dot_self_add orthogonal]

theorem Normal.of_image (image : A *ᵥ x = b) : Normal A b x := by
  rw [Normal, image, sub_self, mulVec_zero]

theorem Normal.isMinimizer (normal : Normal A b x) : IsMinimizer A b x := by
  intro y
  rw [euclid_le_iff, normal.residual_eq y]
  exact le_add_of_nonneg_right (dot_self_nonneg _)

theorem Normal.image_eq (normal : Normal A b x) {y : κ → ℝ} (minimizes : IsMinimizer A b y) :
    A *ᵥ (y - x) = 0 := by
  have below := euclid_le_iff.mp (minimizes x)
  rw [normal.residual_eq y] at below
  have square : (A *ᵥ (y - x)) ⬝ᵥ (A *ᵥ (y - x)) = 0 :=
    le_antisymm (by linarith) (dot_self_nonneg _)
  exact dotProduct_self_eq_zero.mp square

theorem Normal.isOnlyMinimizer (normal : Normal A b x)
    (independent : ∀ z, A *ᵥ z = 0 → z = 0) : IsOnlyMinimizer A b x := by
  intro y other
  rw [euclid_lt_iff, normal.residual_eq y]
  refine lt_add_of_pos_right _ (dot_self_pos fun zero => other ?_)
  exact sub_eq_zero.mp (independent _ zero)

/-- A minimizer that is a combination of the rows is orthogonal to all that leaves the image alone,
so it is the shortest. -/
theorem Normal.isShortestMinimizer (normal : Normal A b x) {w : ι → ℝ} (rows : x = Aᵀ *ᵥ w) :
    IsShortestMinimizer A b x := by
  refine ⟨normal.isMinimizer, fun y minimizes other => ?_⟩
  have orthogonal : x ⬝ᵥ (y - x) = 0 :=
    calc x ⬝ᵥ (y - x) = (Aᵀ *ᵥ w) ⬝ᵥ (y - x) := by rw [← rows]
      _ = w ⬝ᵥ (A *ᵥ (y - x)) := by rw [mulVec_transpose, dotProduct_mulVec]
      _ = 0 := by rw [normal.image_eq minimizes, dotProduct_zero]
  have split : y = x + (y - x) := by abel
  rw [euclid_lt_iff]
  conv_rhs => rw [split, dot_self_add orthogonal]
  exact lt_add_of_pos_right _ (dot_self_pos (sub_ne_zero.mpr other))

end Solutions

theorem IsOnlyMinimizer.isMinimizer {A : Matrix ι κ ℝ} {b : ι → ℝ} {x : κ → ℝ}
    (only : IsOnlyMinimizer A b x) : IsMinimizer A b x := by
  intro y
  by_cases same : y = x
  · rw [same]
  · exact (only y same).le

theorem IsOnlyMinimizer.eq_of_isMinimizer {A : Matrix ι κ ℝ} {b : ι → ℝ} {x y : κ → ℝ}
    (only : IsOnlyMinimizer A b x) (minimizes : IsMinimizer A b y) : y = x := by
  by_contra other
  exact absurd (minimizes x) (not_le.mpr (only y other))

theorem IsOnlyMinimizer.independent {A : Matrix ι κ ℝ} {b : ι → ℝ} {x : κ → ℝ}
    (only : IsOnlyMinimizer A b x) (z : κ → ℝ) (zero : A *ᵥ z = 0) : z = 0 := by
  by_contra nonzero
  have farther := only (x + z) fun same => nonzero (add_eq_left.mp same)
  rw [mulVec_add, zero, add_zero] at farther
  exact lt_irrefl _ farther

theorem IsOnlyMinimizer.of_residual {μ : Type} [Fintype μ] {A : Matrix ι κ ℝ} {B : Matrix μ κ ℝ}
    {b : ι → ℝ} {c : μ → ℝ} {x : κ → ℝ} (only : IsOnlyMinimizer A b x) (rest : ℝ)
    (same : ∀ y, (B *ᵥ y - c) ⬝ᵥ (B *ᵥ y - c) = (A *ᵥ y - b) ⬝ᵥ (A *ᵥ y - b) + rest) :
    IsOnlyMinimizer B c x := by
  intro y other
  rw [euclid_lt_iff, same, same]
  exact add_lt_add_left (euclid_lt_iff.mp (only y other)) rest

theorem IsOnlyMinimizer.isShortestMinimizer {A : Matrix ι κ ℝ} {b : ι → ℝ} {x : κ → ℝ}
    (only : IsOnlyMinimizer A b x) : IsShortestMinimizer A b x :=
  ⟨only.isMinimizer, fun _ minimizes other => absurd (only.eq_of_isMinimizer minimizes) other⟩

theorem IsShortestMinimizer.unique {A : Matrix ι κ ℝ} {b : ι → ℝ} {x y : κ → ℝ}
    (first : IsShortestMinimizer A b x) (second : IsShortestMinimizer A b y) : x = y := by
  by_contra other
  have longer := first.shortest y second.minimizes (Ne.symm other)
  exact absurd (second.shortest x first.minimizes other) longer.asymm

end LeastSquares

import LeastSquares.Proofs.Euclid
import LeastSquares.Proofs.Exact
import LeastSquares.QR.Reflector

/-!
# Reflectors as matrices

In exact arithmetic a stored vector `v` acts as the matrix `1 - v v' / v_k`, of which only rows `k`
and below of `v` count. It is symmetric, and an involution when `v' v = 2 v_k`. Normalizing a column
by its signed norm gives such a vector, and the reflection takes the column to a multiple of a unit
vector.
-/

set_option autoImplicit false

namespace LeastSquares.Reflector

open Matrix

variable {m : Nat}

def tail (v : Vector ℝ m) (k : Fin m) : Fin m → ℝ := fun i => if k ≤ i then v i else 0

noncomputable def matrix (v : Vector ℝ m) (k : Fin m) : Matrix (Fin m) (Fin m) ℝ :=
  1 - (v k)⁻¹ • vecMulVec (tail v k) (tail v k)

/-- A stored vector that reflects, as `normalize` makes them. -/
structure Proper (v : Vector ℝ m) (k : Fin m) : Prop where
  square : tail v k ⬝ᵥ tail v k = 2 * v k
  one_le : 1 ≤ v k
  le_two : v k ≤ 2

theorem Proper.lead_pos {v : Vector ℝ m} {k : Fin m} (proper : Proper v k) : 0 < v k :=
  lt_of_lt_of_le one_pos proper.one_le

/-! ## The matrix -/

theorem matrix_mulVec (v : Vector ℝ m) (k : Fin m) (x : Fin m → ℝ) :
    matrix v k *ᵥ x = x - (tail v k ⬝ᵥ x / v k) • tail v k := by
  rw [matrix, sub_mulVec, one_mulVec, smul_mulVec, vecMulVec_mulVec]
  ext i
  simp only [Pi.sub_apply, Pi.smul_apply, MulOpposite.smul_eq_mul_unop, MulOpposite.unop_op,
    smul_eq_mul]
  ring

theorem matrix_transpose (v : Vector ℝ m) (k : Fin m) : (matrix v k)ᵀ = matrix v k := by
  rw [matrix, transpose_sub, transpose_one, transpose_smul, transpose_vecMulVec]

theorem Proper.matrix_mul_self {v : Vector ℝ m} {k : Fin m} (proper : Proper v k) :
    matrix v k * matrix v k = 1 := by
  have lead : v k ≠ 0 := proper.lead_pos.ne'
  refine ext_of_mulVec_single fun i => ?_
  rw [← mulVec_mulVec, one_mulVec, matrix_mulVec v k (Pi.single i 1), matrix_mulVec,
    dotProduct_sub, dotProduct_smul, proper.square]
  ext j
  simp only [Pi.sub_apply, Pi.smul_apply, smul_eq_mul]
  field_simp
  ring

theorem matrix_mulVec_of_zero {v : Vector ℝ m} {k : Fin m} {x : Fin m → ℝ}
    (zero : ∀ i, k ≤ i → x i = 0) : matrix v k *ᵥ x = x := by
  have orthogonal : tail v k ⬝ᵥ x = 0 := by
    refine Finset.sum_eq_zero fun i _ => ?_
    by_cases below : k ≤ i
    · rw [zero i below, mul_zero]
    · rw [tail, if_neg below, zero_mul]
  rw [matrix_mulVec, orthogonal, zero_div, zero_smul, sub_zero]

theorem Proper.keeps_rows {v : Vector ℝ m} {k : Fin m} (proper : Proper v k) (x : Fin m → ℝ)
    {t : Nat} (front : t ≤ k.val) :
    ∑ i : Fin m with t ≤ i.val, (matrix v k *ᵥ x) i ^ 2 =
      ∑ i : Fin m with t ≤ i.val, x i ^ 2 := by
  have orthogonal : (matrix v k)ᵀ * matrix v k = 1 := by
    rw [matrix_transpose, proper.matrix_mul_self]
  have whole : ∑ i, (matrix v k *ᵥ x) i ^ 2 = ∑ i, x i ^ 2 := by
    simpa only [dotProduct, ← sq] using dot_mulVec_of_orthogonal orthogonal x x
  have above (i : Fin m) (early : ¬ t ≤ i.val) : (matrix v k *ᵥ x) i = x i := by
    rw [matrix_mulVec, Pi.sub_apply, Pi.smul_apply, tail, if_neg (show ¬ k ≤ i by omega),
      smul_zero, sub_zero]
  have rest : ∑ i : Fin m with ¬ t ≤ i.val, (matrix v k *ᵥ x) i ^ 2 =
      ∑ i : Fin m with ¬ t ≤ i.val, x i ^ 2 :=
    Finset.sum_congr rfl fun i early => by rw [above i (Finset.mem_filter.mp early).2]
  rw [← Finset.sum_filter_add_sum_filter_not Finset.univ (fun i : Fin m => t ≤ i.val),
    ← Finset.sum_filter_add_sum_filter_not Finset.univ (fun i : Fin m => t ≤ i.val)
      fun i => x i ^ 2, rest] at whole
  exact add_right_cancel whole

theorem tail_dot (v w : Vector ℝ m) (k : Fin m) :
    tail v k ⬝ᵥ w.get = ∑ i, if k ≤ i then v i * w i else 0 := by
  simp only [dotProduct, tail, ite_mul, zero_mul]

theorem tail_dot_tail (v w : Vector ℝ m) (k : Fin m) :
    tail v k ⬝ᵥ tail w k = ∑ i, if k ≤ i then v i * w i else 0 := by
  refine Finset.sum_congr rfl fun i _ => ?_
  by_cases below : k ≤ i
  · simp [tail, below]
  · simp [tail, below]

theorem apply_real {start : ℝ} (empty : start = 0) (v : Vector ℝ m) (k : Fin m)
    (w : Vector ℝ m) : (apply start v k w).get = matrix v k *ᵥ w.get := by
  funext i
  rw [matrix_mulVec, tail_dot]
  simp only [apply, Vector.get_ofFn, Scalar.addOver_real, empty, zero_add, decide_eq_true_eq,
    Pi.sub_apply, Pi.smul_apply, smul_eq_mul, tail]
  split
  · rfl
  · rw [mul_zero, sub_zero]

/-! ## Normalizing a column -/

theorem tailNorm_mul_self (w : Vector ℝ m) (k : Fin m) :
    tailNorm w k * tailNorm w k = tail w k ⬝ᵥ tail w k := by
  rw [tailNorm, Scalar.norm_mul_self, Scalar.sumSquares_real, tail_dot_tail]
  simp only [decide_eq_true_eq]

theorem tailNorm_nonneg (w : Vector ℝ m) (k : Fin m) : 0 ≤ tailNorm w k := Scalar.norm_nonneg _ _

theorem tailNorm_eq_euclid (w : Vector ℝ m) (k : Fin m) : tailNorm w k = euclid (tail w k) := by
  rw [euclid, ← tailNorm_mul_self, Real.sqrt_mul_self (tailNorm_nonneg w k)]

theorem abs_le_tailNorm (w : Vector ℝ m) (k : Fin m) : |w k| ≤ tailNorm w k := by
  refine abs_le_of_sq_le_sq ?_ (tailNorm_nonneg w k)
  rw [sq, sq, tailNorm_mul_self, tail_dot_tail]
  have single : w k * w k = if k ≤ k then w k * w k else 0 := by rw [if_pos le_rfl]
  rw [single]
  refine Finset.single_le_sum (f := fun i => if k ≤ i then w i * w i else 0) ?_
    (Finset.mem_univ k)
  intro i _
  split
  · exact mul_self_nonneg _
  · exact le_rfl

section Normalize

variable {w : Vector ℝ m} {k : Fin m} {s : ℝ}

theorem signedLike_mul_self (lead norm : ℝ) :
    signedLike lead norm * signedLike lead norm = norm * norm := by
  unfold signedLike
  split
  · exact neg_mul_neg norm norm
  · rfl

theorem abs_signedLike {lead norm : ℝ} (nonneg : 0 ≤ norm) : |signedLike lead norm| = norm := by
  unfold signedLike
  split
  · rw [abs_neg, abs_of_nonneg nonneg]
  · exact abs_of_nonneg nonneg

theorem signedLike_ne_zero {lead norm : ℝ} (nonzero : norm ≠ 0) : signedLike lead norm ≠ 0 := by
  unfold signedLike
  split
  · exact neg_ne_zero.mpr nonzero
  · exact nonzero

theorem lead_div_signedLike {lead norm : ℝ} (bound : |lead| ≤ norm) :
    0 ≤ lead / signedLike lead norm ∧ lead / signedLike lead norm ≤ 1 := by
  have nonneg : 0 ≤ norm := (abs_nonneg lead).trans bound
  unfold signedLike
  split
  · rename_i negative
    rw [abs_of_neg negative] at bound
    rw [div_neg, ← neg_div]
    exact ⟨div_nonneg (neg_nonneg.mpr negative.le) nonneg, div_le_one_of_le₀ bound nonneg⟩
  · rename_i notNegative
    have lead_nonneg : 0 ≤ lead := not_lt.mp notNegative
    rw [abs_of_nonneg lead_nonneg] at bound
    exact ⟨div_nonneg lead_nonneg nonneg, div_le_one_of_le₀ bound nonneg⟩

theorem normalize_above {i : Fin m} (above : i < k) : normalize s w k i = w i := by
  rw [normalize, Vector.get_ofFn, if_neg above.ne, if_neg above.asymm]

theorem normalize_lead : normalize s w k k = w k / s + 1 := by
  rw [normalize, Vector.get_ofFn, if_pos rfl]

theorem tail_normalize : tail (normalize s w k) k = s⁻¹ • tail w k + Pi.single k 1 := by
  funext i
  simp only [tail, normalize, Vector.get_ofFn, Pi.add_apply, Pi.smul_apply, smul_eq_mul]
  rcases lt_trichotomy i k with above | same | below
  · rw [if_neg above.not_ge, if_neg above.not_ge, Pi.single_eq_of_ne above.ne]
    ring
  · subst same
    rw [if_pos le_rfl, if_pos rfl, if_pos le_rfl, Pi.single_eq_same]
    ring
  · rw [if_pos below.le, if_neg below.ne', if_pos below, if_pos below.le,
      Pi.single_eq_of_ne below.ne']
    ring

theorem tail_lead (w : Vector ℝ m) (k : Fin m) : tail w k k = w k := if_pos le_rfl

theorem proper_normalize (nonzero : s ≠ 0) (size : s * s = tail w k ⬝ᵥ tail w k)
    (positive : 0 ≤ w k / s) (bounded : w k / s ≤ 1) : Proper (normalize s w k) k := by
  refine ⟨?_, ?_, ?_⟩
  · rw [tail_normalize, normalize_lead, add_dotProduct, dotProduct_add, dotProduct_add,
      smul_dotProduct, dotProduct_smul, ← size, smul_dotProduct, dotProduct_smul,
      single_dotProduct, single_dotProduct, dotProduct_single, tail_lead, Pi.single_eq_same]
    simp only [smul_eq_mul]
    field_simp
    ring
  · rw [normalize_lead]
    linarith
  · rw [normalize_lead]
    linarith

/-- The reflection of the column that was normalized: minus the norm in row `k`, zeros below. -/
theorem matrix_normalize_mulVec (nonzero : s ≠ 0) (size : s * s = tail w k ⬝ᵥ tail w k)
    (positive : 0 ≤ w k / s) :
    matrix (normalize s w k) k *ᵥ w.get =
      fun i => if i < k then w i else if i = k then -s else 0 := by
  have lead : w k / s + 1 ≠ 0 := by positivity
  have product : tail (normalize s w k) k ⬝ᵥ w.get = s * (w k / s + 1) := by
    have masked : tail w k ⬝ᵥ w.get = tail w k ⬝ᵥ tail w k := by rw [tail_dot, tail_dot_tail]
    rw [tail_normalize, add_dotProduct, smul_dotProduct, masked, ← size, single_dotProduct,
      smul_eq_mul, one_mul]
    field_simp
    ring
  funext i
  rw [matrix_mulVec, product, normalize_lead, mul_div_cancel_right₀ s lead, tail_normalize]
  simp only [Pi.sub_apply, Pi.smul_apply, Pi.add_apply, smul_eq_mul, tail]
  rcases lt_trichotomy i k with above | same | below
  · rw [if_pos above, if_neg above.not_ge, Pi.single_eq_of_ne above.ne]
    ring
  · subst same
    rw [if_neg (lt_irrefl i), if_pos rfl, if_pos le_rfl, Pi.single_eq_same]
    field_simp
    ring
  · rw [if_neg below.asymm, if_neg below.ne', if_pos below.le, Pi.single_eq_of_ne below.ne']
    field_simp
    ring

end Normalize

end LeastSquares.Reflector

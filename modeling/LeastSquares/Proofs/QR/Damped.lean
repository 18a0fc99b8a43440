import Mathlib.Data.Matrix.ColumnRowPartitioned
import LeastSquares.Proofs.QR.Folding
import LeastSquares.Proofs.QR.Solve

/-!
# Damped least squares in exact arithmetic

The pairing of the final triangle is that of `R` and the damping, so its Gram matrix is theirs, and
so are its residuals, up to a constant. A triangle without zeros on its diagonal has one solution,
which is then the only minimizer of the damped problem.
-/

set_option autoImplicit false

namespace LeastSquares

open Matrix

variable {m n : Nat}

/-- The permutation matrix: its column `j` is the unit vector of `P.get j`. -/
def Permutation.toMatrix (P : Permutation n) : Matrix (Fin n) (Fin n) ℝ :=
  .of fun p j => if P.get j = p then 1 else 0

theorem Permutation.transpose_mulVec (P : Permutation n) (x : Fin n → ℝ) :
    P.toMatrixᵀ *ᵥ x = x ∘ P.get := by
  funext j
  change ∑ p, (if P.get j = p then 1 else 0) * x p = x (P.get j)
  simp

/-! ## Triangles -/

namespace Triangle

variable {S : Triangle ℝ n}

theorem leading_of_ne_zero (nonzero : ∀ j, S.entry j j ≠ 0) : S.leading = n := by
  refine foldr_carries _ (fun _ bound => bound = n) n rfl fun j bound holds => ?_
  rw [if_neg (by simpa using nonzero j)]
  exact holds

theorem solve_rows (upper : Upper S.entry) (nonzero : ∀ j, S.entry j j ≠ 0) (k : Fin n) :
    ∑ i, S.entry k i * S.solve i = S.rhs k := by
  rw [solve, leading_of_ne_zero nonzero]
  exact (backSubstitute_spec _ upper fun j _ => nonzero j).2 k k.isLt

theorem det_entry (upper : Upper S.entry) : (Matrix.of S.entry).det = ∏ i, S.entry i i :=
  det_of_isUpperTriangular fun i j below => upper i j below

theorem defect_solve (upper : Upper S.entry) (nonzero : ∀ j, S.entry j j ≠ 0) (k : Fin n) :
    S.defect k S.solve.get 1 = 0 := by
  rw [defect, solve_rows upper nonzero, one_mul, sub_self]

theorem defect_sub (k : Fin n) (z w : Fin n → ℝ) (t u : ℝ) :
    S.defect k (z - w) (t - u) = S.defect k z t - S.defect k w u := by
  have term (i : Fin n) : S.entry k i * (z - w) i = S.entry k i * z i - S.entry k i * w i :=
    mul_sub _ _ _
  rw [defect, defect, defect, Finset.sum_congr rfl fun i _ => term i, Finset.sum_sub_distrib]
  ring

theorem pairing_solve_lt (upper : Upper S.entry) (nonzero : ∀ j, S.entry j j ≠ 0)
    {z : Fin n → ℝ} (other : z ≠ S.solve.get) :
    S.pairing S.solve.get 1 S.solve.get 1 < S.pairing z 1 z 1 := by
  have zero : S.pairing S.solve.get 1 S.solve.get 1 = 0 :=
    Finset.sum_eq_zero fun k _ => by rw [defect_solve upper nonzero, mul_zero]
  rw [zero]
  refine dot_self_pos (v := fun k => S.defect k z 1) fun vanishes => other ?_
  have det : (Matrix.of S.entry).det ≠ 0 := by
    rw [det_entry upper]
    exact Finset.prod_ne_zero_iff.mpr fun i _ => nonzero i
  have difference : Matrix.of S.entry *ᵥ (z - S.solve.get) = 0 := by
    funext k
    have both := S.defect_sub k z S.solve.get 1 1
    rw [congrFun vanishes k, defect_solve upper nonzero, defect, sub_self, zero_mul, sub_zero,
      Pi.zero_apply, sub_zero] at both
    exact both
  exact sub_eq_zero.mp (eq_zero_of_mulVec_eq_zero det difference)

theorem toMatrix_toMatrix (S : Triangle ℝ n) : S.toMatrix.toMatrix = Matrix.of S.entry := by
  ext i j
  exact DenseMatrix.get_ofFn _ i j

theorem defect_single (k i : Fin n) : S.defect k (Pi.single i 1) 0 = S.entry k i := by
  rw [defect, zero_mul, sub_zero]
  simp [Pi.single_apply]

end Triangle

namespace Factorization

variable {F : Factorization ℝ m n} {A : DenseMatrix ℝ m n}

noncomputable def topRows (F : Factorization ℝ m n) : Matrix (Fin F.rank) (Fin n) ℝ :=
  .of fun i j => F.r (F.topCol i) j

noncomputable def damped (F : Factorization ℝ m n) (d : Vector ℝ n) :
    Matrix (Fin F.rank ⊕ Fin n) (Fin n) ℝ :=
  fromRows (F.topRows * F.perm.toMatrixᵀ) (diagonal d.get)

theorem triangle_pairing (F : Factorization ℝ m n) (c : Vector ℝ n) (z : Fin n → ℝ) (t : ℝ)
    (w : Fin n → ℝ) (u : ℝ) : (F.triangle c).pairing z t w u =
      (F.topRows *ᵥ z - t • (c ∘ F.topCol)) ⬝ᵥ (F.topRows *ᵥ w - u • (c ∘ F.topCol)) := by
  have defect (k : Fin n) (v : Fin n → ℝ) (r : ℝ) : (F.triangle c).defect k v r =
      ∑ i, F.r k i * v i - r * (if k.val < F.rank then c k else 0) := by
    simp only [Triangle.defect, triangle, Triangle.entry, Vector.get_ofFn]
  refine (F.sum_of_rank_le F.rank_le_cols _ fun k low => ?_).trans
    (Finset.sum_congr rfl fun k _ => ?_)
  · have zero (v : Fin n → ℝ) (r : ℝ) : (F.triangle c).defect k v r = 0 := by
      rw [defect, if_neg (not_lt.mpr low), mul_zero, sub_zero]
      exact Finset.sum_eq_zero fun i _ => by rw [r_of_rank_le F low, zero_mul]
    rw [zero, zero_mul]
  · have top (v : Fin n → ℝ) (r : ℝ) : (F.triangle c).defect (F.topCol k) v r =
        (F.topRows *ᵥ v - r • (c ∘ F.topCol)) k := by
      rw [defect, if_pos (show (F.topCol k).val < F.rank from k.isLt)]
      rfl
    exact congrArg₂ (· * ·) (top z t) (top w u)

theorem damped_mulVec (F : Factorization ℝ m n) (d : Vector ℝ n) (x : Fin n → ℝ) :
    F.damped d *ᵥ x = Sum.elim (F.topRows *ᵥ (x ∘ F.perm.get)) (diagonal d.get *ᵥ x) := by
  rw [damped, fromRows_mulVec, ← mulVec_mulVec, Permutation.transpose_mulVec]

/-- If no vector other than zero escapes both `R P'` and the damping, the triangle has no zero on
its diagonal. -/
theorem dampedTriangle_diag (F : Factorization ℝ m n) (c d : Vector ℝ n)
    (independent : ∀ z, F.topRows *ᵥ z = 0 → (∀ j, d (F.perm.get j) * z j = 0) → z = 0)
    (i : Fin n) : (F.dampedTriangle c d).entry i i ≠ 0 := by
  intro zero
  obtain ⟨upper, rest, pairs⟩ := F.dampedTriangle_pairing c d
  have det : (Matrix.of (F.dampedTriangle c d).entry).det = 0 := by
    rw [Triangle.det_entry upper]
    exact Finset.prod_eq_zero (Finset.mem_univ i) zero
  obtain ⟨z, nonzero, kernel⟩ := exists_mulVec_eq_zero_iff.mpr det
  have whole := pairs z 0 z 0
  have defects (k : Fin n) : (F.dampedTriangle c d).defect k z 0 = 0 := by
    rw [Triangle.defect, zero_mul, sub_zero]
    exact congrFun kernel k
  have vanishes : (F.dampedTriangle c d).pairing z 0 z 0 = 0 :=
    Finset.sum_eq_zero fun k _ => by rw [defects, zero_mul]
  have squares : ∑ j, d (F.perm.get j) * d (F.perm.get j) * (z j * z j) =
      (fun j => d (F.perm.get j) * z j) ⬝ᵥ (fun j => d (F.perm.get j) * z j) :=
    Finset.sum_congr rfl fun j _ => mul_mul_mul_comm _ _ _ _
  rw [vanishes, zero_mul, zero_mul, add_zero, F.triangle_pairing, zero_smul, sub_zero,
    squares] at whole
  have rows := dot_self_nonneg (F.topRows *ᵥ z)
  have damping := dot_self_nonneg fun j => d (F.perm.get j) * z j
  have noRows : F.topRows *ᵥ z ⬝ᵥ F.topRows *ᵥ z = 0 := by linarith
  have noDamping : (fun j => d (F.perm.get j) * z j) ⬝ᵥ (fun j => d (F.perm.get j) * z j) = 0 := by
    linarith
  exact nonzero (independent z (dotProduct_self_eq_zero.mp noRows)
    (congrFun (dotProduct_self_eq_zero.mp noDamping)))

section Damped

variable (factors : F.Factors A) (c d : Vector ℝ n)

include factors

theorem Factors.damping_sum (x : Fin n → ℝ) :
    ∑ j, d (F.perm.get j) * d (F.perm.get j) * (x (F.perm.get j) * x (F.perm.get j)) =
      (diagonal d.get *ᵥ x) ⬝ᵥ (diagonal d.get *ᵥ x) := by
  rw [factors.bijective.sum_comp fun p => d p * d p * (x p * x p)]
  refine Finset.sum_congr rfl fun p _ => ?_
  rw [mulVec_diagonal]
  exact mul_mul_mul_comm _ _ _ _

theorem Factors.damped_residual : ∃ rest : ℝ, ∀ x : Fin n → ℝ,
    (F.damped d *ᵥ x - Sum.elim (c ∘ F.topCol) 0) ⬝ᵥ
        (F.damped d *ᵥ x - Sum.elim (c ∘ F.topCol) 0) =
      (F.dampedTriangle c d).pairing (x ∘ F.perm.get) 1 (x ∘ F.perm.get) 1 + rest := by
  obtain ⟨_, rest, pairs⟩ := F.dampedTriangle_pairing c d
  refine ⟨rest, fun x => ?_⟩
  have whole := pairs (x ∘ F.perm.get) 1 (x ∘ F.perm.get) 1
  have damping := factors.damping_sum d x
  rw [one_mul, one_mul, F.triangle_pairing, one_smul] at whole
  rw [whole, damped_mulVec, ← Sum.elim_sub_sub, sumElim_dotProduct_sumElim, sub_zero, ← damping]
  rfl

theorem Factors.dampedSolve_isOnlyMinimizer
    (nonzero : ∀ j, (F.dampedTriangle c d).entry j j ≠ 0) :
    IsOnlyMinimizer (F.damped d) (Sum.elim (c ∘ F.topCol) 0) (F.dampedSolve c d).get := by
  obtain ⟨rest, residual⟩ := factors.damped_residual c d
  have upper := (F.dampedTriangle_pairing c d).1
  have solved : (F.dampedSolve c d).get ∘ F.perm.get = (F.dampedTriangle c d).solve.get :=
    funext fun j => Permutation.restore_get factors.bijective _ j
  intro y other
  rw [euclid_lt_iff, residual, residual, solved]
  refine add_lt_add_left (Triangle.pairing_solve_lt upper nonzero fun same => other ?_) rest
  funext p
  obtain ⟨j, rfl⟩ := factors.bijective.surjective p
  exact (congrFun same j).trans (congrFun solved j).symm

theorem Factors.conjugate_diagonal :
    F.perm.toMatrixᵀ * diagonal d.get * F.perm.toMatrix = diagonal (d.get ∘ F.perm.get) := by
  ext i j
  have product : (F.perm.toMatrixᵀ * diagonal d.get * F.perm.toMatrix) i j =
      ∑ p, (if F.perm.get i = p then 1 else 0) * d p * (if F.perm.get j = p then 1 else 0) := by
    rw [mul_apply]
    refine Finset.sum_congr rfl fun p _ => ?_
    rw [mul_diagonal]
    rfl
  rw [product, diagonal_apply]
  simp only [ite_mul, one_mul, zero_mul, Finset.sum_ite_eq, Finset.mem_univ, if_true, mul_ite,
    mul_one, mul_zero, factors.bijective.injective.eq_iff]
  by_cases same : i = j
  · rw [if_pos same, if_pos same, same]
    rfl
  · rw [if_neg same, if_neg same]

/-- `S' S = R' R + (P' D P)²`. -/
theorem Factors.dampedTriangle_gram :
    (Matrix.of (F.dampedTriangle c d).entry)ᵀ * Matrix.of (F.dampedTriangle c d).entry =
      F.topRowsᵀ * F.topRows + (F.perm.toMatrixᵀ * diagonal d.get * F.perm.toMatrix) ^ 2 := by
  obtain ⟨_, rest, pairs⟩ := F.dampedTriangle_pairing c d
  ext i j
  have whole := pairs (Pi.single i 1) 0 (Pi.single j 1) 0
  rw [zero_mul, zero_mul, add_zero, F.triangle_pairing, zero_smul, sub_zero, sub_zero,
    mulVec_single_one, mulVec_single_one] at whole
  have left : (F.dampedTriangle c d).pairing (Pi.single i 1) 0 (Pi.single j 1) 0 =
      ((Matrix.of (F.dampedTriangle c d).entry)ᵀ * Matrix.of (F.dampedTriangle c d).entry) i j := by
    refine Finset.sum_congr rfl fun k _ => ?_
    rw [Triangle.defect_single, Triangle.defect_single]
    rfl
  rw [← left, whole, factors.conjugate_diagonal, diagonal_pow, Matrix.add_apply]
  refine congrArg (_ + ·) ?_
  by_cases same : i = j
  · simp [Pi.single_apply, same, pow_two]
  · simp [Pi.single_apply, same, Ne.symm same]

end Damped

end Factorization

end LeastSquares

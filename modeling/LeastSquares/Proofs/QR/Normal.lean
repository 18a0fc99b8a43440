import LeastSquares.Proofs.QR.Rank
import LeastSquares.Proofs.QR.Triangular

/-!
# Least squares in the factored coordinates

Multiplying by `Q'` and reordering the columns turns the problem `A x = b` into one whose matrix is
`Q' A P`. If nothing is discarded, that matrix has only the rows of `R`: a vector that solves these
rows is a minimizer, and a combination of these rows is a combination of the rows of `A`.
-/

set_option autoImplicit false

namespace LeastSquares.Factorization

open Matrix

variable {m n : Nat} {F : Factorization ℝ m n} {A : DenseMatrix ℝ m n}

theorem upper_r (F : Factorization ℝ m n) : Upper F.r := fun _ _ below => F.r_of_gt below

theorem Factors.r_diag_ne_zero (factors : F.Factors A) (j : Fin n) (inside : j.val < F.rank) :
    F.r j j ≠ 0 := by
  rw [r_diag _ inside]
  exact factors.diag_ne_zero j inside

/-! ## Changing coordinates -/

theorem Factors.permuted_mulVec (factors : F.Factors A) (x : Fin n → ℝ) :
    A.toMatrix.submatrix id F.perm.get *ᵥ (x ∘ F.perm.get) = A.toMatrix *ᵥ x := by
  funext i
  exact factors.bijective.sum_comp fun p => A.toMatrix i p * x p

theorem Factors.turned_mulVec (factors : F.Factors A) (x : Fin n → ℝ) :
    F.turned A *ᵥ (x ∘ F.perm.get) = F.orthogonalᵀ *ᵥ (A.toMatrix *ᵥ x) := by
  rw [turned, ← mulVec_mulVec, factors.permuted_mulVec]

theorem Factors.orthogonal_mulVec_turned (factors : F.Factors A) (z : Fin n → ℝ) :
    ∃ y : Fin n → ℝ, y ∘ F.perm.get = z ∧
      F.orthogonal *ᵥ (F.turned A *ᵥ z) = A.toMatrix *ᵥ y := by
  let order := Equiv.ofBijective _ factors.bijective
  have straight : (z ∘ order.symm) ∘ F.perm.get = z := by
    funext k
    exact congrArg z (order.symm_apply_apply k)
  refine ⟨z ∘ order.symm, straight, ?_⟩
  conv_lhs => rw [← straight]
  rw [factors.turned_mulVec, mulVec_mulVec, factors.orthogonal_mul_transpose, one_mulVec]

theorem Factors.turned_transpose_mulVec (factors : F.Factors A) (v : Fin m → ℝ) :
    (F.turned A)ᵀ *ᵥ (F.orthogonalᵀ *ᵥ v) = (A.toMatrixᵀ *ᵥ v) ∘ F.perm.get := by
  rw [turned, transpose_mul, transpose_transpose, mulVec_mulVec, Matrix.mul_assoc,
    factors.orthogonal_mul_transpose, Matrix.mul_one]
  rfl

theorem Factors.normal_of_turned (factors : F.Factors A) {b : Fin m → ℝ} {x : Fin n → ℝ}
    (normal : Normal (F.turned A) (F.orthogonalᵀ *ᵥ b) (x ∘ F.perm.get)) :
    Normal A.toMatrix b x := by
  rw [Normal, factors.turned_mulVec, ← mulVec_sub, factors.turned_transpose_mulVec] at normal
  funext p
  obtain ⟨k, rfl⟩ := factors.bijective.surjective p
  exact congrFun normal k

theorem Factors.rows_of_turned (factors : F.Factors A) {x : Fin n → ℝ} {w : Fin m → ℝ}
    (rows : x ∘ F.perm.get = (F.turned A)ᵀ *ᵥ w) : x = A.toMatrixᵀ *ᵥ (F.orthogonal *ᵥ w) := by
  have back : F.orthogonalᵀ *ᵥ (F.orthogonal *ᵥ w) = w := by
    rw [mulVec_mulVec, factors.transpose_mul_orthogonal, one_mulVec]
  rw [← back, factors.turned_transpose_mulVec] at rows
  funext p
  obtain ⟨k, rfl⟩ := factors.bijective.surjective p
  exact congrFun rows k

theorem Factors.turned_mulVec_top (factors : F.Factors A) (u : Fin n → ℝ) (i : Fin F.rank) :
    (F.turned A *ᵥ u) (F.topRow i) = ∑ j, F.r (F.topCol i) j * u j := by
  change ∑ j, F.turned A (F.topRow i) j * u j = _
  exact Finset.sum_congr rfl fun j _ => congrArg (· * u j) (factors.top i j)

/-! ## Nothing discarded -/

theorem Factors.turned_of_rank_le (factors : F.Factors A) (nothing : F.discarded = 0) {i : Fin m}
    (low : F.rank ≤ i.val) (j : Fin n) : F.turned A i j = 0 := by
  by_cases left : j.val < F.rank
  · exact factors.below i j low left
  · rw [factors.rest ⟨i, low⟩ ⟨j, not_lt.mp left⟩, nothing]
    rfl

theorem Factors.turned_mulVec_of_rank_le (factors : F.Factors A) (nothing : F.discarded = 0)
    (u : Fin n → ℝ) {i : Fin m} (low : F.rank ≤ i.val) : (F.turned A *ᵥ u) i = 0 := by
  change ∑ j, F.turned A i j * u j = 0
  refine Finset.sum_eq_zero fun j _ => ?_
  have zero : F.turned A i j = 0 := factors.turned_of_rank_le nothing low j
  rw [zero, zero_mul]

theorem Factors.sum_turned (factors : F.Factors A) (nothing : F.discarded = 0) (j : Fin n)
    (v : Fin m → ℝ) :
    ∑ i, F.turned A i j * v i = ∑ i : Fin F.rank, F.r (F.topCol i) j * v (F.topRow i) := by
  rw [F.sum_of_rank_le F.rank_le_rows _ fun i low => by
    rw [factors.turned_of_rank_le nothing low, zero_mul]]
  exact Finset.sum_congr rfl fun i _ => congrArg (· * v (F.topRow i)) (factors.top i j)

/-- A vector that solves the rows of `R` solves the normal equations. -/
theorem Factors.normal_of_rows (factors : F.Factors A) (nothing : F.discarded = 0)
    {b : Fin m → ℝ} {x : Fin n → ℝ}
    (rows : ∀ i : Fin F.rank, ∑ j, F.r (F.topCol i) j * x (F.perm.get j) =
      (F.orthogonalᵀ *ᵥ b) (F.topRow i)) : Normal A.toMatrix b x := by
  refine factors.normal_of_turned (funext fun j => ?_)
  change ∑ i, F.turned A i j * (F.turned A *ᵥ (x ∘ F.perm.get) - F.orthogonalᵀ *ᵥ b) i = 0
  rw [factors.sum_turned nothing]
  refine Finset.sum_eq_zero fun i _ => ?_
  have residual : (F.turned A *ᵥ (x ∘ F.perm.get)) (F.topRow i) =
      (F.orthogonalᵀ *ᵥ b) (F.topRow i) := (factors.turned_mulVec_top _ i).trans (rows i)
  rw [Pi.sub_apply, residual, sub_self, mul_zero]

theorem Factors.exists_turned_mulVec (factors : F.Factors A) (nothing : F.discarded = 0)
    (v : Vector ℝ m) (zeros : ∀ i : Fin m, F.rank ≤ i.val → v i = 0) :
    ∃ u : Fin n → ℝ, F.turned A *ᵥ u = v.get := by
  let head : Vector ℝ n :=
    Vector.ofFn fun j => if h : j.val < F.rank then v (F.topRow ⟨j, h⟩) else 0
  have solved := (backSubstitute_spec head F.upper_r factors.r_diag_ne_zero).2
  refine ⟨(backSubstitute F.rank F.r head).get, funext fun i => ?_⟩
  by_cases inside : i.val < F.rank
  · have row := solved (F.topCol ⟨i, inside⟩) inside
    rw [Vector.get_ofFn, dif_pos (show (F.topCol ⟨i, inside⟩).val < F.rank from inside)] at row
    exact (factors.turned_mulVec_top _ ⟨i, inside⟩).trans row
  · have outside := not_lt.mp inside
    exact (factors.turned_mulVec_of_rank_le nothing _ outside).trans (zeros i outside).symm

/-- A solution of the rows of `R` that is a combination of them is the shortest minimizer. -/
theorem Factors.isShortestMinimizer (factors : F.Factors A) (nothing : F.discarded = 0)
    {b : Fin m → ℝ} {x : Fin n → ℝ} {w : Fin n → ℝ}
    (rows : ∀ i : Fin F.rank, ∑ j, F.r (F.topCol i) j * x (F.perm.get j) =
      (F.orthogonalᵀ *ᵥ b) (F.topRow i))
    (combination : ∀ j, x (F.perm.get j) = ∑ i, F.r i j * w i) :
    IsShortestMinimizer A.toMatrix b x := by
  -- The combination takes `n` coefficients and `Q' A P` has `m` rows; only the first `rank` count.
  let extended : Fin m → ℝ := fun i => if inside : i.val < n then w ⟨i.val, inside⟩ else 0
  have agrees (i : Fin F.rank) : extended (F.topRow i) = w (F.topCol i) :=
    dif_pos (show (F.topRow i).val < n from (F.topCol i).isLt)
  have ofRows : x ∘ F.perm.get = (F.turned A)ᵀ *ᵥ extended := by
    funext j
    calc x (F.perm.get j) = ∑ i, F.r i j * w i := combination j
      _ = ∑ i : Fin F.rank, F.r (F.topCol i) j * w (F.topCol i) :=
          F.sum_of_rank_le F.rank_le_cols _ fun i outside => by
            rw [r_of_rank_le F outside, zero_mul]
      _ = ∑ i : Fin F.rank, F.r (F.topCol i) j * extended (F.topRow i) :=
          Finset.sum_congr rfl fun i _ => congrArg (F.r (F.topCol i) j * ·) (agrees i).symm
      _ = ((F.turned A)ᵀ *ᵥ extended) j := (factors.sum_turned nothing j extended).symm
  exact (factors.normal_of_rows nothing rows).isShortestMinimizer (factors.rows_of_turned ofRows)

/-! ## Columns that stay -/

theorem Factors.col_ne_zero (factors : F.Factors A) (j : Fin n) (inside : j.val < F.rank) :
    A.toMatrix.col (F.perm.get j) ≠ 0 := by
  intro zero
  have diagonal := factors.top ⟨j, inside⟩ j
  rw [turned_apply, zero, mulVec_zero] at diagonal
  exact factors.r_diag_ne_zero j inside diagonal.symm

theorem Factors.eq_zero_of_rows (factors : F.Factors A) (full : F.rank = n) {z : Fin n → ℝ}
    (rows : ∀ i : Fin F.rank, ∑ j, F.r (F.topCol i) j * z j = 0) : z = 0 := by
  have square : F.leadingBlock *ᵥ (z ∘ F.topCol) = 0 := by
    funext i
    rw [Pi.zero_apply, ← rows i]
    exact (finCongr full).sum_comp fun j => F.r (F.topCol i) j * z j
  have zero := eq_zero_of_mulVec_eq_zero factors.leadingBlock_det square
  funext j
  exact congrFun zero ((finCongr full).symm j)

theorem Factors.independent (factors : F.Factors A) (full : F.rank = n) (z : Fin n → ℝ)
    (zero : A.toMatrix *ᵥ z = 0) : z = 0 := by
  have permuted : z ∘ F.perm.get = 0 := by
    refine factors.eq_zero_of_rows full fun i => ?_
    have row := congrFun (factors.turned_mulVec z) (F.topRow i)
    rw [zero, mulVec_zero, factors.turned_mulVec_top] at row
    exact row
  funext p
  obtain ⟨k, rfl⟩ := factors.bijective.surjective p
  exact congrFun permuted k

end LeastSquares.Factorization

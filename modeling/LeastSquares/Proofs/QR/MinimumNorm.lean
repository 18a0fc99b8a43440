import LeastSquares.Proofs.QR.Normal
import LeastSquares.QR.MinimumNorm

/-!
# The two solves of a triangular system

At full rank, back substitution solves the rows of `R` and nothing else does. Below full rank, the
inner factorization of `R'` picks its pivots among the rows of `R`, all of them unless it discards
something, and its forward substitution makes a solution that is a combination of these rows.
-/

set_option autoImplicit false

namespace LeastSquares.Factorization

open Matrix

variable {m n : Nat} {F : Factorization ℝ m n} {A : DenseMatrix ℝ m n}

/-! ## Full rank -/

theorem Factors.fullRank_iff (factors : F.Factors A) :
    F.fullRank = true ↔ 0 < n ∧ F.rank = n := by
  rw [fullRank]
  by_cases positive : 0 < n
  · rw [dif_pos positive, bne_iff_ne]
    constructor
    · intro nonzero
      by_contra short
      have outside : F.rank ≤ n - 1 := by
        have inside := F.rank_le_cols
        omega
      exact nonzero (factors.diag_eq_zero _ outside)
    · rintro ⟨_, full⟩
      exact factors.diag_ne_zero _ (by omega)
  · rw [dif_neg positive]
    simp [positive]

/-- Back substitution solves the rows of `R`, also below full rank. -/
theorem Factors.rSolve_rows (factors : F.Factors A) (c : Vector ℝ n) (i : Fin F.rank) :
    ∑ j, F.r (F.topCol i) j * F.rSolve c (F.perm.get j) = c (F.topCol i) := by
  rw [← (backSubstitute_spec c F.upper_r factors.r_diag_ne_zero).2 (F.topCol i) i.isLt]
  exact Finset.sum_congr rfl fun j _ =>
    congrArg (F.r (F.topCol i) j * ·) (Permutation.restore_get factors.bijective _ j)

theorem Factors.rSolve_isOnlyMinimizer (factors : F.Factors A) (nothing : F.discarded = 0)
    (full : F.rank = n) {b : Fin m → ℝ} {c : Vector ℝ n}
    (rhs : ∀ i : Fin F.rank, c (F.topCol i) = (F.orthogonalᵀ *ᵥ b) (F.topRow i)) :
    IsOnlyMinimizer A.toMatrix b (F.rSolve c).get := by
  refine Normal.isOnlyMinimizer ?_ (factors.independent full)
  exact factors.normal_of_rows nothing fun i => (factors.rSolve_rows c i).trans (rhs i)

/-! ## The inner factorization -/

theorem inner_factors (F : Factorization ℝ m n) : F.inner.Factors F.lower :=
  ofMatrix_factors F.lower

theorem lower_toMatrix (F : Factorization ℝ m n) (j i : Fin n) : F.lower.toMatrix j i = F.r i j :=
  DenseMatrix.get_ofFn _ j i

theorem inner_pivot_lt (F : Factorization ℝ m n) (k : Fin n) (inside : k.val < F.inner.rank) :
    (F.inner.perm.get k).val < F.rank := by
  by_contra padding
  refine F.inner_factors.col_ne_zero k inside (funext fun j => ?_)
  rw [col_apply, lower_toMatrix, r_of_rank_le F (not_lt.mp padding), Pi.zero_apply]

noncomputable def innerPivot (F : Factorization ℝ m n) (k : Fin F.inner.rank) : Fin F.rank :=
  ⟨(F.inner.perm.get (F.inner.topCol k)).val, F.inner_pivot_lt _ k.isLt⟩

theorem innerPivot_injective (F : Factorization ℝ m n) : Function.Injective F.innerPivot := by
  intro k l same
  have value : F.inner.perm.get (F.inner.topCol k) = F.inner.perm.get (F.inner.topCol l) :=
    Fin.ext (congrArg (fun i : Fin F.rank => i.val) same)
  exact Fin.castLE_injective _ (F.inner_factors.bijective.injective value)

/-- The inner factorization never finds more independent rows than `R` has. -/
theorem inner_rank_le (F : Factorization ℝ m n) : F.inner.rank ≤ F.rank := by
  have cards := Fintype.card_le_of_injective _ F.innerPivot_injective
  simpa only [Fintype.card_fin] using cards

theorem rank_le_lower_rank (factors : F.Factors A) : F.rank ≤ F.lower.toMatrix.rank := by
  have corner : F.lower.toMatrix.submatrix F.topCol F.topCol = F.leadingBlockᵀ := by
    ext j i
    exact F.lower_toMatrix _ _
  calc F.rank = F.leadingBlock.rank := by
        rw [rank_of_det_ne_zero factors.leadingBlock_det, Fintype.card_fin]
    _ = (F.lower.toMatrix.submatrix F.topCol F.topCol).rank := by rw [corner, rank_transpose]
    _ ≤ F.lower.toMatrix.rank := rank_submatrix_le _ _ _

theorem lower_rank_le (F : Factorization ℝ m n) : F.lower.toMatrix.rank ≤ F.rank := by
  let head : Matrix (Fin n) (Fin F.rank) ℝ := .of fun j i => F.r (F.topCol i) j
  let choose : Matrix (Fin F.rank) (Fin n) ℝ := .of fun i k => if F.topCol i = k then 1 else 0
  have product : F.lower.toMatrix = head * choose := by
    ext j k
    rw [lower_toMatrix]
    refine Eq.trans ?_ (F.sum_of_rank_le F.rank_le_cols (fun i => F.r i j * if i = k then 1 else 0)
      fun i outside => by rw [r_of_rank_le F outside, zero_mul])
    simp
  rw [product]
  exact (rank_mul_le_left _ _).trans (rank_le_width _)

/-- The inner factorization discards nothing exactly when it finds all the rows of `R`, which are
independent. -/
theorem Factors.inner_discarded_iff (factors : F.Factors A) :
    F.inner.discarded = 0 ↔ F.inner.rank = F.rank := by
  have lower : F.lower.toMatrix.rank = F.rank :=
    le_antisymm F.lower_rank_le (rank_le_lower_rank factors)
  rw [← F.inner_factors.rank_eq_iff, lower]

theorem Factors.inner_discarded_of_rank_le_one (factors : F.Factors A)
    (small : (Reduction.tolerance n n : ℝ) < 1) (le : F.rank ≤ 1) : F.inner.discarded = 0 := by
  refine factors.inner_discarded_iff.mpr (le_antisymm F.inner_rank_le ?_)
  by_cases zero : F.rank = 0
  · rw [zero]
    exact Nat.zero_le _
  · let first : Fin F.rank := ⟨0, by omega⟩
    have nonzero : F.lower.toMatrix.col (F.topCol first) ≠ 0 := by
      intro vanishes
      have entry := congrFun vanishes (F.topCol first)
      rw [col_apply, lower_toMatrix] at entry
      exact factors.r_diag_ne_zero _ first.isLt entry
    have found := F.inner_factors.rank_pos small nonzero
    omega

theorem Factors.innerPivot_surjective (factors : F.Factors A) (nothing : F.inner.discarded = 0) :
    Function.Surjective F.innerPivot := by
  refine (Fintype.bijective_iff_injective_and_card _).mpr ⟨F.innerPivot_injective, ?_⟩ |>.surjective
  rw [Fintype.card_fin, Fintype.card_fin, factors.inner_discarded_iff.mp nothing]

/-! ## The minimum-norm solution -/

section Shortest

variable (F)

noncomputable def innerSolve (c : Vector ℝ n) : Vector ℝ n := F.inner.rtSolve (F.innerRhs F.inner c)

theorem innerSolve_of_rank_le (c : Vector ℝ n) (k : Fin n) (outside : F.inner.rank ≤ k.val) :
    F.innerSolve c k = 0 :=
  (forwardSubstitute_spec _ F.inner.upper_r F.inner_factors.r_diag_ne_zero).1 k outside

theorem innerSolve_rows (c : Vector ℝ n) (k : Fin F.inner.rank) :
    ∑ i, F.inner.r i (F.inner.topCol k) * F.innerSolve c i = c (F.topCol (F.innerPivot k)) := by
  have row := (forwardSubstitute_spec (F.innerRhs F.inner c) F.inner.upper_r
    F.inner_factors.r_diag_ne_zero).2 (F.inner.topCol k) k.isLt
  rw [innerRhs, Vector.get_ofFn, if_pos (F.inner_pivot_lt _ k.isLt)] at row
  exact row

theorem sum_r_mul_innerSolve (c : Vector ℝ n) (k : Fin F.inner.rank) :
    ∑ j, F.r (F.topCol (F.innerPivot k)) j * F.inner.qMul (F.innerSolve c) j =
      c (F.topCol (F.innerPivot k)) := by
  have back : F.inner.orthogonalᵀ *ᵥ (F.inner.qMul (F.innerSolve c)).get =
      (F.innerSolve c).get := by
    rw [qMul_real, mulVec_mulVec, F.inner_factors.transpose_mul_orthogonal, one_mulVec]
  have turned := congrFun
    (F.inner_factors.turned_transpose_mulVec (F.inner.qMul (F.innerSolve c)).get) (F.inner.topCol k)
  rw [back] at turned
  have left : ((F.inner.turned F.lower)ᵀ *ᵥ (F.innerSolve c).get) (F.inner.topCol k) =
      ∑ i, F.inner.r i (F.inner.topCol k) * F.innerSolve c i := by
    change ∑ i, F.inner.turned F.lower i (F.inner.topCol k) * F.innerSolve c i = _
    rw [F.inner.sum_of_rank_le F.inner.rank_le_cols, F.inner.sum_of_rank_le F.inner.rank_le_cols]
    · exact Finset.sum_congr rfl fun i _ =>
        congrArg (· * F.innerSolve c (F.inner.topCol i)) (F.inner_factors.top i _)
    · intro i outside
      rw [F.innerSolve_of_rank_le c i outside, mul_zero]
    · intro i outside
      rw [F.innerSolve_of_rank_le c i outside, mul_zero]
  rw [← F.innerSolve_rows c k, ← left, turned]
  exact Finset.sum_congr rfl fun j _ =>
    congrArg (· * F.inner.qMul (F.innerSolve c) j) (F.lower_toMatrix j _).symm

theorem exists_rows_innerSolve (nothing : F.inner.discarded = 0) (c : Vector ℝ n) :
    ∃ w : Fin n → ℝ, ∀ j, F.inner.qMul (F.innerSolve c) j = ∑ i, F.r i j * w i := by
  obtain ⟨u, image⟩ := F.inner_factors.exists_turned_mulVec nothing (F.innerSolve c)
    (F.innerSolve_of_rank_le c)
  obtain ⟨w, _, product⟩ := F.inner_factors.orthogonal_mulVec_turned u
  refine ⟨w, fun j => ?_⟩
  rw [qMul_real, ← image, product]
  change ∑ i, F.lower.toMatrix j i * w i = _
  exact Finset.sum_congr rfl fun i _ => congrArg (· * w i) (F.lower_toMatrix j i)

theorem minimumNormVia_inner (c : Vector ℝ n) : F.minimumNormVia F.inner c =
    .ok (F.perm.restore (F.inner.qMul (F.innerSolve c))) :=
  if_neg (not_lt.mpr F.inner_rank_le)

theorem minimumNorm_ok (c : Vector ℝ n) : ∃ x, F.minimumNorm c = .ok x := by
  rw [minimumNorm]
  split
  · exact ⟨_, rfl⟩
  · exact ⟨_, F.minimumNormVia_inner c⟩

end Shortest

/-- If the inner factorization discards nothing, the minimum-norm solve succeeds, and its result is
that solution of the rows of `R` which is a combination of them. -/
theorem Factors.minimumNorm_spec (factors : F.Factors A) (innerNothing : F.inner.discarded = 0)
    (c : Vector ℝ n) : ∃ x, F.minimumNorm c = .ok x ∧
      (∀ i : Fin F.rank, ∑ j, F.r (F.topCol i) j * x (F.perm.get j) = c (F.topCol i)) ∧
      ∃ w : Fin n → ℝ, ∀ j, x (F.perm.get j) = ∑ i, F.r i j * w i := by
  rw [minimumNorm]
  by_cases zero : F.rank = 0
  · rw [if_pos zero]
    refine ⟨_, rfl, fun i => ?_, 0, fun j => ?_⟩
    · exact absurd i.isLt (by omega)
    · simp
  · rw [if_neg zero]
    have restored (j : Fin n) : F.perm.restore (F.inner.qMul (F.innerSolve c)) (F.perm.get j) =
        F.inner.qMul (F.innerSolve c) j := Permutation.restore_get factors.bijective _ j
    obtain ⟨w, combination⟩ := F.exists_rows_innerSolve innerNothing c
    refine ⟨_, F.minimumNormVia_inner c, fun i => ?_, w, fun j =>
      (restored j).trans (combination j)⟩
    obtain ⟨k, rfl⟩ := factors.innerPivot_surjective innerNothing i
    rw [← F.sum_r_mul_innerSolve c k]
    exact Finset.sum_congr rfl fun j _ => congrArg (F.r _ j * ·) (restored j)

end LeastSquares.Factorization

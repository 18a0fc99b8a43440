import Mathlib.LinearAlgebra.Matrix.Block
import Mathlib.LinearAlgebra.Matrix.Rank
import LeastSquares.Proofs.QR.Factorization

/-!
# The rank that a factorization finds

The rows of `R` are independent, so the rank of a matrix is the number of steps that were made plus
the rank of the block that they left over. A factorization finds the true rank exactly when that
block is zero.
-/

set_option autoImplicit false

namespace LeastSquares

open Matrix Module

section Blocks

variable {α β γ : Type}

def behindZeros (α γ : Type) : (γ → ℝ) →ₗ[ℝ] (α ⊕ γ → ℝ) where
  toFun y := Sum.elim 0 y
  map_add' x y := by
    funext i
    cases i <;> simp
  map_smul' c y := by
    funext i
    cases i <;> simp

theorem behindZeros_injective : Function.Injective (behindZeros α γ) := by
  intro x y same
  funext i
  exact congrFun same (Sum.inr i)

variable [Fintype α] [Fintype γ] [DecidableEq α]

theorem ker_identity_block (E : Matrix β γ ℝ) :
    LinearMap.ker (fromBlocks (1 : Matrix α α ℝ) 0 0 E).mulVecLin =
      (LinearMap.ker E.mulVecLin).map (behindZeros α γ) := by
  ext x
  have parts : x = Sum.elim (x ∘ Sum.inl) (x ∘ Sum.inr) := (Sum.elim_comp_inl_inr x).symm
  simp only [LinearMap.mem_ker, mulVecLin_apply, Submodule.mem_map]
  constructor
  · intro zero
    rw [parts, fromBlocks_mulVec] at zero
    refine ⟨x ∘ Sum.inr, ?_, ?_⟩
    · funext i
      simpa using congrFun zero (Sum.inr i)
    · have head : x ∘ Sum.inl = 0 := by
        funext i
        simpa using congrFun zero (Sum.inl i)
      rw [parts, head]
      rfl
  · rintro ⟨y, zero, rfl⟩
    rw [show behindZeros α γ y = Sum.elim (0 : α → ℝ) y from rfl, fromBlocks_mulVec]
    funext i
    cases i with
    | inl i => simp
    | inr i => simpa using congrFun zero i

theorem rank_identity_block (E : Matrix β γ ℝ) :
    (fromBlocks (1 : Matrix α α ℝ) 0 0 E).rank = Fintype.card α + E.rank := by
  have whole := (fromBlocks (1 : Matrix α α ℝ) 0 0 E).mulVecLin.finrank_range_add_finrank_ker
  have part := E.mulVecLin.finrank_range_add_finrank_ker
  have kernels : finrank ℝ (LinearMap.ker (fromBlocks (1 : Matrix α α ℝ) 0 0 E).mulVecLin) =
      finrank ℝ (LinearMap.ker E.mulVecLin) := by
    rw [ker_identity_block]
    exact (Submodule.equivMapOfInjective _ behindZeros_injective _).symm.finrank_eq
  simp only [finrank_fintype_fun_eq_card, Fintype.card_sum] at whole part
  simp only [rank]
  omega

/-- An invertible corner with zeros below it adds its size to the rank of the rest. -/
theorem rank_corner [DecidableEq γ] (R : Matrix α α ℝ) (unit : R.det ≠ 0) (B : Matrix α γ ℝ)
    (E : Matrix β γ ℝ) : (fromBlocks R B 0 E).rank = Fintype.card α + E.rank := by
  have product : fromBlocks R B 0 E =
      fromBlocks (1 : Matrix α α ℝ) 0 0 E * fromBlocks R B 0 (1 : Matrix γ γ ℝ) := by
    simp [fromBlocks_multiply]
  have invertible : (fromBlocks R B 0 (1 : Matrix γ γ ℝ)).det ≠ 0 := by
    rwa [det_fromBlocks_zero₂₁, det_one, mul_one]
  rw [product, rank_mul_eq_left_of_det_ne_zero _ _ invertible, rank_identity_block]

end Blocks

theorem rank_of_independent {ι : Type} {n : Nat} {A : Matrix ι (Fin n) ℝ}
    (independent : ∀ z, A *ᵥ z = 0 → z = 0) : A.rank = n := by
  have injective : Function.Injective A.mulVecLin :=
    (injective_iff_map_eq_zero A.mulVecLin).mpr independent
  rw [Matrix.rank, LinearMap.finrank_range_of_inj injective, finrank_fintype_fun_eq_card,
    Fintype.card_fin]

namespace Factorization

variable {m n : Nat} {F : Factorization ℝ m n} {A : DenseMatrix ℝ m n}

noncomputable def leadingBlock (F : Factorization ℝ m n) : Matrix (Fin F.rank) (Fin F.rank) ℝ :=
  .of fun i j => F.r (F.topCol i) (F.topCol j)

theorem Factors.leadingBlock_det (factors : F.Factors A) : F.leadingBlock.det ≠ 0 := by
  have triangular : F.leadingBlock.IsUpperTriangular := fun i j below => F.r_of_gt below
  rw [det_of_isUpperTriangular triangular]
  refine Finset.prod_ne_zero_iff.mpr fun i _ => ?_
  have diagonal : F.leadingBlock i i = F.diag (F.topCol i) := F.r_diag i.isLt
  rw [diagonal]
  exact factors.diag_ne_zero _ i.isLt

def split (F : Factorization ℝ m n) {l : Nat} (inside : F.rank ≤ l) :
    Fin F.rank ⊕ {i : Fin l // F.rank ≤ i.val} → Fin l :=
  Sum.elim (Fin.castLE inside) Subtype.val

theorem split_bijective (F : Factorization ℝ m n) {l : Nat} (inside : F.rank ≤ l) :
    Function.Bijective (F.split inside) := by
  constructor
  · rintro (i | i) (j | j) same
    · exact congrArg Sum.inl (Fin.castLE_injective inside same)
    · have value : i.val = j.val.val := congrArg Fin.val same
      exact absurd i.isLt (not_lt.mpr (value ▸ j.property))
    · have value : i.val.val = j.val := congrArg Fin.val same
      exact absurd j.isLt (not_lt.mpr (value ▸ i.property))
    · exact congrArg Sum.inr (Subtype.ext same)
  · intro i
    by_cases before : i.val < F.rank
    · exact ⟨Sum.inl ⟨i, before⟩, rfl⟩
    · exact ⟨Sum.inr ⟨i, not_lt.mp before⟩, rfl⟩

theorem rank_le_rows (F : Factorization ℝ m n) : F.rank ≤ m :=
  F.rank_le.trans (Nat.min_le_left m n)

theorem rank_le_cols (F : Factorization ℝ m n) : F.rank ≤ n :=
  F.rank_le.trans (Nat.min_le_right m n)

theorem sum_of_rank_le (F : Factorization ℝ m n) {l : Nat} (inside : F.rank ≤ l) (f : Fin l → ℝ)
    (zero : ∀ i : Fin l, F.rank ≤ i.val → f i = 0) :
    ∑ i, f i = ∑ i : Fin F.rank, f (i.castLE inside) := by
  rw [← (F.split_bijective inside).sum_comp f, Fintype.sum_sum_type]
  have rest : ∑ i : {i : Fin l // F.rank ≤ i.val}, f (F.split inside (Sum.inr i)) = 0 :=
    Finset.sum_eq_zero fun i _ => zero i.val i.property
  rw [rest, add_zero]
  rfl

theorem Factors.rank_eq (factors : F.Factors A) :
    A.toMatrix.rank = F.rank + F.discarded.rank := by
  let rowEquiv := Equiv.ofBijective _ (F.split_bijective F.rank_le_rows)
  let colEquiv := Equiv.ofBijective _ (F.split_bijective F.rank_le_cols)
  have blocks : (F.turned A).submatrix rowEquiv colEquiv =
      fromBlocks F.leadingBlock (.of fun i j => F.r (F.topCol i) j.val) 0 F.discarded := by
    ext i j
    rcases i with i | i <;> rcases j with j | j
    · exact factors.top i (F.topCol j)
    · exact factors.top i j.val
    · exact factors.below i.val _ i.property j.isLt
    · exact factors.rest i j
  have invertible : IsUnit F.orthogonalᵀ.det :=
    (isUnit_iff_isUnit_det _).mp (IsUnit.of_mul_eq_one _ factors.transpose_mul_orthogonal)
  calc A.toMatrix.rank
      = (A.toMatrix.submatrix (Equiv.refl (Fin m)) (Equiv.ofBijective _ factors.bijective)).rank :=
        (rank_submatrix _ _ _).symm
    _ = (F.turned A).rank := (rank_mul_eq_right_of_isUnit_det _ _ invertible).symm
    _ = ((F.turned A).submatrix rowEquiv colEquiv).rank := (rank_submatrix _ _ _).symm
    _ = F.rank + F.discarded.rank := by
        rw [blocks, rank_corner _ factors.leadingBlock_det, Fintype.card_fin]

theorem Factors.rank_eq_iff (factors : F.Factors A) :
    F.rank = A.toMatrix.rank ↔ F.discarded = 0 := by
  rw [factors.rank_eq]
  constructor
  · intro same
    have none : F.discarded.rank = 0 := by omega
    rw [Matrix.rank, Submodule.finrank_eq_zero, LinearMap.range_eq_bot] at none
    refine ext_of_mulVec_single fun j => ?_
    rw [zero_mulVec, ← mulVecLin_apply, none, LinearMap.zero_apply]
  · intro zero
    rw [zero, rank_zero, Nat.add_zero]

theorem discarded_of_rank_eq (F : Factorization ℝ m n) (greatest : F.rank = min m n) :
    F.discarded = 0 := by
  ext i j
  have row := i.val.isLt
  have col := j.val.isLt
  have rowLeft := i.property
  have colLeft := j.property
  omega

/-! ## Inner products of columns -/

theorem Factors.turned_gram (factors : F.Factors A) : (F.turned A)ᵀ * F.turned A =
    (A.toMatrixᵀ * A.toMatrix).submatrix F.perm.get F.perm.get := by
  rw [turned, transpose_mul, transpose_transpose, Matrix.mul_assoc,
    ← Matrix.mul_assoc F.orthogonal, factors.orthogonal_mul_transpose, Matrix.one_mul]
  rfl

theorem Factors.diag_mul_r (factors : F.Factors A) (first : Fin F.rank) (zero : first.val = 0)
    (j : Fin n) : F.diag (F.topCol first) * F.r (F.topCol first) j =
      (A.toMatrixᵀ * A.toMatrix) (F.perm.get (F.topCol first)) (F.perm.get j) := by
  have entry := congrFun (congrFun factors.turned_gram (F.topCol first)) j
  rw [submatrix_apply, mul_apply] at entry
  rw [← entry, Finset.sum_eq_single (F.topRow first)]
  · rw [transpose_apply, factors.top, factors.top, F.r_diag first.isLt]
  · intro i _ other
    refine mul_eq_zero_of_left ?_ _
    rw [transpose_apply]
    by_cases inside : i.val < F.rank
    · have below : F.topCol first < F.topCol ⟨i.val, inside⟩ := by
        have different : i.val ≠ first.val := fun same => other (Fin.ext same)
        have value : first.val < i.val := by omega
        exact value
      exact (factors.top ⟨i.val, inside⟩ _).trans (F.r_of_gt below)
    · exact factors.below i _ (not_lt.mp inside) first.isLt
  · intro missing
    exact absurd (Finset.mem_univ _) missing

theorem Factors.gram_det (factors : F.Factors A) (full : F.rank = n) :
    (A.toMatrixᵀ * A.toMatrix).det = (∏ j, F.diag j) ^ 2 := by
  let order := Equiv.ofBijective _ factors.bijective
  have square : (F.turned A)ᵀ * F.turned A = (Matrix.of F.r)ᵀ * Matrix.of F.r := by
    ext i j
    change ∑ k, F.turned A k i * F.turned A k j = ∑ k, F.r k i * F.r k j
    rw [F.sum_of_rank_le F.rank_le_rows _ fun k low => ?_,
      F.sum_of_rank_le F.rank_le_cols _ fun k low => ?_]
    · exact Finset.sum_congr rfl fun k _ => congrArg₂ (· * ·) (factors.top k i) (factors.top k j)
    · rw [F.r_of_rank_le low, zero_mul]
    · rw [factors.below k i low (i.isLt.trans_eq full.symm), zero_mul]
  have upper : (Matrix.of F.r).IsUpperTriangular := fun i j below => F.r_of_gt below
  have triangular : (Matrix.of F.r).det = ∏ j, F.diag j := by
    rw [det_of_isUpperTriangular upper]
    exact Finset.prod_congr rfl fun j _ => F.r_diag (j.isLt.trans_eq full.symm)
  rw [← det_submatrix_equiv_self order (A.toMatrixᵀ * A.toMatrix)]
  have gram : (A.toMatrixᵀ * A.toMatrix).submatrix order order = (Matrix.of F.r)ᵀ * Matrix.of F.r :=
    factors.turned_gram.symm.trans square
  rw [gram, det_mul, det_transpose, triangular, pow_two]

/-! ## The first step -/

theorem Factors.euclid_transpose_mulVec (factors : F.Factors A) (v : Fin m → ℝ) :
    euclid (F.orthogonalᵀ *ᵥ v) = euclid v := by
  rw [euclid, dotProduct_mulVec, vecMul_transpose, mulVec_mulVec,
    factors.orthogonal_mul_transpose, one_mulVec, euclid]

theorem Factors.euclid_discarded (factors : F.Factors A) (none : F.rank = 0) (k : Fin n) :
    euclid (F.discarded.col ⟨k, none ▸ Nat.zero_le _⟩) =
      euclid (A.toMatrix.col (F.perm.get k)) := by
  rw [← factors.euclid_transpose_mulVec]
  let all : {i : Fin m // F.rank ≤ i.val} ≃ Fin m :=
    Equiv.subtypeUnivEquiv fun i => none ▸ Nat.zero_le _
  have column : F.discarded.col ⟨k, none ▸ Nat.zero_le _⟩ =
      (F.orthogonalᵀ *ᵥ A.toMatrix.col (F.perm.get k)) ∘ all := by
    funext i
    rw [col_apply, ← factors.rest, turned_apply]
    rfl
  rw [column, euclid, euclid, comp_equiv_dotProduct_comp_equiv]

/-- A matrix with a column that is not zero has a first pivot, unless it is as large as the inverse
of the rounding unit. -/
theorem Factors.rank_pos (factors : F.Factors A) (small : (Reduction.tolerance m n : ℝ) < 1)
    {p : Fin n} (nonzero : A.toMatrix.col p ≠ 0) : 0 < F.rank := by
  by_contra stopped
  have none : F.rank = 0 := by omega
  have tall : 0 < m := by
    by_contra noRows
    exact nonzero (funext fun i => absurd i.isLt (by omega))
  have wide : 0 < n := lt_of_le_of_lt (Nat.zero_le _) p.isLt
  obtain ⟨q, negligible⟩ := factors.negligible (by omega)
  have left (l : Fin n) : euclid (A.toMatrix.col l) ≤
      Reduction.tolerance m n * euclid (A.toMatrix.col q) := by
    obtain ⟨k, rfl⟩ := factors.bijective.surjective l
    rw [← factors.euclid_discarded none k]
    exact negligible _
  have nonneg : 0 ≤ euclid (A.toMatrix.col q) := Real.sqrt_nonneg _
  have zero : euclid (A.toMatrix.col q) = 0 := by
    by_contra positive
    have shrinks := left q
    rw [le_mul_iff_one_le_left (lt_of_le_of_ne nonneg (Ne.symm positive))] at shrinks
    exact absurd small (not_lt.mpr shrinks)
  have vanishes : euclid (A.toMatrix.col p) ≤ 0 := by
    have bound := left p
    rwa [zero, mul_zero] at bound
  exact absurd (Real.sqrt_pos.mpr (dot_self_pos nonzero)) (not_lt.mpr vanishes)

theorem Factors.discarded_of_one_row {F : Factorization ℝ 1 n} {A : DenseMatrix ℝ 1 n}
    (factors : F.Factors A) (small : (Reduction.tolerance 1 n : ℝ) < 1) {p : Fin n}
    (nonzero : A.toMatrix.col p ≠ 0) : F.discarded = 0 := by
  refine F.discarded_of_rank_eq (le_antisymm F.rank_le ?_)
  have found := factors.rank_pos small nonzero
  omega

/-! ## The decomposition -/

/-- `Q' A P = [R; 0 E]`, where the rows of `R` are independent and an early stop leaves only columns
in `E` that are negligible beside the columns of `A`: the rank that was found falls short of the
true one by the rank of `E`. -/
theorem ofMatrix_decomposes (A : DenseMatrix ℝ m n) :
    let F := Factorization.ofMatrix A
    (F.orthogonalᵀ * F.orthogonal = 1 ∧ Function.Bijective F.perm.get) ∧
    (∀ b, (F.qtMul b).get = F.orthogonalᵀ *ᵥ b.get ∧ (F.qMul b).get = F.orthogonal *ᵥ b.get) ∧
    (∀ i j, F.turned A (F.topRow i) j = F.r (F.topCol i) j) ∧
    (∀ i j, F.rank ≤ i.val → j.val < F.rank → F.turned A i j = 0) ∧
    (∀ i j, F.turned A i.val j.val = F.discarded i j) ∧
    (∀ i j, j < i → F.r i j = 0) ∧
    (∀ i : Fin n, i.val < F.rank → F.r i i = F.diag i ∧ F.diag i ≠ 0) ∧
    (F.rank < min m n → ∀ largest, (∀ p, euclid (A.toMatrix.col p) ≤ largest) →
      ∀ j, euclid (F.discarded.col j) ≤ 2 * (max m n : ℕ) * Scalar.epsilon * largest) ∧
    A.toMatrix.rank = F.rank + F.discarded.rank ∧
    (F.rank = A.toMatrix.rank ↔ F.discarded = 0) := by
  intro F
  have factors : F.Factors A := ofMatrix_factors A
  refine ⟨⟨factors.transpose_mul_orthogonal, factors.bijective⟩,
    fun b => ⟨F.qtMul_real b, F.qMul_real b⟩, factors.top, factors.below, factors.rest,
    fun i j below => F.r_of_gt below,
    fun i inside => ⟨F.r_diag inside, factors.diag_ne_zero i inside⟩,
    fun early largest bound j => ?_, factors.rank_eq, factors.rank_eq_iff⟩
  obtain ⟨p, small⟩ := factors.negligible early
  calc euclid (F.discarded.col j)
      ≤ Reduction.tolerance m n * euclid (A.toMatrix.col p) := small j
    _ ≤ Reduction.tolerance m n * largest :=
        mul_le_mul_of_nonneg_left (bound p) Reduction.tolerance_nonneg
    _ = 2 * (max m n : ℕ) * Scalar.epsilon * largest := by rw [Reduction.tolerance_real]

end Factorization

end LeastSquares

import Mathlib.LinearAlgebra.Matrix.NonsingularInverse
import LeastSquares.Proofs.QR.Reduction
import LeastSquares.QR.Factorization

/-!
# The factorization in exact arithmetic

With `Q` the product of the stored reflectors and `P` the column permutation, `Q' A P` is made of
the rows of `R`, zeros below them, and the block that an early stop left behind. `Factors` collects
what a factorization says about the matrix it came from; the solves are proved from it alone.
-/

set_option autoImplicit false

namespace LeastSquares

open Matrix

variable {m n : Nat}

theorem DenseMatrix.col_get (A : DenseMatrix ℝ m n) (j : Fin n) :
    (A.col j).get = A.toMatrix.col j := by
  funext i
  exact Vector.get_ofFn _ _

namespace Factorization

def stored (F : Factorization ℝ m n) (s : Fin (min m n)) : Vector ℝ m := F.packed.col (stepCol s)

/-- The orthogonal factor `Q`, the product of the stored reflectors. -/
noncomputable def orthogonal (F : Factorization ℝ m n) : Matrix (Fin m) (Fin m) ℝ :=
  reflectorProduct F.stored F.rank

/-- `Q' A P`. -/
noncomputable def turned (F : Factorization ℝ m n) (A : DenseMatrix ℝ m n) :
    Matrix (Fin m) (Fin n) ℝ :=
  F.orthogonalᵀ * A.toMatrix.submatrix id F.perm.get

def topRow (F : Factorization ℝ m n) (i : Fin F.rank) : Fin m :=
  i.castLE (Nat.le_trans F.rank_le (Nat.min_le_left m n))

def topCol (F : Factorization ℝ m n) (i : Fin F.rank) : Fin n :=
  i.castLE (Nat.le_trans F.rank_le (Nat.min_le_right m n))

/-- The block that is left over from the rank on, as it stands in the packed matrix. -/
def discarded (F : Factorization ℝ m n) :
    Matrix {i : Fin m // F.rank ≤ i.val} {j : Fin n // F.rank ≤ j.val} ℝ :=
  .of fun i j => F.packed.get i j

theorem ofMatrix_bijective {α : Type} [Scalar α] (A : DenseMatrix α m n) :
    Function.Bijective (ofMatrix A).perm.get := by
  have source (j : Fin n) : (ofMatrix A).perm.get j = (A.reduce.cols j).source :=
    Vector.get_map _ _ j
  refine Finite.injective_iff_bijective.mp fun i j same => ?_
  rw [source, source] at same
  exact (Reduction.ofMatrix_sourced A).reduceFrom _ _ _ same

theorem blank_bijective {α : Type} [Scalar α] :
    Function.Bijective (blank : Factorization α m n).perm.get := by
  have identity (j : Fin n) : (blank : Factorization α m n).perm.get j = j := Vector.get_ofFn _ _
  exact Function.bijective_iff_has_inverse.mpr ⟨id, identity, identity⟩

/-- What a factorization `F` of `A` says about `A`. -/
structure Factors (F : Factorization ℝ m n) (A : DenseMatrix ℝ m n) : Prop where
  proper : ∀ s : Fin (min m n), s.val < F.rank → Reflector.Proper (F.stored s) (stepRow s)
  bijective : Function.Bijective F.perm.get
  top : ∀ i j, F.turned A (F.topRow i) j = F.r (F.topCol i) j
  below : ∀ i j, F.rank ≤ i.val → j.val < F.rank → F.turned A i j = 0
  rest : ∀ i j, F.turned A i.val j.val = F.discarded i j
  usable : ∀ j : Fin n, j.val < F.rank →
    Reduction.tolerance m n * euclid (A.toMatrix.col (F.perm.get j)) < |F.diag j|
  diag_eq_zero : ∀ j : Fin n, F.rank ≤ j.val → F.diag j = 0
  norms : ∀ p, F.norms p = euclid (A.toMatrix.col p)
  negligible : F.rank < min m n → ∃ p : Fin n, ∀ j,
    euclid (F.discarded.col j) ≤ Reduction.tolerance m n * euclid (A.toMatrix.col p)

theorem Factors.diag_ne_zero {F : Factorization ℝ m n} {A : DenseMatrix ℝ m n}
    (factors : F.Factors A) (j : Fin n) (inside : j.val < F.rank) : F.diag j ≠ 0 := by
  intro zero
  have large := factors.usable j inside
  rw [zero, abs_zero] at large
  exact absurd (mul_nonneg Reduction.tolerance_nonneg (Real.sqrt_nonneg _)) (not_le.mpr large)

/-! ## The triangular factor -/

section Triangular

variable {α : Type} [Scalar α] (F : Factorization α m n)

theorem r_of_lt {i j : Fin n} (inside : i.val < F.rank) (above : i < j) :
    F.r i j = F.packed.get ⟨i, Nat.lt_of_lt_of_le inside
      (Nat.le_trans F.rank_le (Nat.min_le_left m n))⟩ j := by
  rw [r, dif_pos ⟨inside, above.le⟩, if_neg above.ne]

theorem r_diag {i : Fin n} (inside : i.val < F.rank) : F.r i i = F.diag i := by
  rw [r, dif_pos ⟨inside, le_refl i⟩, if_pos rfl]

theorem r_of_gt {i j : Fin n} (below : j < i) : F.r i j = 0 := by
  rw [r, dif_neg]
  exact fun inside => absurd inside.2 below.not_ge

theorem r_of_rank_le {i : Fin n} (outside : F.rank ≤ i.val) (j : Fin n) : F.r i j = 0 := by
  rw [r, dif_neg]
  exact fun inside => absurd inside.1 (not_lt.mpr outside)

end Triangular

/-! ## The factorization of a matrix -/

section OfMatrix

variable (A : DenseMatrix ℝ m n)

theorem ofMatrix_packed {α : Type} [Scalar α] (A : DenseMatrix α m n) (i : Fin m) (j : Fin n) :
    (ofMatrix A).packed.get i j = (A.reduce.cols j).entries i := by
  simp [ofMatrix, DenseMatrix.ofCols]

theorem ofMatrix_perm (j : Fin n) : (ofMatrix A).perm.get j = (A.reduce.cols j).source := by
  simp [ofMatrix, Permutation.get]

theorem ofMatrix_stored : (ofMatrix A).stored = A.reduce.toReduction.stored := by
  funext s
  refine Vector.ext_get fun i => ?_
  rw [stored, Reduction.stored, DenseMatrix.col, Vector.get_ofFn, ofMatrix_packed]

theorem turned_apply (F : Factorization ℝ m n) (i : Fin m) (j : Fin n) :
    F.turned A i j = (F.orthogonalᵀ *ᵥ A.toMatrix.col (F.perm.get j)) i := rfl

theorem ofMatrix_turned (i : Fin m) (j : Fin n) :
    (ofMatrix A).turned A i j = A.reduce.toReduction.reducedCol A.reduce.rank j i := by
  have image := A.reduce_complete.sound.image j
  rw [DenseMatrix.col_get, ← ofMatrix_stored, ← ofMatrix_perm] at image
  exact congrFun image i

theorem ofMatrix_turned_finished (i : Fin m) {j : Fin n} (finished : j.val < (ofMatrix A).rank) :
    (ofMatrix A).turned A i j = if i.val < j.val then (ofMatrix A).packed.get i j
      else if i.val = j.val then (ofMatrix A).diag j else 0 := by
  rw [ofMatrix_turned, ofMatrix_packed]
  exact Reduction.reducedCol_finished _ finished i

theorem ofMatrix_turned_unfinished (i : Fin m) {j : Fin n}
    (unfinished : (ofMatrix A).rank ≤ j.val) :
    (ofMatrix A).turned A i j = (ofMatrix A).packed.get i j := by
  rw [ofMatrix_turned, ofMatrix_packed]
  exact congrFun (Reduction.reducedCol_unfinished _ unfinished) i

theorem ofMatrix_top (i : Fin (ofMatrix A).rank) (j : Fin n) :
    (ofMatrix A).turned A ((ofMatrix A).topRow i) j = (ofMatrix A).r ((ofMatrix A).topCol i) j := by
  rcases lt_trichotomy ((ofMatrix A).topCol i) j with above | diagonal | below
  · rw [r_of_lt _ i.isLt above]
    by_cases finished : j.val < (ofMatrix A).rank
    · rw [ofMatrix_turned_finished A _ finished]
      exact if_pos above
    · exact ofMatrix_turned_unfinished A _ (not_lt.mp finished)
  · subst diagonal
    rw [r_diag _ i.isLt, ofMatrix_turned_finished A _ i.isLt]
    exact (if_neg (lt_irrefl i.val)).trans (if_pos rfl)
  · have strict : j.val < i.val := below
    rw [r_of_gt _ below, ofMatrix_turned_finished A _ (strict.trans i.isLt)]
    exact (if_neg strict.asymm).trans (if_neg strict.ne')

theorem ofMatrix_discarded_col (j : {j : Fin n // (ofMatrix A).rank ≤ j.val}) :
    euclid ((ofMatrix A).discarded.col j) =
      √(tailSquare (A.reduce.cols j.val).entries (ofMatrix A).rank) := by
  rw [euclid, tailSquare, ← Finset.sum_filter,
    Finset.sum_subtype (p := fun i : Fin m => (ofMatrix A).rank ≤ i.val) _ fun i => by simp]
  refine congrArg Real.sqrt (Finset.sum_congr rfl fun i _ => ?_)
  rw [col_apply, discarded, of_apply, ofMatrix_packed]

theorem ofMatrix_factors : (ofMatrix A).Factors A := by
  obtain ⟨sound, negligible⟩ := A.reduce_complete
  refine ⟨?_, ?_, ofMatrix_top A, fun i j low left => ?_,
    fun i j => ofMatrix_turned_unfinished A i.val j.property, fun j inside => ?_,
    sound.diag_eq_zero, fun p => ?_, fun early => ?_⟩
  · rw [ofMatrix_stored]
    exact sound.proper
  · refine Finite.injective_iff_bijective.mp fun i j same => ?_
    rw [ofMatrix_perm, ofMatrix_perm] at same
    exact sound.source_injective same
  · have strict : j.val < i.val := lt_of_lt_of_le left low
    rw [ofMatrix_turned_finished A i left, if_neg strict.asymm, if_neg strict.ne']
  · rw [ofMatrix_perm, ← DenseMatrix.col_get]
    exact sound.usable j inside
  · rw [← DenseMatrix.col_get]
    exact (Vector.get_ofFn _ _).trans (PivotColumn.ofColumn_norm (A.col p) p)
  · obtain ⟨p, bound⟩ := negligible early
    refine ⟨p, fun j => ?_⟩
    rw [ofMatrix_discarded_col, ← DenseMatrix.col_get]
    exact bound j.val j.property

end OfMatrix

/-! ## The orthogonal factor -/

section Orthogonal

variable {F : Factorization ℝ m n} {A : DenseMatrix ℝ m n}

theorem Factors.transpose_mul_orthogonal (factors : F.Factors A) :
    F.orthogonalᵀ * F.orthogonal = 1 :=
  reflectorProduct_orthogonal factors.proper

theorem Factors.orthogonal_mul_transpose (factors : F.Factors A) :
    F.orthogonal * F.orthogonalᵀ = 1 :=
  mul_eq_one_comm.mp factors.transpose_mul_orthogonal

theorem reflect_real (F : Factorization ℝ m n) (k : Fin F.rank) (b : Vector ℝ m) :
    (F.reflect k b).get =
      Reflector.matrix (F.stored (k.castLE F.rank_le)) (stepRow (k.castLE F.rank_le)) *ᵥ b.get :=
  Reflector.apply_real neg_zero _ _ _

theorem reflectorProduct_stored (F : Factorization ℝ m n) (k : Fin F.rank) :
    reflectorProduct F.stored (k + 1) = reflectorProduct F.stored k *
      Reflector.matrix (F.stored (k.castLE F.rank_le)) (stepRow (k.castLE F.rank_le)) :=
  dif_pos (Nat.lt_of_lt_of_le k.isLt F.rank_le)

theorem qtMul_real (F : Factorization ℝ m n) (b : Vector ℝ m) :
    (F.qtMul b).get = F.orthogonalᵀ *ᵥ b.get := by
  let partly (t : Nat) (v : Vector ℝ m) : Prop :=
    v.get = (reflectorProduct F.stored t)ᵀ *ᵥ b.get
  refine foldl_carries _ partly b ?_ fun k v holds => ?_
  · simp only [partly, reflectorProduct_zero, transpose_one, one_mulVec]
  · change (F.reflect k v).get = _
    rw [reflect_real, holds, reflectorProduct_stored, transpose_mul, Reflector.matrix_transpose,
      mulVec_mulVec]

theorem qMul_real (F : Factorization ℝ m n) (b : Vector ℝ m) :
    (F.qMul b).get = F.orthogonal *ᵥ b.get := by
  let partly (t : Nat) (v : Vector ℝ m) : Prop :=
    reflectorProduct F.stored t *ᵥ v.get = F.orthogonal *ᵥ b.get
  have whole : partly 0 (F.qMul b) := by
    refine foldr_carries _ partly b rfl fun k v holds => ?_
    change reflectorProduct F.stored k *ᵥ (F.reflect k v).get = _
    rw [reflect_real, mulVec_mulVec, ← reflectorProduct_stored]
    exact holds
  have start : (1 : Matrix (Fin m) (Fin m) ℝ) *ᵥ (F.qMul b).get = F.orthogonal *ᵥ b.get := whole
  rwa [one_mulVec] at start

theorem Factors.qMul_qtMul (factors : F.Factors A) (b : Vector ℝ m) : F.qMul (F.qtMul b) = b := by
  refine Vector.ext_get (congrFun ?_)
  rw [qMul_real, qtMul_real, mulVec_mulVec, factors.orthogonal_mul_transpose, one_mulVec]

theorem Factors.qtMul_qMul (factors : F.Factors A) (b : Vector ℝ m) : F.qtMul (F.qMul b) = b := by
  refine Vector.ext_get (congrFun ?_)
  rw [qtMul_real, qMul_real, mulVec_mulVec, factors.transpose_mul_orthogonal, one_mulVec]

end Orthogonal

end Factorization

end LeastSquares

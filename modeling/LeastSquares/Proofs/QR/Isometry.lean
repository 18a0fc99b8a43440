import LeastSquares.Proofs.QR.History
import LeastSquares.Proofs.QR.Rank

/-!
# Multiplying by the orthogonal factor

In exact arithmetic the two products `Q b` and `Q' b` undo each other and keep all inner products,
although one runs through the stored reflectors upward and the other downward. The reason is that
each reflector is an involution: its stored vector `v` satisfies `v' v = 2 v_k`, whatever the sign
of the entry it was made from.
-/

set_option autoImplicit false

namespace LeastSquares

open Matrix

variable {m n : Nat}

namespace Factorization

variable {F : Factorization ℝ m n} {A : DenseMatrix ℝ m n}

/-! ## One reflector -/

theorem Factors.reflect_reflect (factors : F.Factors A) (k : Fin F.rank) (b : Vector ℝ m) :
    F.reflect k (F.reflect k b) = b := by
  refine Vector.ext_get (congrFun ?_)
  have proper := factors.proper (k.castLE F.rank_le) k.isLt
  rw [reflect_real, reflect_real, mulVec_mulVec, proper.matrix_mul_self, one_mulVec]

theorem Factors.reflector_entries (factors : F.Factors A) (k : Fin F.rank) :
    1 ≤ F.packed.get (F.topRow k) (F.topCol k) ∧ F.packed.get (F.topRow k) (F.topCol k) ≤ 2 ∧
      ∑ i with F.topRow k ≤ i, F.packed.get i (F.topCol k) * F.packed.get i (F.topCol k) =
        2 * F.packed.get (F.topRow k) (F.topCol k) := by
  have proper := factors.proper (k.castLE F.rank_le) k.isLt
  have entry (i : Fin m) : F.stored (k.castLE F.rank_le) i = F.packed.get i (F.topCol k) :=
    Vector.get_ofFn _ i
  have square := proper.square
  rw [Reflector.tail_dot_tail, ← Finset.sum_filter] at square
  simp only [entry] at square
  have lower := proper.one_le
  have upper := proper.le_two
  rw [entry] at lower upper
  exact ⟨lower, upper, square⟩

/-! ## Their product -/

theorem Factors.qMul_dot (factors : F.Factors A) (b c : Vector ℝ m) :
    (F.qMul b).get ⬝ᵥ (F.qMul c).get = b.get ⬝ᵥ c.get := by
  rw [qMul_real, qMul_real, dot_mulVec_of_orthogonal factors.transpose_mul_orthogonal]

theorem Factors.qtMul_dot (factors : F.Factors A) (b c : Vector ℝ m) :
    (F.qtMul b).get ⬝ᵥ (F.qtMul c).get = b.get ⬝ᵥ c.get := by
  have orthogonal : F.orthogonalᵀᵀ * F.orthogonalᵀ = 1 := by
    rw [transpose_transpose, factors.orthogonal_mul_transpose]
  rw [qtMul_real, qtMul_real, dot_mulVec_of_orthogonal orthogonal]

/-! ## The programs -/

section Programs

variable {α : Type} [Scalar α]

theorem storage_qtMul_toArray (F : Factorization α m n) (b : Vector α m) :
    F.storage.qtMul b.toArray = some (.succeed (F.qtMul b).toArray) := by
  rw [storage_qtMul, qtInto_toArray]
  rfl

theorem storage_qMul_toArray (F : Factorization α m n) (b : Vector α m) :
    F.storage.qMul b.toArray = some (.succeed (F.qMul b).toArray) := by
  rw [storage_qMul, qInto, checkLength_self b.size_toArray, leading_self]
  rfl

end Programs

/-- The vector that is stored for reflector `k` starts with an entry from one to two that is half
its square, so the reflector is an involution. -/
structure StoresInvolution (F : Factorization ℝ m n) (k : Fin F.rank) : Prop where
  one_le : 1 ≤ F.packed.get (F.topRow k) (F.topCol k)
  le_two : F.packed.get (F.topRow k) (F.topCol k) ≤ 2
  square : ∑ i with F.topRow k ≤ i, F.packed.get i (F.topCol k) * F.packed.get i (F.topCol k) =
    2 * F.packed.get (F.topRow k) (F.topCol k)
  runs (b : Vector ℝ m) : F.storage.reflect k b.toArray = some (F.reflect k b).toArray
  twice (b : Vector ℝ m) : F.reflect k (F.reflect k b) = b

/-- The programs for `Q' b` and `Q b` end for every `b` that has as many entries as there are rows.
Each undoes the other, and both keep lengths and inner products. -/
structure Isometric (F : Factorization ℝ m n) : Prop where
  qtMul_runs (b : Vector ℝ m) : F.storage.qtMul b.toArray = some (.succeed (F.qtMul b).toArray)
  qMul_runs (b : Vector ℝ m) : F.storage.qMul b.toArray = some (.succeed (F.qMul b).toArray)
  qMul_qtMul (b : Vector ℝ m) : F.qMul (F.qtMul b) = b
  qtMul_qMul (b : Vector ℝ m) : F.qtMul (F.qMul b) = b
  qtMul_euclid (b : Vector ℝ m) : euclid (F.qtMul b).get = euclid b.get
  qMul_euclid (b : Vector ℝ m) : euclid (F.qMul b).get = euclid b.get
  qtMul_dot (b c : Vector ℝ m) : (F.qtMul b).get ⬝ᵥ (F.qtMul c).get = b.get ⬝ᵥ c.get
  qMul_dot (b c : Vector ℝ m) : (F.qMul b).get ⬝ᵥ (F.qMul c).get = b.get ⬝ᵥ c.get
  reflectors (k : Fin F.rank) : F.StoresInvolution k

/-- Whatever matrix is factored in place, the products with its orthogonal factor keep lengths and
angles. -/
theorem storage_isometric (A : DenseMatrix ℝ m n) :
    let F := ofMatrix A
    (∀ K : Scratch ℝ n,
      Stored.allocate ⟨A⟩ K.stack = some { buffers := F.storage, result := .ok F.rank }) ∧
    F.Isometric := by
  intro F
  have factors : F.Factors A := ofMatrix_factors A
  refine ⟨fun K => allocate_storage A K.stack_room, ?_⟩
  constructor
  case qtMul_runs => exact F.storage_qtMul_toArray
  case qMul_runs => exact F.storage_qMul_toArray
  case qMul_qtMul => exact factors.qMul_qtMul
  case qtMul_qMul => exact factors.qtMul_qMul
  case qtMul_euclid =>
    intro b
    rw [euclid, factors.qtMul_dot, euclid]
  case qMul_euclid =>
    intro b
    rw [euclid, factors.qMul_dot, euclid]
  case qtMul_dot => exact factors.qtMul_dot
  case qMul_dot => exact factors.qMul_dot
  case reflectors =>
    intro k
    obtain ⟨one_le, le_two, square⟩ := factors.reflector_entries k
    exact
      { one_le, le_two, square
        runs := F.storage_reflect k
        twice := factors.reflect_reflect k }

/-! ## A single column -/

def ones : DenseMatrix ℝ 2 1 := .ofFn fun _ _ => 1

theorem ones_rank : (ofMatrix ones).rank = 1 := by
  have nonzero : ones.toMatrix.col 0 ≠ 0 := by
    intro vanishes
    have entry : ones.toMatrix 0 0 = 1 := DenseMatrix.get_ofFn _ 0 0
    have zero := congrFun vanishes 0
    rw [col_apply, entry] at zero
    exact one_ne_zero zero
  have small : (Reduction.tolerance 2 1 : ℝ) < 1 := Reduction.tolerance_lt_one (by decide)
  have found := (ofMatrix_factors ones).rank_pos small nonzero
  have columns := (ofMatrix ones).rank_le_cols
  omega

theorem storage_isometric_ones :
    let F := ofMatrix ones
    ∃ k : Fin F.rank, F.StoresInvolution k ∧
      F.storage.qtMul #[1, 7] = some (.succeed (F.qtMul #v[1, 7]).toArray) ∧
      F.qMul (F.qtMul #v[1, 7]) = #v[1, 7] ∧
      euclid (F.qtMul #v[1, 7]).get = euclid #v[(1 : ℝ), 7].get := by
  intro F
  have isometric : F.Isometric := (storage_isometric ones).2
  let first : Fin F.rank := ⟨0, by rw [ones_rank]; exact one_pos⟩
  exact ⟨first, isometric.reflectors first, isometric.qtMul_runs #v[1, 7],
    isometric.qMul_qtMul #v[1, 7], isometric.qtMul_euclid #v[1, 7]⟩

end Factorization

end LeastSquares

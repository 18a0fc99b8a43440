import LeastSquares.Proofs.QR.ZeroColumns

/-!
# Rows of zeros

A minimum-norm solution is made by the reflectors of the transpose of `R`. Where a column of `R` is
zero the transpose has a row of zeros, and whatever is done to it, no double in it becomes a number
other than zero: it is divided by norms and multiplied by scales, and the only thing that can come
of that is no number at all. So the solution is zero there if it is a number.
-/

set_option autoImplicit false

namespace LeastSquares

variable {m n : Nat}

open Double

/-! ## Reflectors -/

namespace Reflector

theorem vacant_apply {start : Float} {v w : Vector Float m} {k i : Fin m} (stored : Vacant (v i))
    (entry : Vacant (w i)) : Vacant (apply start v k w i) := by
  rw [apply, Vector.get_ofFn]
  split
  · exact entry.sub (stored.mul_left _)
  · exact entry

theorem vacant_normalize {norm : Float} {w : Vector Float m} {k i : Fin m} (other : i ≠ k)
    (entry : Vacant (w i)) : Vacant (normalize norm w k i) := by
  rw [normalize, Vector.get_ofFn, if_neg other]
  split
  · exact entry.div norm
  · exact entry

end Reflector

theorem Reduction.Reached.vacant {A : DenseMatrix Float m n} {S : Reduction Float m n} {k : Nat}
    {i : Fin m} (zeros : ∀ j, IsZero (A.get i j)) (reached : Reached A k S) (behind : k ≤ i.val)
    (j : Fin n) : Vacant ((S.cols j).entries i) := by
  induction reached generalizing j with
  | start =>
      have column : (ofMatrix A).cols j = .ofColumn (A.col j) j := Vector.get_ofFn _ _
      refine .inl ?_
      rw [column, PivotColumn.ofColumn, DenseMatrix.col, Vector.get_ofFn]
      exact zeros j
  | @step S s _ _ ih =>
      have other : i ≠ stepRow s := fun same => by
        have value : i.val = s.val := congrArg Fin.val same
        omega
      have brought (j : Fin n) : Vacant (((S.bringPivot (stepCol s)).cols j).entries i) := by
        rw [bringPivot_cols]
        exact ih (by omega) _
      have stored : Vacant ((S.bringPivot (stepCol s)).storedBy s i) := by
        rw [storedBy_eq]
        exact Reflector.vacant_normalize other (brought _)
      rcases lt_trichotomy j (stepCol s) with before | rfl | later
      · rw [eliminate_before before]
        exact brought j
      · exact stored
      · rw [eliminate_later later, PivotColumn.reflect_entries]
        exact Reflector.vacant_apply stored (brought j)

namespace Factorization

theorem ofMatrix_vacant {A : DenseMatrix Float m n} {i : Fin m}
    (zeros : ∀ j, IsZero (A.get i j)) (behind : (ofMatrix A).rank ≤ i.val) (j : Fin n) :
    Vacant ((ofMatrix A).packed.get i j) := by
  obtain ⟨last, reached, ended⟩ :=
    Reduction.Reached.start.reduceFrom (A := A) _ _ (Nat.zero_add (min m n))
  rw [ofMatrix_packed, DenseMatrix.reduce]
  rcases ended with same | ⟨s, _, same⟩
  · rw [same]
    exact reached.vacant zeros behind j
  · rw [same, Reduction.bringPivot_cols]
    exact reached.vacant zeros behind _

theorem qMul_vacant {F : Factorization Float m n} {i : Fin m}
    (stored : ∀ j, Vacant (F.packed.get i j)) {b : Vector Float m} (entry : Vacant (b i)) :
    Vacant (F.qMul b i) := by
  refine foldr_carries _ (fun _ (b : Vector Float m) => Vacant (b i)) b entry fun k b known => ?_
  rw [reflect]
  refine Reflector.vacant_apply ?_ known
  rw [DenseMatrix.col, Vector.get_ofFn]
  exact stored _

/-! ## The two solves -/

section Outside

variable {α : Type} [Scalar α]

theorem backSubstitute_outside {bound : Nat} (U : Fin n → Fin n → α) (rhs : Vector α n) {j : Fin n}
    (outside : bound ≤ j.val) : backSubstitute bound U rhs j = 0 := by
  refine foldr_carries _ (fun _ (y : Vector α n) => y j = 0) _ (Vector.get_replicate 0 j)
    fun k y known => ?_
  split
  · rename_i inside
    rw [Vector.get_set, if_neg fun same => by omega]
    exact known
  · exact known

theorem forwardSubstitute_outside {bound : Nat} (U : Fin n → Fin n → α) (rhs : Vector α n)
    {j : Fin n} (outside : bound ≤ j.val) : forwardSubstitute bound U rhs j = 0 := by
  refine foldl_carries _ (fun _ (y : Vector α n) => y j = 0) _ (Vector.get_replicate 0 j)
    fun k y known => ?_
  split
  · rename_i inside
    rw [Vector.get_set, if_neg fun same => by omega]
    exact known
  · exact known

end Outside

variable {F : Factorization Float m n} {c x : Vector Float n} {j : Fin n}

theorem rSolve_outside (bijective : Function.Bijective F.perm.get) (outside : F.rank ≤ j.val) :
    F.rSolve c (F.perm.get j) = 0 := by
  rw [rSolve, Permutation.restore_get bijective]
  exact backSubstitute_outside _ _ outside

theorem minimumNorm_vacant (bijective : Function.Bijective F.perm.get) (outside : F.rank ≤ j.val)
    (column : ∀ i, IsZero (F.r i j)) (solved : F.minimumNorm c = .ok x) :
    Vacant (x (F.perm.get j)) := by
  rw [minimumNorm] at solved
  split at solved
  · cases solved
    rw [Vector.get_replicate]
    exact vacant_zero
  · rw [minimumNormVia] at solved
    split at solved
    · cases solved
    · rename_i bounded
      cases solved
      have behind : F.inner.rank ≤ j.val := (not_lt.mp bounded).trans outside
      rw [Permutation.restore_get bijective]
      refine qMul_vacant (ofMatrix_vacant (fun i => ?_) behind) ?_
      · rw [lower, DenseMatrix.get_ofFn]
        exact column i
      · rw [rtSolve, forwardSubstitute_outside _ _ behind]
        exact vacant_zero

/-! ## Steps over a zero column -/

section Steps

variable {A : DenseMatrix Float m n} {p : Fin n}

theorem LeavesOut.rSolve (left : LeavesOut A p) (c : Vector Float n) :
    (ofMatrix A).rSolve c p = 0 := by
  obtain ⟨j, rfl⟩ := (ofMatrix_bijective A).surjective p
  exact rSolve_outside (ofMatrix_bijective A) (left.behind j rfl)

theorem LeavesOut.r (left : LeavesOut A p) {j : Fin n} (position : (ofMatrix A).perm.get j = p)
    (i : Fin n) : IsZero ((ofMatrix A).r i j) := by
  have outside := left.behind j position
  by_cases inside : i.val < (ofMatrix A).rank
  · rw [r_of_lt _ inside (show i.val < j.val by omega)]
    exact left.stored _ j position
  · rw [r_of_rank_le _ (not_lt.mp inside)]
    exact isZero_zero

theorem LeavesOut.minimumNorm (left : LeavesOut A p) {c x : Vector Float n}
    (solved : (ofMatrix A).minimumNorm c = .ok x) : Vacant (x p) := by
  obtain ⟨j, rfl⟩ := (ofMatrix_bijective A).surjective p
  exact minimumNorm_vacant (ofMatrix_bijective A) (left.behind j rfl) (left.r rfl) solved

end Steps

/-- Finite reflectors of the transpose pick the rows of `R` before the padding. -/
theorem inner_front {F : Factorization Float m n} (finite : F.inner.FiniteReflectors) {k : Fin n}
    (inside : k.val < F.rank) : (F.inner.perm.get k).val < F.rank := by
  refine ofMatrix_front finite (fun i j padding => ?_) k inside
  rw [lower, DenseMatrix.get_ofFn, F.r_of_rank_le padding]
  exact isZero_zero

theorem minimumNorm_of_finite {F : Factorization Float m n} (finite : F.inner.FiniteReflectors)
    (c : Vector Float n) : F.inner.rank ≤ F.rank ∧ (∃ x, F.minimumNorm c = .ok x) ∧
      ∀ k : Fin n, k.val < F.rank → F.innerRhs F.inner c k = c (F.inner.perm.get k) := by
  have bound : F.inner.rank ≤ F.rank :=
    F.inner_rank_le_of_finite fun step _ inside => finite step inside
  refine ⟨bound, ?_, fun k inside => ?_⟩
  · rw [Factorization.minimumNorm]
    split
    · exact ⟨_, rfl⟩
    · rw [minimumNormVia, if_neg (not_lt.mpr bound)]
      exact ⟨_, rfl⟩
  · rw [innerRhs, Vector.get_ofFn, if_pos (inner_front finite inside)]

end Factorization

end LeastSquares

import LeastSquares.Proofs.QR.Rotating

/-!
# Solves in a workspace

The minimum-norm solve factors a transpose in the workspace, whose inner factorization may come from
any earlier call. The transpose overwrites all of its matrix, factoring it overwrites the rest, and
the scratch vectors are written where they are laid out. So the workspace has no past.
-/

set_option autoImplicit false

namespace LeastSquares

open Storage

variable {α : Type} {m n : Nat}

namespace Permutation

theorem scatter_toArray (P : Permutation n) (v target : Vector α n) :
    P.scatter v.toArray target.toArray =
      some (Fin.foldl n (fun out k => out.set (P.get k) (v k) (P.get k).isLt) target).toArray := by
  have entries : P.indices.toList.zip v.toArray.toList =
      (List.finRange n).map fun k => (P.get k, v k) := by
    apply List.ext_getElem
    · simp
    · intro k _ _
      simp [get, Vector.get_eq]
  rw [scatter, entries, foldl_finRange]
  induction List.finRange n generalizing target with
  | nil => rfl
  | cons k rest ih =>
      have inside : (P.get k).val < target.toArray.size := by simp
      have written : target.toArray.setIfInBounds (P.get k) (v k) =
          (target.set (P.get k) (v k) (P.get k).isLt).toArray := by
        simp [Array.setIfInBounds]
      rw [List.map_cons, List.foldlM_cons, if_pos inside, List.foldl_cons, ← ih, written]
      rfl

theorem scatter_zero (P : Permutation n) [Zero α] (v : Vector α n) :
    P.scatter v.toArray (Vector.replicate n 0).toArray = some (P.restore v).toArray :=
  P.scatter_toArray v _

end Permutation

variable [Scalar α]

theorem InPlace.attempt_match {β γ ρ : Type} {f : γ → β} {before : β} {before' : γ}
    {check : Except LinalgError Unit} {program : Unit → Option (InPlace β ρ)}
    {after : InPlace γ ρ} (same : f before' = before)
    (runs : check = .ok () → program () = some (after.map f)) :
    attempt before check program = some (InPlace.map f (match check with
      | .error e => { buffers := before', result := .error e }
      | .ok () => after)) := by
  subst same
  cases check with
  | error e => rfl
  | ok _ => exact runs rfl

namespace Factorization

variable (F : Factorization α m n)

theorem storage_transposeInto (T : DenseMatrix α n n) :
    F.storage.transposeInto ⟨T⟩ = some ⟨F.lower⟩ := by
  let value (j i : Nat) : Option α := if i < F.storage.rank then F.storage.r i j else some 0
  have values (i j : Fin n) : value i j = some (F.lower.get i j) := by
    dsimp only [value]
    rw [lower, DenseMatrix.get_ofFn, storage_r]
    split
    · rfl
    · rename_i outside
      rw [r, dif_neg fun inside => outside inside.1]
  exact overwrite_ok values

theorem refilled_same (A : DenseMatrix α m n) :
    F.refilled ⟨A⟩ = { buffers := (ofMatrix A).storage, result := .ok (ofMatrix A).rank } := by
  simp [refilled, refactorWith]

theorem rtSolve_rest (c : Vector α n) {j : Fin n} (outside : F.rank ≤ j.val) :
    F.rtSolve c j = 0 := by
  refine foldl_carries _ (fun _ (y : Vector α n) => y j = 0) _
    (Vector.get_replicate _ _) fun k y zero => ?_
  split
  · rename_i inside
    have other : k ≠ j := fun same => absurd inside (same ▸ not_lt.mpr outside)
    rw [Vector.get_set, if_neg other, zero]
  · exact zero

section Through

variable (I : Factorization α n n) {given scratch : Array α}

def leadingRhs (c : Vector α n) : Vector α F.rank :=
  Vector.ofFn fun k => F.innerRhs I c (k.castLE (F.rank_le.trans (Nat.min_le_right m n)))

theorem carve_leadingRhs (enough : F.rank ≤ given.size) (room : F.rank ≤ scratch.size) :
    carve scratch F.rank (fun k => do
      let p ← I.storage.perm.get? k
      if p < F.rank then given[p]? else some 0) =
        some ((F.leadingRhs I (leading n given)).toArray, scratch.extract F.rank) := by
  refine carve_ok room fun k => ?_
  let k' : Fin n := k.castLE (F.rank_le.trans (Nat.min_le_right m n))
  have position : I.storage.perm.get? k = some (I.perm.get k').val := I.perm.get?_mk k'
  simp only [position, bind, Option.bind, leadingRhs, innerRhs, Vector.get_ofFn]
  split
  · rename_i inside
    exact read_enough (inside.trans_le enough)
  · rfl

theorem rtSolve_leadingRhs (few : I.rank ≤ F.rank) (c : Vector α n) :
    I.rtSolve (leading n (F.leadingRhs I c).toArray) = I.rtSolve (F.innerRhs I c) := by
  refine I.rtSolve_congr fun j inside => ?_
  rw [leading_toArray _ j ⟨j, inside.trans_le few⟩ rfl, leadingRhs, Vector.get_ofFn]
  rfl

/-- The solve on the leading cells, with the cells behind them as they were laid out. -/
theorem append_rest {v : Vector α n} {rank : Nat} (le : rank ≤ n)
    (rest : ∀ j : Fin n, rank ≤ j.val → v j = 0) :
    (leading rank v.toArray).toArray ++ (Vector.replicate n (0 : α)).toArray.extract rank =
      v.toArray := by
  apply Array.ext
  · simp
    omega
  · intro k _ inside
    have inside : k < n := by simpa using inside
    by_cases front : k < rank
    · rw [Array.getElem_append_left (by simpa using front)]
      simp [leading, inside]
    · rw [Array.getElem_append_right (by simpa using front)]
      have zero := rest ⟨k, inside⟩ (not_lt.mp front)
      simpa [Vector.get_eq] using zero.symm

theorem storage_throughTransposed (enough : F.rank ≤ given.size) (room : 2 * n ≤ scratch.size) :
    ∃ z, Stored.throughTransposed I.storage F.rank n given scratch = some
      (if F.rank < I.rank then
        { buffers := z, result := .error (.dimensionMismatch I.rank F.rank) }
      else .succeed (I.qMul (I.rtSolve (F.innerRhs I (leading n given)))).toArray) := by
  have le : F.rank ≤ n := F.rank_le.trans (Nat.min_le_right m n)
  let zeros : Array α := (Vector.replicate n 0).toArray
  let rhs := (F.leadingRhs I (leading n given)).toArray
  have first : carve scratch F.rank _ = some (rhs, scratch.extract F.rank) :=
    F.carve_leadingRhs I enough (by omega)
  have second : carve (scratch.extract F.rank) n (fun _ => some (0 : α)) =
      some (zeros, (scratch.extract F.rank).extract n) :=
    carve_replicate (by simp; omega) 0
  have front : F.rank ≤ zeros.size := by simpa [zeros] using le
  have lengths : min (zeros.extract 0 F.rank).size rhs.size = F.rank := by
    simp [zeros, rhs, le]
  have solved := I.storage_rtSolve rhs (zeros.extract 0 F.rank)
  rw [rtSolveInto, lengths] at solved
  refine ⟨zeros.extract 0 F.rank ++ zeros.extract F.rank, ?_⟩
  simp only [Stored.throughTransposed]
  rw [first]
  simp only [second, bind, Option.bind, guard, if_pos front, pure]
  by_cases more : F.rank < I.rank
  · rw [checkAtLeast, if_pos more] at solved
    simp only [solved, InPlace.checked, InPlace.attempt, if_pos more]
  · rw [checkAtLeast, if_neg more] at solved
    have size : (zeros.extract 0 F.rank).size = F.rank := by simp [zeros, le]
    have whole : (leading F.rank (I.rtSolve (leading n rhs)).toArray).toArray ++
        zeros.extract F.rank = (I.rtSolve (F.innerRhs I (leading n given))).toArray := by
      rw [F.rtSolve_leadingRhs I (not_lt.mp more)]
      exact append_rest le fun j outside => I.rtSolve_rest _ ((not_lt.mp more).trans outside)
    have turned : I.storage.qMul (I.rtSolve (F.innerRhs I (leading n given))).toArray =
        some (.succeed (I.qMul (I.rtSolve (F.innerRhs I (leading n given)))).toArray) := by
      rw [storage_qMul, qInto, checkLength_self (Vector.size_toArray _), leading_self]
      rfl
    simp only [solved, InPlace.checked, InPlace.attempt, if_neg more]
    rw [size, whole, turned]

end Through

/-- The minimum-norm solve is in range, and of the workspace it is given nothing is left. -/
theorem storage_minimumNorm (c : Array α) (B : SolveBuffers α) {stack scratch : Array α}
    (stackRoom : 3 * n ≤ stack.size) (room : 2 * n ≤ scratch.size) :
    F.storage.minimumNorm c B.storage stack scratch =
      some ((F.minimumNormInto c B).map SolveBuffers.storage) := by
  rw [Stored.minimumNorm, minimumNormInto]
  refine InPlace.attempt_match rfl fun passed => ?_
  rw [checks_ok, checks_ok, checkLength_eq_ok, checkLength_eq_ok, checkAtLeast_eq_ok] at passed
  obtain ⟨length, width, enough⟩ := passed
  obtain ⟨x, @⟨w, W⟩⟩ := B
  have length : x.size = n := length
  obtain rfl : w = n := width
  have enough : F.rank ≤ c.size := enough
  let zeros := (Vector.replicate w (0 : α)).toArray
  have filled : fill x 0 0 = some zeros := fill_all length 0
  have refactored : W.storage.refactorWith F.storage.transposeInto stack =
      some { buffers := F.inner.storage, result := .ok F.inner.rank } := by
    rw [W.storage_refactorWith (F.storage_transposeInto W.packed) stackRoom, refilled_same]
    rfl
  obtain ⟨z, turned⟩ := F.storage_throughTransposed F.inner enough room
  have width : F.storage.ncols = w := rfl
  have rank : F.storage.rank = F.rank := rfl
  simp only [SolveBuffers.storage, filled, width, rank, bind, Option.bind]
  by_cases zero : F.rank = 0
  · rw [if_pos zero, if_pos zero]
    rfl
  · rw [if_neg zero, if_neg zero]
    simp only [refactored, Except.map, InPlace.attempt, turned, minimumNormVia]
    by_cases more : F.rank < F.inner.rank
    · rw [if_pos more, if_pos more]
      rfl
    · have scattered : F.storage.perm.scatter
          (F.inner.qMul (F.inner.rtSolve (F.innerRhs F.inner (leading w c)))).toArray zeros = _ :=
        F.perm.scatter_zero _
      rw [if_neg more, if_neg more]
      simp only [InPlace.succeed, scattered]
      rfl

theorem storage_fullRank : F.storage.fullRank = some F.fullRank := by
  rw [Stored.fullRank, fullRank]
  have width : F.storage.ncols = n := rfl
  rw [width]
  by_cases columns : 0 < n
  · have last : F.storage.diag[n - 1]? = some (F.diag ⟨n - 1, by omega⟩) := read F.diag ⟨n - 1, _⟩
    simp only [ if_pos columns, dif_pos columns, last, bind, Option.bind, pure]
  · rw [if_neg columns, dif_neg columns]

theorem storage_solve {F : Factorization α m n} (bijective : Function.Bijective F.perm.get)
    (B : LeastSquaresBuffers α) {stack scratch : Array α}
    (stackRoom : 3 * n ≤ stack.size) (room : 2 * n ≤ scratch.size) :
    F.storage.solve B.storage stack scratch =
      some ((F.solveInto B).map LeastSquaresBuffers.storage) := by
  have reflected := F.storage_qtMul B.b
  have solved (c : Array α) := storage_rSolve bijective c B.x
  have shortest (c : Array α) :=
    F.storage_minimumNorm c B.toSolveBuffers stackRoom room
  rw [Stored.solve, solveInto]
  simp only [LeastSquaresBuffers.storage, reflected, bind, Option.bind, InPlace.attempt]
  rw [qtInto]
  cases checkLength B.b.size m with
  | error e => rfl
  | ok _ =>
      simp only [InPlace.checked, storage_fullRank]
      cases full : F.fullRank with
      | false =>
          simp only [shortest, Bool.false_eq_true, if_false, pure]
          rfl
      | true =>
          simp only [SolveBuffers.storage, solved, if_true, pure]
          rfl

end Factorization

end LeastSquares

import LeastSquares.Proofs.QR.MinimumNorm
import LeastSquares.QR.Buffers

/-!
# Solving for the shortest minimizer

A least-squares solve multiplies the right-hand side by `Q'` and then takes one of the two solves of
the triangular system, as the last entry of the diagonal says. What it leaves in the caller's array
is the shortest minimizer, as long as neither factorization discards anything.
-/

set_option autoImplicit false

namespace LeastSquares

open Matrix

variable {m n : Nat}

/-! ## Arrays and vectors -/

section Arrays

variable {α : Type} [Scalar α]

theorem leading_get (a : Array α) (i : Fin n) : leading n a i = a.getD i 0 :=
  Vector.get_ofFn _ i

theorem leading_toArray (v : Vector α m) (i : Fin n) (j : Fin m) (same : i.val = j.val) :
    leading n v.toArray i = v j := by
  rw [leading_get, Vector.get_eq, same]
  simp [Array.getD_eq_getD_getElem?, Vector.getElem_toArray]

theorem leading_self (v : Vector α m) : leading m v.toArray = v :=
  Vector.ext_get fun i => leading_toArray v i i rfl

end Arrays

theorem checkLength_self {actual expected : Nat} (same : actual = expected) :
    checkLength actual expected = .ok () := checkLength_eq_ok.mpr same

theorem checkAllocatable_of {count : Nat} (room : Allocatable count) :
    checkAllocatable count = .ok () := if_pos room

theorem Allocatable.of_square {n : Nat} (room : Allocatable (n * n)) : Allocatable n := by
  have le : n ≤ n * n := Nat.le_mul_self n
  unfold Allocatable at room ⊢
  exact lt_of_le_of_lt (Nat.mul_le_mul_right elementBytes le) room

namespace Factorization

variable {F : Factorization ℝ m n} {A : DenseMatrix ℝ m n}

theorem qtInto_toArray {α : Type} [Scalar α] (F : Factorization α m n) (b : Vector α m) :
    F.qtInto b.toArray = { buffers := (F.qtMul b).toArray, result := .ok () } := by
  rw [qtInto, checkLength_self b.size_toArray, leading_self]
  rfl

theorem leading_qtMul (F : Factorization ℝ m n) (b : Vector ℝ m) (i : Fin F.rank) :
    leading n (F.qtMul b).toArray (F.topCol i) = (F.orthogonalᵀ *ᵥ b.get) (F.topRow i) := by
  rw [leading_toArray _ (F.topCol i) (F.topRow i) rfl, qtMul_real]

theorem rSolveInto_ok {α : Type} [Scalar α] (F : Factorization α m n) {c x : Array α}
    (length : x.size = n) (enough : F.rank ≤ c.size) (positive : F.rank ≠ 0) :
    F.rSolveInto c x = { buffers := (F.rSolve (leading n c)).toArray, result := .ok () } := by
  rw [rSolveInto, checkLength_self length, checkAtLeast_eq_ok.mpr enough, if_neg positive]
  rfl

theorem rtSolve_congr {α : Type} [Scalar α] (F : Factorization α m n) {c d : Vector α n}
    (same : ∀ j : Fin n, j.val < F.rank → c j = d j) : F.rtSolve c = F.rtSolve d := by
  rw [rtSolve, rtSolve, forwardSubstitute, forwardSubstitute]
  congr 1
  funext y j
  split
  · rw [same j ‹_›]
  · rfl

theorem dampedInto_ok {α : Type} [Scalar α] (F : Factorization α m n) {c : Array α} (d : Vector α n)
    (workspace : Workspace α) {B : DampedBuffers α} (length : B.x.size = n)
    (rows : B.s.nrows = n) (cols : B.s.ncols = n) (fits : workspace.ncols = n)
    (enough : F.rank ≤ c.size) : F.dampedInto c d.toArray workspace B =
      { buffers :=
          { s := ⟨(F.dampedTriangle (leading n c) d).toMatrix⟩
            x := (F.dampedSolve (leading n c) d).toArray }
        result := .ok () } := by
  simp only [dampedInto, checkLength_self d.size_toArray, checkLength_self length,
    checkLength_self rows, checkLength_self cols, checkLength_self fits,
    checkAtLeast_eq_ok.mpr enough, bind, Except.bind, leading_self]
  rfl

theorem minimumNormInto_ok (F : Factorization ℝ m n) {c : Array ℝ} {B : SolveBuffers ℝ}
    (length : B.x.size = n) (fits : B.workspace.ncols = n) (enough : F.rank ≤ c.size)
    {x : Vector ℝ n} (solved : F.minimumNorm (leading n c) = .ok x) :
    (F.minimumNormInto c B).result = .ok () ∧ (F.minimumNormInto c B).buffers.x = x.toArray := by
  rw [minimumNorm] at solved
  simp only [minimumNormInto, checkLength_self length, checkLength_self fits,
    checkAtLeast_eq_ok.mpr enough, bind, Except.bind]
  by_cases zero : F.rank = 0
  · rw [if_pos zero] at solved ⊢
    exact ⟨rfl, congrArg Vector.toArray (Except.ok.inj solved)⟩
  · rw [if_neg zero] at solved ⊢
    rw [solved]
    exact ⟨rfl, rfl⟩

noncomputable def triangularSolve (F : Factorization ℝ m n) (c : Vector ℝ n) :
    Except LinalgError (Vector ℝ n) :=
  if F.fullRank then .ok (F.rSolve c) else F.minimumNorm c

theorem Factors.solveInto_ok (factors : F.Factors A) (b : Vector ℝ m) {B : SolveBuffers ℝ}
    (length : B.x.size = n) (fits : B.workspace.ncols = n) {x : Vector ℝ n}
    (solved : F.triangularSolve (leading n (F.qtMul b).toArray) = .ok x) :
    (F.solveInto { B with b := b.toArray }).result = .ok () ∧
      (F.solveInto { B with b := b.toArray }).buffers.x = x.toArray := by
  have enough : F.rank ≤ (F.qtMul b).toArray.size := by
    rw [Vector.size_toArray]
    exact F.rank_le_rows
  simp only [solveInto, qtInto_toArray]
  rw [triangularSolve] at solved
  by_cases full : F.fullRank = true
  · obtain ⟨positive, whole⟩ := factors.fullRank_iff.mp full
    rw [if_pos full] at solved ⊢
    rw [F.rSolveInto_ok length enough (by omega), Except.ok.inj solved]
    exact ⟨rfl, rfl⟩
  · rw [if_neg full] at solved ⊢
    exact F.minimumNormInto_ok length fits enough solved

/-- Both solves give the shortest minimizer. -/
theorem Factors.triangularSolve_shortest (factors : F.Factors A) (nothing : F.discarded = 0)
    (innerNothing : F.fullRank = false → F.inner.discarded = 0) (b : Vector ℝ m) :
    ∃ x, F.triangularSolve (leading n (F.qtMul b).toArray) = .ok x ∧
      IsShortestMinimizer A.toMatrix b.get x.get := by
  rw [triangularSolve]
  by_cases full : F.fullRank = true
  · rw [if_pos full]
    obtain ⟨_, whole⟩ := factors.fullRank_iff.mp full
    exact ⟨_, rfl,
      (factors.rSolve_isOnlyMinimizer nothing whole (F.leading_qtMul b)).isShortestMinimizer⟩
  · rw [if_neg full]
    obtain ⟨x, solved, rows, w, combination⟩ := factors.minimumNorm_spec
      (innerNothing (Bool.eq_false_iff.mpr full)) (leading n (F.qtMul b).toArray)
    exact ⟨x, solved, factors.isShortestMinimizer nothing
      (fun i => (rows i).trans (F.leading_qtMul b i)) combination⟩

end Factorization

theorem AnyMatrix.leastSquares_ok (A : AnyMatrix ℝ) (b : Vector ℝ A.nrows)
    (room : Allocatable (A.ncols * A.ncols)) {x : Vector ℝ A.ncols}
    (solved : (Factorization.ofMatrix A.entries).triangularSolve
      (leading A.ncols ((Factorization.ofMatrix A.entries).qtMul b).toArray) = .ok x) :
    A.leastSquares b.toArray = .ok x.toArray := by
  obtain ⟨result, written⟩ :=
    (Factorization.ofMatrix_factors A.entries).solveInto_ok b
      (B := { x := Array.replicate A.ncols 0, workspace := ⟨Factorization.blank⟩ })
      Array.size_replicate rfl solved
  simp only [AnyMatrix.leastSquares, Factorization.allocate, Workspace.allocate,
    checkLength_self b.size_toArray, checkAllocatable_of room, checkAllocatable_of room.of_square,
    bind, Except.bind, pure, Except.pure, result, written]

/-- The vector that is returned brings `A` as close to `b` as can be, and is shorter than every
other vector that does. -/
theorem AnyMatrix.leastSquares_shortest (A : AnyMatrix ℝ) (b : Vector ℝ A.nrows)
    (room : Allocatable (A.ncols * A.ncols))
    (nothing : (Factorization.ofMatrix A.entries).discarded = 0)
    (innerNothing : (Factorization.ofMatrix A.entries).fullRank = false →
      (Factorization.ofMatrix A.entries).inner.discarded = 0) :
    ∃ x : Vector ℝ A.ncols, A.leastSquares b.toArray = .ok x.toArray ∧
      IsShortestMinimizer A.entries.toMatrix b.get x.get := by
  obtain ⟨x, solved, shortest⟩ :=
    (Factorization.ofMatrix_factors A.entries).triangularSolve_shortest nothing innerNothing b
  exact ⟨x, A.leastSquares_ok b room solved, shortest⟩

/-- Of the solutions of `x₀ + x₁ = 2` the one with equal entries is the shortest. -/
theorem AnyMatrix.leastSquares_two_columns :
    let A : AnyMatrix ℝ := ⟨(DenseMatrix.ofFn fun _ _ => 1 : DenseMatrix ℝ 1 2)⟩
    Allocatable (A.ncols * A.ncols) ∧
      (Factorization.ofMatrix A.entries).discarded = 0 ∧
      (Factorization.ofMatrix A.entries).inner.discarded = 0 ∧
      A.leastSquares #[2] = .ok #[1, 1] := by
  intro A
  have factors := Factorization.ofMatrix_factors A.entries
  have entry (i : Fin 1) (j : Fin 2) : A.entries.toMatrix i j = 1 := DenseMatrix.get_ofFn _ i j
  have room : Allocatable (A.ncols * A.ncols) := by decide
  have tiny (k l : Nat) (few : max k l = 2) : (Reduction.tolerance k l : ℝ) < 1 :=
    Reduction.tolerance_lt_one (few.trans_le (by decide))
  have nothing : (Factorization.ofMatrix A.entries).discarded = 0 := by
    refine factors.discarded_of_one_row (tiny 1 2 rfl) (p := 0) fun vanishes => ?_
    have zero := congrFun vanishes 0
    rw [col_apply, entry] at zero
    exact one_ne_zero zero
  have single : (Factorization.ofMatrix A.entries).rank ≤ 1 := Factorization.rank_le_rows _
  have innerNothing : (Factorization.ofMatrix A.entries).inner.discarded = 0 :=
    factors.inner_discarded_of_rank_le_one (tiny 2 2 rfl) single
  refine ⟨room, nothing, innerNothing, ?_⟩
  obtain ⟨x, solved, shortest⟩ :=
    A.leastSquares_shortest #v[2] room nothing fun _ => innerNothing
  have equal : IsShortestMinimizer A.entries.toMatrix #v[(2 : ℝ)].get #v[(1 : ℝ), 1].get := by
    have image : A.entries.toMatrix *ᵥ #v[(1 : ℝ), 1].get = #v[(2 : ℝ)].get := by
      funext i
      rw [mulVec, dotProduct, Fin.sum_univ_two, entry, entry, Subsingleton.elim i 0]
      norm_num [Vector.get_eq]
    refine (Normal.of_image image).isShortestMinimizer (w := 1) (funext fun j => ?_)
    rw [mulVec, dotProduct, Fin.sum_univ_one, transpose_apply, entry]
    fin_cases j <;> norm_num [Vector.get_eq]
  have same : x = #v[1, 1] := Vector.ext_get (congrFun (shortest.unique equal))
  rw [same] at solved
  exact solved

end LeastSquares

import LeastSquares.Proofs.QR.Isometry

/-!
# Products that undo solves

`R P'` is applied by a product and inverted by three solves. The product and the two solves for `x`
take and give `x` in the caller's column order and have the rows of `R` on the other side, cut off
at the rank; the solve with `R'` stays in pivot order on both sides. In exact arithmetic each solve
gives a vector whose product is the right-hand side it was given, as far as the rows of `R` reach.
-/

set_option autoImplicit false

namespace LeastSquares

open Matrix

variable {m n : Nat}

namespace Factorization

variable {F : Factorization ℝ m n} {A : DenseMatrix ℝ m n}

/-! ## Vectors -/

/-- The product reads no column in front of the diagonal, where `R` is zero. -/
theorem rMul_apply (F : Factorization ℝ m n) (x : Vector ℝ n) (i : Fin n) :
    F.rMul x i = ∑ j, F.r i j * x (F.perm.get j) := by
  rw [rMul, Vector.get_ofFn]
  by_cases inside : i.val < F.rank
  · rw [if_pos inside, rMulRow, Scalar.addOver_real, zero_add]
    refine Finset.sum_congr rfl fun j _ => ?_
    by_cases right : i ≤ j
    · rw [if_pos (decide_eq_true right)]
    · rw [if_neg (ne_true_of_eq_false (decide_eq_false right)), F.r_of_gt (not_le.mp right),
        zero_mul]
  · rw [if_neg inside]
    refine (Finset.sum_eq_zero fun j _ => ?_).symm
    rw [r_of_rank_le F (not_lt.mp inside), zero_mul]

theorem Factors.rMul_rSolve (factors : F.Factors A) (c : Vector ℝ n) {i : Fin n}
    (inside : i.val < F.rank) : F.rMul (F.rSolve c) i = c i := by
  rw [rMul_apply]
  exact factors.rSolve_rows c ⟨i, inside⟩

theorem Factors.rSolve_rMul (factors : F.Factors A) (full : F.rank = n) (x : Vector ℝ n) :
    F.rSolve (F.rMul x) = x := by
  let solved := F.rSolve (F.rMul x)
  have difference : (fun j => solved (F.perm.get j) - x (F.perm.get j)) = 0 := by
    refine factors.eq_zero_of_rows full fun i => ?_
    have same : F.rMul solved (F.topCol i) = F.rMul x (F.topCol i) :=
      factors.rMul_rSolve (F.rMul x) i.isLt
    rw [rMul_apply, rMul_apply] at same
    simp only [mul_sub, Finset.sum_sub_distrib, same, sub_self]
  refine Vector.ext_get fun p => ?_
  obtain ⟨j, rfl⟩ := factors.bijective.surjective p
  exact sub_eq_zero.mp (congrFun difference j)

theorem Factors.rtSolve_rows (factors : F.Factors A) (c : Vector ℝ n) :
    (∀ j : Fin n, j.val < F.rank → ((Matrix.of F.r)ᵀ *ᵥ (F.rtSolve c).get) j = c j) ∧
      ∀ j : Fin n, F.rank ≤ j.val → F.rtSolve c j = 0 := by
  obtain ⟨zeros, rows⟩ := forwardSubstitute_spec c F.upper_r factors.r_diag_ne_zero
  exact ⟨rows, zeros⟩

theorem Factors.rMul_minimumNorm (factors : F.Factors A) (inner : F.inner.rank = F.rank)
    (c : Vector ℝ n) :
    ∃ x, F.minimumNorm c = .ok x ∧ ∀ i : Fin n, i.val < F.rank → F.rMul x i = c i := by
  obtain ⟨x, solved, rows, -⟩ :=
    factors.minimumNorm_spec (factors.inner_discarded_iff.mpr inner) c
  refine ⟨x, solved, fun i inside => ?_⟩
  rw [rMul_apply]
  exact rows ⟨i, inside⟩

theorem Factors.rMul_eq_qtMul (factors : F.Factors A) (x : Vector ℝ n) (i : Fin F.rank) :
    F.rMul x (F.topCol i) = F.qtMul (Vector.ofFn (A.toMatrix *ᵥ x.get)) (F.topRow i) := by
  have image : (Vector.ofFn (A.toMatrix *ᵥ x.get)).get = A.toMatrix *ᵥ x.get :=
    funext fun i => Vector.get_ofFn _ i
  have turned := congrFun (factors.turned_mulVec x.get) (F.topRow i)
  have product := congrFun (F.qtMul_real (Vector.ofFn (A.toMatrix *ᵥ x.get))) (F.topRow i)
  rw [factors.turned_mulVec_top] at turned
  rw [image] at product
  rw [rMul_apply]
  exact turned.trans product.symm

/-! ## Arrays -/

section Arrays

variable {α : Type} [Scalar α]

theorem storage_rMul_toArray (F : Factorization α m n) (x : Vector α n) {out : Array α}
    (room : F.rank ≤ out.size) : F.storage.rMul x.toArray out =
      some (.succeed (leading out.size (F.rMul x).toArray).toArray) := by
  rw [storage_rMul, rMulInto, checkLength_self x.size_toArray, checkAtLeast_eq_ok.mpr room,
    leading_self]
  rfl

theorem storage_rtSolve_succeeds (F : Factorization α m n) {c y : Array α}
    (enough : F.rank ≤ c.size) (room : F.rank ≤ y.size) : F.storage.rtSolve c y =
      some (.succeed (leading y.size (F.rtSolve (leading n c)).toArray).toArray) := by
  rw [storage_rtSolve, rtSolveInto, checkAtLeast_eq_ok.mpr (le_min room enough)]
  rfl

theorem storage_rSolve_succeeds {F : Factorization α m n}
    (bijective : Function.Bijective F.perm.get) {c x : Array α} (length : x.size = n)
    (enough : F.rank ≤ c.size) (positive : F.rank ≠ 0) :
    F.storage.rSolve c x = some (.succeed (F.rSolve (leading n c)).toArray) := by
  rw [storage_rSolve bijective, F.rSolveInto_ok length enough positive]
  rfl

end Arrays

theorem storage_minimumNorm_succeeds (F : Factorization ℝ m n) {c x : Array ℝ} {W : Stored ℝ}
    (used : W.Used n) (K : Scratch ℝ n) (length : x.size = n) (enough : F.rank ≤ c.size)
    {y : Vector ℝ n} (solved : F.minimumNorm (leading n c) = .ok y) :
    ∃ W', F.storage.minimumNorm c { x, transposed := W } K.stack K.cells =
      some (.succeed { x := y.toArray, transposed := W' }) := by
  obtain ⟨I, rfl⟩ := used.storage
  let B : SolveBuffers ℝ := { x, workspace := ⟨I⟩ }
  obtain ⟨result, written⟩ := F.minimumNormInto_ok (B := B) length rfl enough solved
  have run := F.storage_minimumNorm c B K.stack_room K.cells_room
  cases call : F.minimumNormInto c B with
  | mk buffers outcome =>
      rw [call] at result written run
      obtain rfl : outcome = .ok () := result
      have left : buffers.storage = { x := y.toArray, transposed := buffers.storage.transposed } :=
        congrArg (fun x => { buffers.storage with x }) written
      exact ⟨_, run.trans (congrArg (some ∘ InPlace.succeed) left)⟩

theorem read_product (F : Factorization ℝ m n) (x : Vector ℝ n) {out rhs : Array ℝ}
    (room : F.rank ≤ out.size) (enough : F.rank ≤ rhs.size)
    (rows : ∀ i : Fin n, i.val < F.rank → F.rMul x i = leading n rhs i) :
    ∀ i < F.rank, (leading out.size (F.rMul x).toArray).toArray[i]? = rhs[i]? := by
  intro i inside
  let row : Fin n := ⟨i, inside.trans_le F.rank_le_cols⟩
  have written := read_leading (F.rMul x) (j := row) (inside.trans_le room)
  have given := read_enough (j := row) (inside.trans_le enough)
  rw [rows row inside] at written
  exact written.trans given.symm

/-- At full rank the triangular solve takes a product back. Without columns it refuses, and the
empty vector stands in its output all the same. -/
theorem Factors.storage_rSolve_product (factors : F.Factors A) (full : F.rank = n)
    {out y : Array ℝ} (room : F.rank ≤ out.size) (length : y.size = n) (x : Vector ℝ n) :
    F.storage.rSolve (leading out.size (F.rMul x).toArray).toArray y = some
      { buffers := x.toArray
        result := if n = 0 then .error (.singularMatrix 0 0) else .ok () } := by
  let product := (leading out.size (F.rMul x).toArray).toArray
  have enough : F.rank ≤ product.size := room.trans_eq (Vector.size_toArray _).symm
  by_cases empty : n = 0
  · subst empty
    rw [storage_rSolve factors.bijective, rSolveInto, checkLength_self length,
      checkAtLeast_eq_ok.mpr enough, if_pos full, if_pos rfl]
    have none : y = x.toArray := by
      rw [Array.eq_empty_of_size_eq_zero length, Array.eq_empty_of_size_eq_zero x.size_toArray]
    rw [none]
    rfl
  · have product_eq : leading n product = F.rMul x := by
      refine Vector.ext_get fun j => ?_
      exact Option.some.inj ((read_enough (j.isLt.trans_le (full.ge.trans enough))).symm.trans
        (read_leading (F.rMul x) (j.isLt.trans_le (full.ge.trans room))))
    rw [storage_rSolve_succeeds factors.bijective length enough (full.trans_ne empty), product_eq,
      factors.rSolve_rMul full, if_neg empty]
    rfl

theorem transposed_leading {y : Vector ℝ n} {length : Nat} (room : F.rank ≤ length)
    (zeros : ∀ j : Fin n, F.rank ≤ j.val → y j = 0) :
    leading n (leading length y.toArray).toArray = y := by
  refine Vector.ext_get fun j => ?_
  by_cases inside : j.val < length
  · exact Option.some.inj ((read_enough (by simpa using inside)).symm.trans
      (read_leading y inside))
  · rw [zeros j (room.trans (not_lt.mp inside)), leading_get, Array.getD_eq_getD_getElem?,
      Array.getElem?_eq_none (by simpa using inside)]
    rfl

theorem read_zeros {y : Vector ℝ n} {length : Nat} (zeros : ∀ j : Fin n, F.rank ≤ j.val → y j = 0)
    {j : Nat} (behind : F.rank ≤ j) (fits : j < length) :
    (leading length y.toArray).toArray[j]? = some 0 := by
  by_cases column : j < n
  · rw [read_leading y (j := ⟨j, column⟩) fits, zeros _ behind]
  · have past : y.toArray[j]? = none := Array.getElem?_eq_none (by simpa using column)
    refine (Storage.read (leading length y.toArray) ⟨j, fits⟩).trans ?_
    rw [leading_get, Array.getD_eq_getD_getElem?, past]
    rfl

/-- How the programs for the product with `R P'` and for the solves undo each other, on arrays of
any lengths that pass. -/
structure Inverts (A : DenseMatrix ℝ m n) (F : Factorization ℝ m n) : Prop where
  triangular (rhs x out : Array ℝ) :
    F.rank ≤ rhs.size → x.size = n → F.rank ≤ out.size → 1 ≤ F.rank →
      ∃ y z, F.storage.rSolve rhs x = some (.succeed y) ∧
        F.storage.rMul y out = some (.succeed z) ∧ ∀ i < F.rank, z[i]? = rhs[i]?
  product (x : Vector ℝ n) (out y : Array ℝ) : F.rank = n → F.rank ≤ out.size → y.size = n →
    ∃ rhs, F.storage.rMul x.toArray out = some (.succeed rhs) ∧
      F.storage.rSolve rhs y = some
        { buffers := x.toArray
          result := if n = 0 then .error (.singularMatrix 0 0) else .ok () }
  transposed (rhs y : Array ℝ) : F.rank ≤ rhs.size → F.rank ≤ y.size →
    ∃ z, F.storage.rtSolve rhs y = some (.succeed z) ∧ z.size = y.size ∧
      (∀ j : Fin n, j.val < F.rank →
        rhs[j.val]? = some (((Matrix.of F.r)ᵀ *ᵥ (leading n z).get) j)) ∧
      ∀ j, F.rank ≤ j → j < z.size → z[j]? = some 0
  minimumNorm {W : Stored ℝ} : W.Used n → ∀ (K : Scratch ℝ n) (rhs x out : Array ℝ),
    F.rank ≤ rhs.size → x.size = n → F.rank ≤ out.size → F.inner.rank = F.rank →
      ∃ y W' z, F.storage.minimumNorm rhs { x, transposed := W } K.stack K.cells =
          some (.succeed { x := y, transposed := W' }) ∧
        F.storage.rMul y out = some (.succeed z) ∧ ∀ i < F.rank, z[i]? = rhs[i]?
  image (x : Vector ℝ n) (out : Array ℝ) : F.rank ≤ out.size →
    ∃ b z, F.storage.qtMul (Vector.ofFn (A.toMatrix *ᵥ x.get)).toArray = some (.succeed b) ∧
      F.storage.rMul x.toArray out = some (.succeed z) ∧ ∀ i < F.rank, z[i]? = b[i]?

theorem storage_inverts (A : DenseMatrix ℝ m n) : (ofMatrix A).Inverts A := by
  let F := ofMatrix A
  have factors : F.Factors A := ofMatrix_factors A
  constructor
  case triangular =>
    intro rhs x out enough length room positive
    let solved := F.rSolve (leading n rhs)
    have solves : F.storage.rSolve rhs x = some (.succeed solved.toArray) :=
      storage_rSolve_succeeds factors.bijective length enough (Nat.one_le_iff_ne_zero.mp positive)
    exact ⟨_, _, solves, F.storage_rMul_toArray solved room,
      F.read_product solved room enough fun _ inside => factors.rMul_rSolve _ inside⟩
  case product =>
    intro x out y full room length
    exact ⟨_, F.storage_rMul_toArray x room, factors.storage_rSolve_product full room length x⟩
  case transposed =>
    intro rhs y enough room
    obtain ⟨rows, zeros⟩ := factors.rtSolve_rows (leading n rhs)
    refine ⟨_, F.storage_rtSolve_succeeds enough room, Vector.size_toArray _, fun j inside => ?_,
      fun j behind fits => ?_⟩
    · rw [read_enough (inside.trans_le enough), ← rows j inside,
        transposed_leading room fun j => zeros j]
    · exact read_zeros zeros behind (by simpa using fits)
  case minimumNorm =>
    intro W used K rhs x out enough length room inner
    obtain ⟨y, solved, rows⟩ := factors.rMul_minimumNorm inner (leading n rhs)
    obtain ⟨W', run⟩ := F.storage_minimumNorm_succeeds used K length enough solved
    exact ⟨_, W', _, run, F.storage_rMul_toArray y room, F.read_product y room enough rows⟩
  case image =>
    intro x out room
    let image := Vector.ofFn (A.toMatrix *ᵥ x.get)
    refine ⟨_, _, F.storage_qtMul_toArray image, F.storage_rMul_toArray x room,
      fun i inside => ?_⟩
    have top := factors.rMul_eq_qtMul x ⟨i, inside⟩
    have written := read_leading (F.rMul x) (j := F.topCol ⟨i, inside⟩) (inside.trans_le room)
    exact written.trans ((congrArg some top).trans
      (Storage.read (F.qtMul image) (F.topRow ⟨i, inside⟩)).symm)

theorem storage_inverts_ones :
    let F := ofMatrix ones
    F.rank = 1 ∧ F.inner.rank = F.rank ∧
      (∃ y z, F.storage.rSolve #[7] #[0] = some (.succeed y) ∧
        F.storage.rMul y #[0] = some (.succeed z) ∧ z[0]? = some 7) ∧
      (∃ rhs, F.storage.rMul #[7] #[0] = some (.succeed rhs) ∧
        F.storage.rSolve rhs #[0] = some (.succeed #[7])) ∧
      (∃ z, F.storage.rtSolve #[7] #[0, 8] = some (.succeed z) ∧ z[1]? = some 0) ∧
      ∃ y W z, F.storage.minimumNorm #[7]
          { x := #[0], transposed := .around ⟨(.zeros : DenseMatrix ℝ 1 1)⟩ }
          (Scratch.filled 0 : Scratch ℝ 1).stack (Scratch.filled 0 : Scratch ℝ 1).cells =
          some (.succeed { x := y, transposed := W }) ∧
        F.storage.rMul y #[0] = some (.succeed z) ∧ z[0]? = some 7 := by
  intro F
  have factors : F.Factors ones := ofMatrix_factors ones
  have rank : F.rank = 1 := ones_rank
  have fits : F.rank ≤ 1 := rank.le
  have small : (Reduction.tolerance 1 1 : ℝ) < 1 := Reduction.tolerance_lt_one (by decide)
  have inner : F.inner.rank = F.rank :=
    factors.inner_discarded_iff.mp (factors.inner_discarded_of_rank_le_one small fits)
  have inverts : F.Inverts ones := storage_inverts ones
  have first : 0 < F.rank := rank.symm ▸ one_pos
  obtain ⟨y, z, solved, product, same⟩ := inverts.triangular #[7] #[0] #[0] fits rfl fits rank.ge
  obtain ⟨rhs, multiplied, back⟩ := inverts.product #v[7] #[0] #[0] rank fits rfl
  obtain ⟨t, turned, length, -, zeros⟩ :=
    inverts.transposed #[7] #[0, 8] fits (fits.trans one_le_two)
  obtain ⟨v, W, w, shortest, image, rows⟩ :=
    inverts.minimumNorm .fresh (Scratch.filled 0) #[7] #[0] #[0] fits rfl fits inner
  exact ⟨rank, inner, ⟨y, z, solved, product, same 0 first⟩, ⟨rhs, multiplied, back⟩,
    ⟨t, turned, zeros 1 fits (length ▸ one_lt_two)⟩, v, W, w, shortest, image, rows 0 first⟩

end Factorization

end LeastSquares

import LeastSquares.Proofs.QR.Damped

/-!
# Damping as more rows

If the factorization of `A` discards nothing, the damped solution for the right-hand side `Q' b` is
the least-squares solution of `A` stacked on the diagonal matrix of the damping. Factoring the
stacked matrix gives the same vector, as long as that factorization discards nothing either: it may
call columns dependent that only a tiny damping keeps apart.
-/

set_option autoImplicit false

namespace LeastSquares

open Matrix

variable {m n : Nat}

def DenseMatrix.stack {α : Type} [Zero α] (A : DenseMatrix α m n) (d : Vector α n) :
    DenseMatrix α (m + n) n :=
  .ofFn fun i j => Fin.addCases (fun i => A.get i j) (fun k => if k = j then d k else 0) i

/-- `‖A x - b‖² + ‖D x‖²`, for the diagonal matrix `D` of `d`. -/
noncomputable def dampedSquare (A : Matrix (Fin m) (Fin n) ℝ) (b : Fin m → ℝ) (d x : Fin n → ℝ) :
    ℝ :=
  euclid (A *ᵥ x - b) ^ 2 + euclid (diagonal d *ᵥ x) ^ 2

theorem euclid_sq {ι : Type} [Fintype ι] (v : ι → ℝ) : euclid v ^ 2 = v ⬝ᵥ v :=
  Real.sq_sqrt (dot_self_nonneg v)

theorem fromRows_residual (A : Matrix (Fin m) (Fin n) ℝ) (b : Fin m → ℝ) (d x : Fin n → ℝ) :
    (fromRows A (diagonal d) *ᵥ x - Sum.elim b 0) ⬝ᵥ (fromRows A (diagonal d) *ᵥ x - Sum.elim b 0) =
      dampedSquare A b d x := by
  rw [fromRows_mulVec, ← Sum.elim_sub_sub, sumElim_dotProduct_sumElim, sub_zero, dampedSquare,
    euclid_sq, euclid_sq]

theorem stack_toMatrix (A : DenseMatrix ℝ m n) (d : Vector ℝ n) :
    (A.stack d).toMatrix =
      (fromRows A.toMatrix (diagonal d.get)).submatrix finSumFinEquiv.symm id := by
  ext i j
  have entry : (A.stack d).toMatrix i j =
      Fin.addCases (fun i => A.get i j) (fun k => if k = j then d k else 0) i :=
    DenseMatrix.get_ofFn _ i j
  rw [entry]
  induction i using Fin.addCases with
  | left i =>
      rw [Fin.addCases_left, submatrix_apply, finSumFinEquiv_symm_apply_castAdd]
      rfl
  | right k =>
      rw [Fin.addCases_right, submatrix_apply, finSumFinEquiv_symm_apply_natAdd]
      rfl

theorem append_zeros_get (b : Vector ℝ m) :
    (b ++ Vector.replicate n (0 : ℝ)).get = Sum.elim b.get 0 ∘ finSumFinEquiv.symm := by
  funext i
  induction i using Fin.addCases with
  | left i =>
      rw [Function.comp_apply, finSumFinEquiv_symm_apply_castAdd]
      exact Vector.getElem_append_left i.isLt
  | right k =>
      rw [Function.comp_apply, finSumFinEquiv_symm_apply_natAdd]
      change (b ++ Vector.replicate n (0 : ℝ))[m + k.val] = 0
      rw [Vector.getElem_append_right (by omega) (Nat.le_add_right m k.val),
        Vector.getElem_replicate]

theorem stack_mulVec (A : DenseMatrix ℝ m n) (d : Vector ℝ n) (x : Fin n → ℝ) :
    (A.stack d).toMatrix *ᵥ x =
      Sum.elim (A.toMatrix *ᵥ x) (diagonal d.get *ᵥ x) ∘ finSumFinEquiv.symm := by
  rw [stack_toMatrix, ← fromRows_mulVec]
  rfl

theorem stack_residual (A : DenseMatrix ℝ m n) (b : Vector ℝ m) (d : Vector ℝ n) (x : Fin n → ℝ) :
    ((A.stack d).toMatrix *ᵥ x - (b ++ Vector.replicate n (0 : ℝ)).get) ⬝ᵥ
        ((A.stack d).toMatrix *ᵥ x - (b ++ Vector.replicate n (0 : ℝ)).get) =
      dampedSquare A.toMatrix b.get d.get x := by
  have residual : (A.stack d).toMatrix *ᵥ x - (b ++ Vector.replicate n (0 : ℝ)).get =
      (fromRows A.toMatrix (diagonal d.get) *ᵥ x - Sum.elim b.get 0) ∘ finSumFinEquiv.symm := by
    rw [stack_mulVec, append_zeros_get, fromRows_mulVec]
    rfl
  rw [← fromRows_residual, residual, comp_equiv_dotProduct_comp_equiv]

namespace Factorization

variable {F : Factorization ℝ m n} {A : DenseMatrix ℝ m n}

theorem Factors.residual_eq (factors : F.Factors A) (nothing : F.discarded = 0) (b : Fin m → ℝ) :
    ∃ rest : ℝ, ∀ x : Fin n → ℝ, (A.toMatrix *ᵥ x - b) ⬝ᵥ (A.toMatrix *ᵥ x - b) =
      (F.topRows *ᵥ (x ∘ F.perm.get) - (F.orthogonalᵀ *ᵥ b) ∘ F.topRow) ⬝ᵥ
        (F.topRows *ᵥ (x ∘ F.perm.get) - (F.orthogonalᵀ *ᵥ b) ∘ F.topRow) + rest := by
  refine ⟨∑ i : {i : Fin m // F.rank ≤ i.val},
    (F.orthogonalᵀ *ᵥ b) i.val * (F.orthogonalᵀ *ᵥ b) i.val, fun x => ?_⟩
  let r := F.turned A *ᵥ (x ∘ F.perm.get) - F.orthogonalᵀ *ᵥ b
  have rotated : (A.toMatrix *ᵥ x - b) ⬝ᵥ (A.toMatrix *ᵥ x - b) = r ⬝ᵥ r := by
    have same := factors.euclid_transpose_mulVec (A.toMatrix *ᵥ x - b)
    rw [mulVec_sub, ← factors.turned_mulVec] at same
    rw [← euclid_sq, ← euclid_sq, ← same]
  rw [rotated, dotProduct, ← (F.split_bijective F.rank_le_rows).sum_comp fun i => r i * r i,
    Fintype.sum_sum_type]
  refine congrArg₂ (· + ·) (Finset.sum_congr rfl fun i _ => ?_) (Finset.sum_congr rfl fun i _ => ?_)
  · have top : r (F.topRow i) =
        (F.topRows *ᵥ (x ∘ F.perm.get) - (F.orthogonalᵀ *ᵥ b) ∘ F.topRow) i :=
      congrArg (· - (F.orthogonalᵀ *ᵥ b) (F.topRow i)) (factors.turned_mulVec_top _ i)
    exact congrArg (fun t => t * t) top
  · have low : r i.val = -(F.orthogonalᵀ *ᵥ b) i.val := by
      change (F.turned A *ᵥ (x ∘ F.perm.get)) i.val - (F.orthogonalᵀ *ᵥ b) i.val = _
      rw [factors.turned_mulVec_of_rank_le nothing _ i.property, zero_sub]
    exact (congrArg (fun t => t * t) low).trans (neg_mul_neg _ _)

theorem Factors.dampedSolve_stacked (factors : F.Factors A) (nothing : F.discarded = 0)
    (b : Vector ℝ m) (d : Vector ℝ n)
    (nonzero : ∀ j, (F.dampedTriangle (leading n (F.qtMul b).toArray) d).entry j j ≠ 0) :
    IsOnlyMinimizer (A.stack d).toMatrix (b ++ Vector.replicate n (0 : ℝ)).get
      (F.dampedSolve (leading n (F.qtMul b).toArray) d).get := by
  obtain ⟨rest, residual⟩ := factors.residual_eq nothing b.get
  refine (factors.dampedSolve_isOnlyMinimizer _ d nonzero).of_residual rest fun x => ?_
  have top : leading n (F.qtMul b).toArray ∘ F.topCol = (F.orthogonalᵀ *ᵥ b.get) ∘ F.topRow :=
    funext fun i => F.leading_qtMul b i
  rw [stack_residual, dampedSquare, euclid_sq, euclid_sq, residual, damped_mulVec, top,
    ← Sum.elim_sub_sub, sumElim_dotProduct_sumElim, sub_zero]
  ring

theorem Factors.leastSquares_stack (factors : F.Factors A) (nothing : F.discarded = 0)
    (b : Vector ℝ m) (d : Vector ℝ n)
    (nonzero : ∀ j, (F.dampedTriangle (leading n (F.qtMul b).toArray) d).entry j j ≠ 0)
    (room : Allocatable (n * n)) (stackedNothing : (ofMatrix (A.stack d)).discarded = 0) :
    AnyMatrix.leastSquares ⟨A.stack d⟩ (b ++ Vector.replicate n (0 : ℝ)).toArray =
      .ok (F.dampedSolve (leading n (F.qtMul b).toArray) d).toArray := by
  have only := factors.dampedSolve_stacked nothing b d nonzero
  have stacked := ofMatrix_factors (A.stack d)
  have full : (ofMatrix (A.stack d)).rank = n := by
    rw [stacked.rank_eq_iff.mpr stackedNothing]
    exact rank_of_independent only.independent
  have innerNothing : (ofMatrix (A.stack d)).fullRank = false →
      (ofMatrix (A.stack d)).inner.discarded = 0 := by
    intro short
    have empty : n = 0 := by
      by_contra positive
      rw [stacked.fullRank_iff.mpr ⟨Nat.pos_of_ne_zero positive, full⟩] at short
      exact absurd short (by decide)
    refine discarded_of_rank_eq _ ?_
    have inside := (ofMatrix (A.stack d)).inner.rank_le
    omega
  obtain ⟨x, solved, shortest⟩ := stacked.triangularSolve_shortest stackedNothing innerNothing
    (b ++ Vector.replicate n (0 : ℝ))
  have same : x = F.dampedSolve (leading n (F.qtMul b).toArray) d :=
    Vector.ext_get (congrFun (shortest.unique only.isShortestMinimizer))
  rw [← same]
  exact AnyMatrix.leastSquares_ok ⟨A.stack d⟩ _ room solved

/-- The damped solve leaves an upper triangular `S` with `S' S = R' R + (P' D P)²`, and if its
diagonal has no zero, the only minimizer of `‖[R P'; D] x - [c; 0]‖`. For `c = Q' b`, where nothing
was discarded, that is the only minimizer of `‖A x - b‖² + ‖D x‖²`, and what the least-squares solve
of `A` stacked on `D` returns if nothing is discarded there either. -/
theorem dampedInto_solves (A : DenseMatrix ℝ m n) (c : Array ℝ) (d : Vector ℝ n)
    (workspace : Workspace ℝ) (B : DampedBuffers ℝ) (length : B.x.size = n)
    (rows : B.s.nrows = n) (cols : B.s.ncols = n) (fits : workspace.ncols = n)
    (enough : (ofMatrix A).rank ≤ c.size) :
    let F := ofMatrix A
    let P := F.perm.toMatrix
    let D := diagonal d.get
    ∃ (S : DenseMatrix ℝ n n) (x : Vector ℝ n),
      F.dampedInto c d.toArray workspace B =
        { buffers := { s := ⟨S⟩, x := x.toArray }, result := .ok () } ∧
      (∀ i j, j < i → S.get i j = 0) ∧
      S.toMatrixᵀ * S.toMatrix = F.topRowsᵀ * F.topRows + (Pᵀ * D * P) ^ 2 ∧
      ((∀ p, d p ≠ 0) → ∀ i, S.get i i ≠ 0) ∧
      ((∀ i, S.get i i ≠ 0) →
        IsOnlyMinimizer (fromRows (F.topRows * Pᵀ) D)
          (Sum.elim (fun i : Fin F.rank => c.getD i 0) 0) x.get ∧
        ∀ b : Vector ℝ m, c = (F.qtMul b).toArray → F.discarded = 0 →
          (∀ y, y ≠ x.get →
            dampedSquare A.toMatrix b.get d.get x.get < dampedSquare A.toMatrix b.get d.get y) ∧
          ((ofMatrix (A.stack d)).discarded = 0 → Allocatable (n * n) →
            AnyMatrix.leastSquares ⟨A.stack d⟩ (b ++ Vector.replicate n (0 : ℝ)).toArray =
              .ok x.toArray)) := by
  intro F P D
  have factors : F.Factors A := ofMatrix_factors A
  have entry (i j : Fin n) : (F.dampedTriangle (leading n c) d).toMatrix.get i j =
      (F.dampedTriangle (leading n c) d).entry i j := DenseMatrix.get_ofFn _ i j
  refine ⟨_, _, F.dampedInto_ok d workspace length rows cols fits enough, fun i j below => ?_, ?_,
    fun all i => ?_, fun diagonal => ?_⟩
  · rw [entry]
    exact (F.dampedTriangle_pairing (leading n c) d).1 i j below
  · rw [Triangle.toMatrix_toMatrix]
    exact factors.dampedTriangle_gram (leading n c) d
  · rw [entry]
    refine F.dampedTriangle_diag (leading n c) d (fun z _ damped => funext fun j => ?_) i
    exact (mul_eq_zero.mp (damped j)).resolve_left (all _)
  · have nonzero (j : Fin n) : (F.dampedTriangle (leading n c) d).entry j j ≠ 0 := by
      rw [← entry]
      exact diagonal j
    refine ⟨?_, ?_⟩
    · have rhs : leading n c ∘ F.topCol = fun i : Fin F.rank => c.getD i 0 :=
        funext fun i => leading_get c (F.topCol i)
      have only := factors.dampedSolve_isOnlyMinimizer (leading n c) d nonzero
      rw [rhs] at only
      exact only
    · rintro b rfl nothing
      refine ⟨fun y other => ?_, fun stackedNothing room =>
        factors.leastSquares_stack nothing b d nonzero room stackedNothing⟩
      rw [← stack_residual, ← stack_residual]
      exact euclid_lt_iff.mp (factors.dampedSolve_stacked nothing b d nonzero y other)

theorem dampedInto_all_damped :
    let A : DenseMatrix ℝ 1 2 := .ofFn fun _ _ => 1
    let F := ofMatrix A
    ∃ (S : DenseMatrix ℝ 2 2) (x : Vector ℝ 2),
      F.dampedInto #[3] #[1, 1] ⟨(blank : Factorization ℝ 2 2)⟩
          { s := ⟨(.zeros : DenseMatrix ℝ 2 2)⟩, x := #[0, 0] } =
        { buffers := { s := ⟨S⟩, x := x.toArray }, result := .ok () } ∧
      IsOnlyMinimizer (fromRows (F.topRows * F.perm.toMatrixᵀ) (diagonal #v[(1 : ℝ), 1].get))
        (Sum.elim (fun i : Fin F.rank => (#[3] : Array ℝ).getD i 0) 0) x.get := by
  intro A F
  obtain ⟨S, x, written, _, _, diagonal, solves⟩ := dampedInto_solves A #[3] #v[1, 1]
    ⟨(blank : Factorization ℝ 2 2)⟩ { s := ⟨(.zeros : DenseMatrix ℝ 2 2)⟩, x := #[0, 0] }
    rfl rfl rfl rfl F.rank_le_rows
  refine ⟨S, x, written, (solves (diagonal fun p => ?_)).1⟩
  fin_cases p <;> exact one_ne_zero

/-! ## A tiny damping -/

theorem Factors.dampedTriangle_diag (factors : F.Factors A) (nothing : F.discarded = 0)
    (c d : Vector ℝ n)
    (independent : ∀ y, A.toMatrix *ᵥ y = 0 → (∀ p, d p * y p = 0) → y = 0) (i : Fin n) :
    (F.dampedTriangle c d).entry i i ≠ 0 := by
  refine F.dampedTriangle_diag c d (fun z rows damped => ?_) i
  have turned : F.turned A *ᵥ z = 0 := by
    funext i
    by_cases inside : i.val < F.rank
    · exact (factors.turned_mulVec_top z ⟨i.val, inside⟩).trans (congrFun rows ⟨i.val, inside⟩)
    · exact factors.turned_mulVec_of_rank_le nothing z (not_lt.mp inside)
  obtain ⟨y, rfl, product⟩ := factors.orthogonal_mulVec_turned z
  rw [turned, mulVec_zero] at product
  have zero : y = 0 := independent y product.symm fun p => by
    obtain ⟨j, rfl⟩ := factors.bijective.surjective p
    exact damped j
  rw [zero]
  rfl

theorem stack_gram (A : DenseMatrix ℝ m n) (d : Vector ℝ n) :
    (A.stack d).toMatrixᵀ * (A.stack d).toMatrix =
      A.toMatrixᵀ * A.toMatrix + diagonal d.get * diagonal d.get := by
  rw [stack_toMatrix, transpose_submatrix, submatrix_mul_equiv, transpose_fromRows,
    fromCols_mul_fromRows, diagonal_transpose, submatrix_id_id]

def twins : DenseMatrix ℝ 1 2 := .ofFn fun _ _ => 1

/-- A damping that keeps them apart, but less than a factorization can tell. -/
noncomputable def tiny : Vector ℝ 2 := #v[0, 0.5 ^ 120]

theorem twins_entry (i : Fin 1) (j : Fin 2) : twins.toMatrix i j = 1 := DenseMatrix.get_ofFn _ i j

theorem twins_discarded : (ofMatrix twins).discarded = 0 := by
  refine (ofMatrix_factors twins).discarded_of_one_row (p := 0) ?_ fun vanishes => ?_
  · exact Reduction.tolerance_lt_one (by decide)
  · have zero := congrFun vanishes 0
    rw [col_apply, twins_entry] at zero
    exact one_ne_zero zero

theorem twins_independent (y : Fin 2 → ℝ) (image : twins.toMatrix *ᵥ y = 0)
    (damped : ∀ p, tiny p * y p = 0) : y = 0 := by
  have positive : tiny 1 ≠ 0 := pow_ne_zero 120 (by norm_num)
  have second : y 1 = 0 := (mul_eq_zero.mp (damped 1)).resolve_left positive
  have both := congrFun image 0
  rw [mulVec, dotProduct, Fin.sum_univ_two, twins_entry, twins_entry, second] at both
  funext p
  fin_cases p
  · simpa using both
  · exact second

theorem twins_gram (p q : Fin 2) :
    ((twins.stack tiny).toMatrixᵀ * (twins.stack tiny).toMatrix) p q =
      1 + if p = q then tiny p * tiny p else 0 := by
  rw [stack_gram, Matrix.add_apply, mul_apply, Fin.sum_univ_one, transpose_apply, twins_entry,
    twins_entry, mul_one, diagonal_mul_diagonal, diagonal_apply]

theorem twins_rank_le : (ofMatrix (twins.stack tiny)).rank ≤ 1 := by
  -- The Gram determinant is the square of the damping, and two usable pivots make it larger.
  by_contra more
  have factors := ofMatrix_factors (twins.stack tiny)
  have full : (ofMatrix (twins.stack tiny)).rank = 2 := by
    have inside := (ofMatrix (twins.stack tiny)).rank_le_cols
    omega
  have det := factors.gram_det full
  rw [det_fin_two, twins_gram, twins_gram, twins_gram, twins_gram, Fin.prod_univ_two] at det
  have large (j : Fin 2) : 6 * (2 ^ 52)⁻¹ < |(ofMatrix (twins.stack tiny)).diag j| := by
    let p := (ofMatrix (twins.stack tiny)).perm.get j
    have square : (twins.stack tiny).toMatrix.col p ⬝ᵥ (twins.stack tiny).toMatrix.col p =
        1 + tiny p * tiny p := (twins_gram p p).trans (by rw [if_pos rfl])
    have column : 1 ≤ euclid ((twins.stack tiny).toMatrix.col p) := by
      rw [euclid, square, Real.one_le_sqrt]
      exact le_add_of_nonneg_right (mul_self_nonneg _)
    have tolerance : (Reduction.tolerance (1 + 2) 2 : ℝ) = 6 * (2 ^ 52)⁻¹ := by
      rw [Reduction.tolerance_real]
      change 2 * ((3 : ℕ) : ℝ) * (2 ^ 52)⁻¹ = _
      norm_num
    have usable := factors.usable j (j.isLt.trans_eq full.symm)
    rw [tolerance] at usable
    exact lt_of_le_of_lt (le_mul_of_one_le_right (by positivity) column) usable
  have both := mul_lt_mul'' (large 0) (large 1) (by positivity) (by positivity)
  have product := pow_lt_pow_left₀ both (by positivity) two_ne_zero
  rw [← abs_mul, sq_abs, ← det, show tiny 0 = 0 from rfl, show tiny 1 = 0.5 ^ 120 from rfl]
    at product
  norm_num at product

theorem twins_solution {b : Vector ℝ (1 + 2)} {x : Vector ℝ 2}
    (solved : AnyMatrix.leastSquares ⟨twins.stack tiny⟩ b.toArray = .ok x.toArray) :
    x ≠ #v[1, 0] := by
  let F := ofMatrix (twins.stack tiny)
  have factors : F.Factors (twins.stack tiny) := ofMatrix_factors (twins.stack tiny)
  have short : ¬ F.fullRank = true := fun full => by
    have two := (factors.fullRank_iff.mp full).2
    have one : F.rank ≤ 1 := twins_rank_le
    omega
  have innerNothing : F.inner.discarded = 0 :=
    factors.inner_discarded_of_rank_le_one (Reduction.tolerance_lt_one (by decide)) twins_rank_le
  obtain ⟨y, found, _, w, combination⟩ := factors.minimumNorm_spec innerNothing
    (leading 2 (F.qtMul b).toArray)
  have same : y = x := by
    have returned := AnyMatrix.leastSquares_ok ⟨twins.stack tiny⟩ b (by decide)
      ((if_neg short).trans found)
    rw [solved] at returned
    exact (Vector.toArray_inj.mp (Except.ok.inj returned)).symm
  have row (j : Fin 2) : x (F.perm.get j) = F.r 0 j * w 0 := by
    have below : F.r 1 j = 0 := F.r_of_rank_le twins_rank_le j
    rw [← same, combination, Fin.sum_univ_two, below, zero_mul, add_zero]
  rintro rfl
  obtain ⟨j, first⟩ := factors.bijective.surjective 0
  obtain ⟨k, second⟩ := factors.bijective.surjective 1
  have one := row j
  have zero := row k
  rw [first] at one
  rw [second] at zero
  have factor : w 0 ≠ 0 := by
    intro vanishes
    rw [vanishes, mul_zero] at one
    exact one_ne_zero one
  have gap : F.r 0 k = 0 := (mul_eq_zero.mp zero.symm).resolve_right factor
  have positive : 0 < F.rank := by
    by_contra none
    rw [F.r_of_rank_le (show F.rank ≤ (0 : Fin 2).val by omega), zero_mul] at one
    exact one_ne_zero one
  have inner := factors.diag_mul_r ⟨0, positive⟩ rfl k
  have gram := twins_gram (F.perm.get 0) (F.perm.get k)
  rw [show F.topCol ⟨0, positive⟩ = 0 from rfl, gap, mul_zero, gram] at inner
  split at inner
  · have square := mul_self_nonneg (tiny (F.perm.get 0))
    linarith
  · rw [add_zero] at inner
    exact zero_ne_one inner

/-- Where a tiny damping is all that keeps two equal columns apart, factoring the stacked matrix
calls them dependent, and the solve returns the shortest minimizer of another problem. -/
theorem leastSquares_stack_tiny :
    let F := ofMatrix twins
    let solved := F.dampedInto (F.qtMul #v[1]).toArray tiny.toArray ⟨(blank : Factorization ℝ 2 2)⟩
      { s := ⟨(.zeros : DenseMatrix ℝ 2 2)⟩, x := #[0, 0] }
    F.discarded = 0 ∧ (∀ i, i < 2 → solved.buffers.s.get? i i ≠ some 0) ∧
      solved.buffers.x = #[1, 0] ∧
      AnyMatrix.leastSquares ⟨twins.stack tiny⟩ #[1, 0, 0] ≠ .ok #[1, 0] := by
  intro F solved
  have factors : F.Factors twins := ofMatrix_factors twins
  have nonzero (j : Fin 2) :
      (F.dampedTriangle (leading 2 (F.qtMul #v[1]).toArray) tiny).entry j j ≠ 0 :=
    factors.dampedTriangle_diag twins_discarded _ tiny twins_independent j
  have enough : F.rank ≤ (F.qtMul #v[1]).toArray.size := by
    rw [Vector.size_toArray]
    exact F.rank_le_rows
  have written := F.dampedInto_ok (c := (F.qtMul #v[1]).toArray) tiny
    ⟨(blank : Factorization ℝ 2 2)⟩
    (B := { s := ⟨(.zeros : DenseMatrix ℝ 2 2)⟩, x := #[0, 0] }) rfl rfl rfl rfl enough
  have image : (twins.stack tiny).toMatrix *ᵥ #v[(1 : ℝ), 0].get =
      (#v[(1 : ℝ)] ++ Vector.replicate 2 (0 : ℝ)).get := by
    have reached : twins.toMatrix *ᵥ #v[(1 : ℝ), 0].get = #v[(1 : ℝ)].get := by
      funext i
      rw [mulVec, dotProduct, Fin.sum_univ_two, twins_entry, twins_entry, Subsingleton.elim i 0]
      norm_num [Vector.get_eq]
    have undamped : diagonal tiny.get *ᵥ #v[(1 : ℝ), 0].get = 0 := by
      funext p
      rw [mulVec_diagonal]
      fin_cases p
      · exact zero_mul _
      · exact mul_zero _
    rw [stack_mulVec, append_zeros_get, reached, undamped]
  have minimizes : IsMinimizer (twins.stack tiny).toMatrix
      (#v[(1 : ℝ)] ++ Vector.replicate 2 (0 : ℝ)).get #v[(1 : ℝ), 0].get :=
    (Normal.of_image image).isMinimizer
  have solution : F.dampedSolve (leading 2 (F.qtMul #v[1]).toArray) tiny = #v[1, 0] := by
    have only := factors.dampedSolve_stacked twins_discarded #v[1] tiny nonzero
    exact Vector.ext_get fun p => (congrFun (only.eq_of_isMinimizer minimizes) p).symm
  refine ⟨twins_discarded, fun i inside => ?_, ?_, fun same => ?_⟩
  · rw [show solved = _ from written, AnyMatrix.get?, dif_pos ⟨inside, inside⟩]
    intro zero
    refine nonzero ⟨i, inside⟩ ?_
    rw [← Option.some.inj zero]
    exact (DenseMatrix.get_ofFn _ _ _).symm
  · rw [show solved = _ from written, solution]
  · exact twins_solution (b := #v[1, 0, 0]) (x := #v[1, 0]) same rfl

end Factorization

end LeastSquares

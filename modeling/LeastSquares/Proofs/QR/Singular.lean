import LeastSquares.Proofs.QR.Stacked

/-!
# Damping that leaves the triangle singular

Where some columns are not damped, the triangle may keep zeros on its diagonal. A row with such a
zero is empty, its right-hand side included, so all rows can be solved at once. The solve does not
do that: it stops at the first zero and leaves all later unknowns zero, so it misses the minimum by
the right-hand sides that rotations have carried into rows behind it.
-/

set_option autoImplicit false

namespace LeastSquares

open Matrix

variable {m n : Nat}

theorem IsMinimizer.iff_of_excess {ι κ : Type} [Fintype ι] [Fintype κ] {M : Matrix ι κ ℝ}
    {b : ι → ℝ}
    {x y : κ → ℝ} (least : IsMinimizer M b y) {more : ℝ}
    (excess : (M *ᵥ x - b) ⬝ᵥ (M *ᵥ x - b) = (M *ᵥ y - b) ⬝ᵥ (M *ᵥ y - b) + more) :
    IsMinimizer M b x ↔ more = 0 := by
  have below := euclid_le_iff.mp (least x)
  constructor
  · intro minimizes
    have above := euclid_le_iff.mp (minimizes y)
    linarith
  · intro nothing z
    rw [nothing, add_zero] at excess
    exact (euclid_le_iff.mpr excess.le).trans (least z)

/-! ## Rows without a diagonal entry -/

namespace Triangle

/-- Whether every row with a zero on the diagonal is empty, its right-hand side included. -/
def Stepped (S : Triangle ℝ n) : Prop :=
  ∀ k, S.entry k k = 0 → (∀ i, S.entry k i = 0) ∧ S.rhs k = 0

end Triangle

namespace Folding

variable {S : Folding ℝ n}

theorem rotated_ne_zero (a : ℝ) {b : ℝ} (nonzero : b ≠ 0) :
    (givens a b).1 * a + (givens a b).2 * b ≠ 0 := by
  intro zero
  obtain ⟨unit, cleared⟩ := givens_spec a nonzero
  refine nonzero ?_
  linear_combination (givens a b).2 * zero + (givens a b).1 * cleared - b * unit

theorem rotate_stepped (stepped : S.Stepped) (k : Fin n) : (S.rotate k).Stepped := by
  by_cases zero : S.extra k = 0
  · rw [rotate_of_zero zero]
    exact stepped
  · intro j empty
    have other : j ≠ k := by
      rintro rfl
      rw [rotate_entry zero, if_pos rfl, if_pos le_rfl] at empty
      exact rotated_ne_zero _ zero empty
    rw [rotate_entry zero, if_neg other] at empty
    obtain ⟨entries, rhs⟩ := stepped j empty
    refine ⟨fun i => ?_, ?_⟩
    · rw [rotate_entry zero, if_neg other, entries i]
    · rw [rotate_rhs zero, if_neg other, rhs]

end Folding

namespace Triangle

variable {S : Triangle ℝ n}

theorem fold_stepped (stepped : S.Stepped) (j : Fin n) (d : ℝ) : (S.fold j d).Stepped := by
  rw [fold]
  split
  · exact stepped
  · refine foldl_carries _ (fun _ (T : Folding ℝ n) => T.Stepped) _ stepped fun k T holds => ?_
    split
    · exact Folding.rotate_stepped holds k
    · exact holds

/-! ## Where the solve stops -/

theorem leading_spec (S : Triangle ℝ n) :
    (∀ j : Fin n, j.val < S.leading → S.entry j j ≠ 0) ∧
      ∀ k : Fin n, S.leading = k.val → S.entry k k = 0 := by
  let found (t bound : Nat) : Prop :=
    (∀ j : Fin n, t ≤ j.val → j.val < bound → S.entry j j ≠ 0) ∧
      (∀ k : Fin n, bound = k.val → S.entry k k = 0) ∧ t ≤ bound
  have all : found 0 S.leading := by
    refine foldr_carries _ found n ⟨fun j late _ => ?_, fun k same => ?_, le_rfl⟩
      fun k bound holds => ?_
    · exact absurd j.isLt (not_lt.mpr late)
    · exact absurd k.isLt (same ▸ lt_irrefl _)
    · obtain ⟨before, stops, later⟩ := holds
      split
      · rename_i zero
        refine ⟨fun j late early => absurd early (not_lt.mpr late), fun j same => ?_, le_rfl⟩
        rw [← Fin.ext same]
        exact beq_iff_eq.mp zero
      · rename_i nonzero
        refine ⟨fun j late early => ?_, stops, by omega⟩
        by_cases same : j = k
        · rw [same]
          exact fun zero => nonzero (beq_iff_eq.mpr zero)
        · exact before j (by
            have := Fin.val_ne_of_ne same
            omega) early
  exact ⟨fun j early => all.1 j (Nat.zero_le _) early, all.2.1⟩

theorem leading_le_iff (S : Triangle ℝ n) (k : Fin n) :
    S.leading ≤ k.val ↔ ∃ j, j ≤ k ∧ S.entry j j = 0 := by
  obtain ⟨before, zero⟩ := S.leading_spec
  constructor
  · intro stopped
    let first : Fin n := ⟨S.leading, by omega⟩
    exact ⟨first, stopped, zero first rfl⟩
  · rintro ⟨j, le, vanishes⟩
    by_contra inside
    exact before j (by omega) vanishes

/-- What the rows from the first zero on the diagonal on still ask for. -/
noncomputable def missed (S : Triangle ℝ n) : ℝ :=
  ∑ k : Fin n, if S.leading ≤ k.val then S.rhs k * S.rhs k else 0

theorem defect_solve_leading (upper : Upper S.entry) (k : Fin n) :
    S.defect k S.solve.get 1 = if S.leading ≤ k.val then -S.rhs k else 0 := by
  obtain ⟨outside, inside⟩ := backSubstitute_spec S.rhs upper fun j => S.leading_spec.1 j
  rw [defect, one_mul]
  split
  · rename_i stopped
    have term (i : Fin n) : S.entry k i * S.solve i = 0 := by
      by_cases before : i < k
      · rw [upper k i before, zero_mul]
      · rw [solve, outside i (stopped.trans (not_lt.mp before)), mul_zero]
    rw [Finset.sum_congr rfl fun i _ => term i, Finset.sum_const_zero, zero_sub]
  · rename_i solved
    exact sub_eq_zero.mpr (inside k (not_le.mp solved))

theorem pairing_solve (upper : Upper S.entry) :
    S.pairing S.solve.get 1 S.solve.get 1 = S.missed := by
  refine Finset.sum_congr rfl fun k _ => ?_
  rw [defect_solve_leading upper]
  split
  · exact neg_mul_neg _ _
  · exact mul_zero _

/-! ## What the solve misses -/

noncomputable def filled (S : Triangle ℝ n) : Triangle ℝ n :=
  { S with rows := .ofFn fun k => .ofFn fun i =>
      if i = k ∧ S.entry k k = 0 then 1 else S.entry k i }

theorem filled_entry (S : Triangle ℝ n) (k i : Fin n) :
    S.filled.entry k i = if i = k ∧ S.entry k k = 0 then 1 else S.entry k i := by
  rw [entry, filled, Vector.get_ofFn, Vector.get_ofFn]

theorem Stepped.solvable (stepped : S.Stepped) (upper : Upper S.entry) :
    ∃ z : Fin n → ℝ, ∀ k, S.defect k z 1 = 0 := by
  have above : Upper S.filled.entry := by
    intro i j below
    rw [filled_entry, if_neg fun both => below.ne both.1]
    exact upper i j below
  have diagonal (j : Fin n) : S.filled.entry j j ≠ 0 := by
    rw [filled_entry]
    split
    · exact one_ne_zero
    · rename_i other
      exact fun zero => other ⟨rfl, zero⟩
  refine ⟨S.filled.solve.get, fun k => ?_⟩
  by_cases empty : S.entry k k = 0
  · obtain ⟨entries, rhs⟩ := stepped k empty
    rw [defect, rhs, mul_zero, sub_zero]
    exact Finset.sum_eq_zero fun i _ => by rw [entries i, zero_mul]
  · have row := solve_rows above diagonal k
    have same (i : Fin n) : S.filled.entry k i = S.entry k i := by
      rw [filled_entry, if_neg fun both => empty both.2]
    rw [Finset.sum_congr rfl fun i _ => by rw [same i]] at row
    rw [defect, one_mul]
    exact sub_eq_zero.mpr row

theorem pairing_nonneg (S : Triangle ℝ n) (z : Fin n → ℝ) (t : ℝ) : 0 ≤ S.pairing z t z t :=
  dot_self_nonneg fun k => S.defect k z t

theorem missed_eq_zero_iff (S : Triangle ℝ n) :
    S.missed = 0 ↔ ∀ j k, S.entry j j = 0 → j ≤ k → S.rhs k = 0 := by
  have square (k : Fin n) : 0 ≤ if S.leading ≤ k.val then S.rhs k * S.rhs k else 0 := by
    split
    · exact mul_self_nonneg _
    · exact le_rfl
  rw [missed, Finset.sum_eq_zero_iff_of_nonneg fun k _ => square k]
  constructor
  · intro zeros j k zero le
    have term := zeros k (Finset.mem_univ k)
    rw [if_pos ((S.leading_le_iff k).mpr ⟨j, le, zero⟩)] at term
    exact mul_self_eq_zero.mp term
  · intro empty k _
    split
    · rename_i stopped
      obtain ⟨j, le, zero⟩ := (S.leading_le_iff k).mp stopped
      rw [empty j k zero le, mul_zero]
    · rfl

end Triangle

namespace Factorization

variable {F : Factorization ℝ m n} {A : DenseMatrix ℝ m n}

theorem Factors.triangle_stepped (factors : F.Factors A) (c : Vector ℝ n) :
    (F.triangle c).Stepped := by
  intro k zero
  have entry (i : Fin n) : (F.triangle c).entry k i = F.r k i := by
    rw [triangle, Triangle.entry, Vector.get_ofFn, Vector.get_ofFn]
  have low : F.rank ≤ k.val := by
    by_contra inside
    rw [entry] at zero
    exact factors.r_diag_ne_zero k (not_le.mp inside) zero
  refine ⟨fun i => ?_, ?_⟩
  · rw [entry, F.r_of_rank_le low]
  · rw [triangle, Vector.get_ofFn, if_neg (not_lt.mpr low)]

theorem Factors.dampedTriangle_stepped (factors : F.Factors A) (c d : Vector ℝ n) :
    (F.dampedTriangle c d).Stepped :=
  foldl_carries _ (fun _ (S : Triangle ℝ n) => S.Stepped) _ (factors.triangle_stepped c)
    fun k _ holds => Triangle.fold_stepped holds k _

theorem Factors.dampedSolve_excess (factors : F.Factors A) (c d : Vector ℝ n) :
    ∃ y, IsMinimizer (F.damped d) (Sum.elim (c ∘ F.topCol) 0) y ∧
      (F.damped d *ᵥ (F.dampedSolve c d).get - Sum.elim (c ∘ F.topCol) 0) ⬝ᵥ
          (F.damped d *ᵥ (F.dampedSolve c d).get - Sum.elim (c ∘ F.topCol) 0) =
        (F.damped d *ᵥ y - Sum.elim (c ∘ F.topCol) 0) ⬝ᵥ
          (F.damped d *ᵥ y - Sum.elim (c ∘ F.topCol) 0) + (F.dampedTriangle c d).missed := by
  obtain ⟨rest, residual⟩ := factors.damped_residual c d
  have upper := (F.dampedTriangle_pairing c d).1
  obtain ⟨z, solves⟩ := (factors.dampedTriangle_stepped c d).solvable upper
  let back := (Equiv.ofBijective _ factors.bijective).symm
  let y := z ∘ back
  have pivoted : y ∘ F.perm.get = z := funext fun j =>
    congrArg z ((Equiv.ofBijective _ factors.bijective).symm_apply_apply j)
  have least : (F.dampedTriangle c d).pairing z 1 z 1 = 0 :=
    Finset.sum_eq_zero fun k _ => by rw [solves, mul_zero]
  have solved : (F.dampedSolve c d).get ∘ F.perm.get = (F.dampedTriangle c d).solve.get :=
    funext fun j => Permutation.restore_get factors.bijective _ j
  refine ⟨y, fun w => ?_, ?_⟩
  · rw [euclid_le_iff, residual, residual, pivoted, least]
    exact add_le_add_left (Triangle.pairing_nonneg _ _ _) rest
  · rw [residual, residual, pivoted, least, solved, Triangle.pairing_solve upper]
    ring

/-- The damped solve returns a minimizer of `‖[R P'; D] x - [c; 0]‖` just if no row from the first
zero on the diagonal of `S` on has a right-hand side, and in general it misses the minimum by what
these right-hand sides amount to. -/
theorem dampedInto_minimizes_iff (A : DenseMatrix ℝ m n) (c : Array ℝ) (d : Vector ℝ n)
    (workspace : Workspace ℝ) (B : DampedBuffers ℝ) (length : B.x.size = n)
    (rows : B.s.nrows = n) (cols : B.s.ncols = n) (fits : workspace.ncols = n)
    (enough : (ofMatrix A).rank ≤ c.size) :
    let F := ofMatrix A
    let S := F.dampedTriangle (leading n c) d
    let M := fromRows (F.topRows * F.perm.toMatrixᵀ) (diagonal d.get)
    let b := Sum.elim (fun i : Fin F.rank => c.getD i 0) (0 : Fin n → ℝ)
    ∃ x : Vector ℝ n,
      F.dampedInto c d.toArray workspace B =
        { buffers := { s := ⟨S.toMatrix⟩, x := x.toArray }, result := .ok () } ∧
      (IsMinimizer M b x.get ↔ ∀ j k, S.entry j j = 0 → j ≤ k → S.rhs k = 0) ∧
      ∃ y, IsMinimizer M b y ∧
        euclid (M *ᵥ x.get - b) ^ 2 = euclid (M *ᵥ y - b) ^ 2 + S.missed := by
  intro F S M b
  have factors : F.Factors A := ofMatrix_factors A
  have rhs : leading n c ∘ F.topCol = fun i : Fin F.rank => c.getD i 0 :=
    funext fun i => leading_get c (F.topCol i)
  obtain ⟨y, least, excess⟩ := factors.dampedSolve_excess (leading n c) d
  rw [rhs] at least excess
  refine ⟨F.dampedSolve (leading n c) d, F.dampedInto_ok d workspace length rows cols fits enough,
    ?_, y, least, ?_⟩
  · rw [← Triangle.missed_eq_zero_iff]
    exact least.iff_of_excess excess
  · rw [euclid_sq, euclid_sq]
    exact excess

/-! ## A column that is skipped -/

def gapped : DenseMatrix ℝ 1 3 := .ofFn fun _ => ![5, 0, 4]

theorem gapped_entry (i : Fin 1) (j : Fin 3) : gapped.get i j = ![5, 0, 4] j :=
  DenseMatrix.get_ofFn _ i j

theorem gapped_rank : (ofMatrix gapped).rank = 1 := by
  have factors := ofMatrix_factors gapped
  have nonzero : gapped.toMatrix.col 0 ≠ 0 := by
    intro vanishes
    have zero : gapped.get 0 0 = 0 := congrFun vanishes 0
    rw [gapped_entry] at zero
    norm_num at zero
  refine le_antisymm (rank_le_rows _) (factors.rank_pos ?_ nonzero)
  exact Reduction.tolerance_lt_one (by decide)

/-- The first column is the longest, so no column moves. -/
theorem gapped_pivot : (Reduction.ofMatrix gapped).pivot 0 = 0 := by
  have remaining (j : Fin 3) :
      ((Reduction.ofMatrix gapped).cols j).remaining = ![25, 0, 16] j := by
    rw [Reduction.ofMatrix, Vector.get_ofFn, PivotColumn.ofColumn, Scalar.sumSquares_real]
    simp only [DenseMatrix.col, Vector.get_ofFn, gapped_entry, Fin.sum_univ_one]
    fin_cases j <;> norm_num
  obtain ⟨_, longest⟩ := (Reduction.ofMatrix gapped).pivot_spec 0
  have first := longest 0 le_rfl
  rw [remaining, remaining] at first
  generalize (Reduction.ofMatrix gapped).pivot 0 = p at first
  fin_cases p
  · rfl
  · norm_num at first
  · norm_num at first

theorem gapped_perm (j : Fin 3) : (ofMatrix gapped).perm.get j = j := by
  let step : Fin (min 1 3) := ⟨0, by decide⟩
  have brought (j : Fin 3) : (((Reduction.ofMatrix gapped).bringPivot 0).cols j).source = j := by
    rw [Reduction.bringPivot_cols, gapped_pivot, Equiv.swap_self, Equiv.refl_apply,
      Reduction.ofMatrix, Vector.get_ofFn]
    rfl
  rw [ofMatrix_perm]
  change ((Reduction.reduceFrom 1 0 _ (Reduction.ofMatrix gapped)).cols j).source = j
  rw [Reduction.reduceFrom]
  split
  · exact brought j
  · exact (Reduction.eliminate_keeps (k := step) j).1.trans (brought j)

theorem gapped_r : ∃ q : ℝ, q * q = 1 ∧ ∀ j, (ofMatrix gapped).r 0 j = q * ![5, 0, 4] j := by
  have factors := ofMatrix_factors gapped
  let only : Fin (ofMatrix gapped).rank := ⟨0, by rw [gapped_rank]; exact one_pos⟩
  refine ⟨(ofMatrix gapped).orthogonal 0 0, ?_, fun j => ?_⟩
  · have unit := congrFun (congrFun factors.transpose_mul_orthogonal 0) 0
    rw [mul_apply, Fin.sum_univ_one, transpose_apply, one_apply_eq] at unit
    exact unit
  · have top := factors.top only j
    rw [turned, mul_apply, Fin.sum_univ_one, transpose_apply, submatrix_apply, gapped_perm] at top
    exact top.symm.trans (congrArg _ (gapped_entry 0 j))

theorem givens_sine_ne_zero (a : ℝ) {b : ℝ} (nonzero : b ≠ 0) : (givens a b).2 ≠ 0 := by
  intro zero
  obtain ⟨unit, cleared⟩ := givens_spec a nonzero
  rw [zero, neg_zero, zero_mul, zero_add] at cleared
  rw [(mul_eq_zero.mp cleared).resolve_right nonzero, zero, mul_zero, add_zero] at unit
  exact zero_ne_one unit

noncomputable def gappedStart (t : ℝ) : Folding ℝ 3 :=
  ((ofMatrix gapped).triangle (leading 3 #[t])).withExtra 0 12

section GappedStart

variable {t : ℝ}

theorem gappedStart_entry (k i : Fin 3) : (gappedStart t).entry k i = (ofMatrix gapped).r k i := by
  simp [gappedStart, Triangle.withExtra, triangle, Triangle.entry]

theorem gappedStart_rhs (k : Fin 3) :
    (gappedStart t).rhs k = if k.val < 1 then (leading 3 #[t]) k else 0 := by
  simp [gappedStart, Triangle.withExtra, triangle, gapped_rank]

theorem gappedStart_extra (i : Fin 3) : (gappedStart t).extra i = if i = 0 then 12 else 0 :=
  Vector.get_ofFn _ i

theorem gappedStart_lead : (gappedStart t).extra 0 ≠ 0 := by norm_num [gappedStart_extra]

theorem gappedStart_sine :
    (givens ((gappedStart t).entry 0 0) ((gappedStart t).extra 0)).2 ≠ 0 :=
  givens_sine_ne_zero _ gappedStart_lead

theorem gappedStart_rotated : ∃ q : ℝ, q ≠ 0 ∧
    ∀ i, 0 < i → ((gappedStart t).rotate 0).extra i = q * ![5, 0, 4] i := by
  obtain ⟨q, unit, row⟩ := gapped_r
  have sign : q ≠ 0 := fun zero => by simp [zero] at unit
  let sin := (givens ((gappedStart t).entry 0 0) ((gappedStart t).extra 0)).2
  refine ⟨-sin * q, mul_ne_zero (neg_ne_zero.mpr gappedStart_sine) sign, fun i behind => ?_⟩
  have fresh : (gappedStart t).extra i = 0 := by rw [gappedStart_extra, if_neg behind.ne']
  have above : (gappedStart t).entry 0 i = q * ![5, 0, 4] i := by rw [gappedStart_entry, row]
  rw [Folding.rotate_extra gappedStart_lead, if_pos behind, fresh, above, mul_zero, add_zero,
    mul_assoc]

/-- The second column is skipped, and the other diagonal entries have nothing to fold in. -/
theorem gapped_dampedTriangle :
    (ofMatrix gapped).dampedTriangle (leading 3 #[t]) #v[12, 0, 0] =
      (((gappedStart t).rotate 0).rotate 2).toTriangle := by
  obtain ⟨q, -, extra⟩ := gappedStart_rotated (t := t)
  have skipped : ((gappedStart t).rotate 0).rotate 1 = (gappedStart t).rotate 0 :=
    Folding.rotate_of_zero (by simp [extra 1 (by decide)])
  have folded : ((ofMatrix gapped).triangle (leading 3 #[t])).fold 0 12 =
      (((gappedStart t).rotate 0).rotate 2).toTriangle := by
    rw [Triangle.fold, if_neg (by norm_num)]
    simp only [Fin.foldl_succ, Fin.foldl_zero, Fin.zero_le, if_true]
    exact congrArg (fun T => (T.rotate 2).toTriangle) skipped
  have undamped (T : Triangle ℝ 3) (j : Fin 3) : T.fold j 0 = T := if_pos (beq_self_eq_true _)
  rw [← folded]
  simp only [dampedTriangle, Fin.foldl_succ, Fin.foldl_zero, gapped_perm]
  exact (undamped _ 2).trans (undamped _ 1)

end GappedStart

theorem gapped_triangle {t : ℝ} (nonzero : t ≠ 0) :
    let S := (ofMatrix gapped).dampedTriangle (leading 3 #[t]) #v[12, 0, 0]
    S.entry 1 1 = 0 ∧ S.rhs 2 ≠ 0 := by
  intro S
  obtain ⟨q, sign, extra⟩ := gappedStart_rotated (t := t)
  have whole : S = (((gappedStart t).rotate 0).rotate 2).toTriangle := gapped_dampedTriangle
  have last : ((gappedStart t).rotate 0).extra 2 ≠ 0 := by
    rw [extra 2 (by decide)]
    simp [sign]
  have mixes := givens_sine_ne_zero (((gappedStart t).rotate 0).entry 2 2) last
  have silent : ((gappedStart t).rotate 0).rhs 2 = 0 := by
    rw [Folding.rotate_rhs gappedStart_lead, if_neg (by decide), gappedStart_rhs]
    rfl
  have empty : ((gappedStart t).rotate 0).entry 1 1 = 0 := by
    rw [Folding.rotate_entry gappedStart_lead, if_neg (by decide), gappedStart_entry,
      r_of_rank_le _ gapped_rank.le]
  have unused : (gappedStart t).carried = 0 := rfl
  refine ⟨?_, ?_⟩
  · rw [whole, Folding.rotate_entry last, if_neg (by decide)]
    exact empty
  · rw [whole, Folding.rotate_rhs last, if_pos rfl, silent, mul_zero, zero_add,
      Folding.rotate_carried gappedStart_lead, unused, mul_zero, add_zero, gappedStart_rhs]
    simp [mixes, gappedStart_sine, nonzero, leading_get]

/-- The solve stops at the empty row and gives up the column behind it, which is not damped and
could take the whole right-hand side. -/
theorem gapped_misses :
    let F := ofMatrix gapped
    let M := fromRows (F.topRows * F.perm.toMatrixᵀ) (diagonal #v[(12 : ℝ), 0, 0].get)
    let b := Sum.elim (fun i : Fin F.rank => (#[-4] : Array ℝ).getD i 0) (0 : Fin 3 → ℝ)
    ∃ (S : DenseMatrix ℝ 3 3) (x : Vector ℝ 3),
      F.dampedInto #[-4] #[12, 0, 0] ⟨(blank : Factorization ℝ 3 3)⟩
          { s := ⟨(.zeros : DenseMatrix ℝ 3 3)⟩, x := #[0, 0, 0] } =
        { buffers := { s := ⟨S⟩, x := x.toArray }, result := .ok () } ∧
      S.get 1 1 = 0 ∧ ¬ IsMinimizer M b x.get := by
  intro F M b
  have enough : F.rank ≤ (#[-4] : Array ℝ).size := F.rank_le_rows
  obtain ⟨x, written, minimizes_iff, _⟩ := dampedInto_minimizes_iff gapped #[-4] #v[12, 0, 0]
    ⟨(blank : Factorization ℝ 3 3)⟩ { s := ⟨(.zeros : DenseMatrix ℝ 3 3)⟩, x := #[0, 0, 0] }
    rfl rfl rfl rfl enough
  obtain ⟨empty, asked⟩ := gapped_triangle (t := -4) (by norm_num)
  refine ⟨_, x, written, ?_, fun minimizes => asked ?_⟩
  · rw [Triangle.toMatrix, DenseMatrix.get_ofFn]
    exact empty
  · exact minimizes_iff.mp minimizes 1 2 empty (by decide)

end Factorization

end LeastSquares

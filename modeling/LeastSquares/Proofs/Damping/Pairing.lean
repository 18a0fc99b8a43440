import Mathlib.Tactic.Linarith
import LeastSquares.Proofs.Damping.Search
import LeastSquares.Proofs.QR.Damped
import LeastSquares.Proofs.QR.MinimumNorm
import LeastSquares.Proofs.TrustRegion

/-!
# The step and its damping

In exact arithmetic the step of a trust region belongs to the `alpha` that is found with it. Either
it is the Gauss-Newton step, which fits, and `alpha` is zero, or `alpha` is positive and the step is
the only minimizer of the problem damped by `√alpha D`. A search that ended early did so with a step
close to the radius, a step that cannot get shorter, or steps that are short and have stopped
growing.
-/

set_option autoImplicit false

namespace LeastSquares.Damping

open Matrix

variable {m n : Nat}

/-! ## Positive alphas -/

theorem Bounds.positive_pos {B : Bounds ℝ} {alpha : ℝ} (nonneg : 0 ≤ alpha) :
    0 < B.positive alpha := by
  rw [Bounds.positive]
  split
  · rw [Scalar.max_real]
    exact lt_of_lt_of_le Scalar.minPositive_pos (le_max_left _ _)
  · rename_i nonzero
    exact lt_of_le_of_ne nonneg fun zero => nonzero (beq_iff_eq.mpr zero.symm)

structure Search.Usable (S : Search ℝ) : Prop where
  lower : 0 ≤ S.bounds.lower
  upper : 0 < S.bounds.upper
  alpha : 0 ≤ S.alpha

theorem Search.Usable.made_pos {S : Search ℝ} (usable : S.Usable) (Q : Problem ℝ m n) :
    0 < (Q.made S).alpha :=
  Bounds.positive_pos usable.alpha

theorem Search.Usable.next {S : Search ℝ} (usable : S.Usable) (Q : Problem ℝ m n) :
    (Q.next S).Usable := by
  have positive := usable.made_pos Q
  have lower : 0 ≤ (Q.next S).bounds.lower := by
    simp only [Problem.next, Bounds.narrow, Scalar.max_real]
    split
    · exact le_max_of_le_left usable.lower
    · exact usable.lower
  refine ⟨lower, ?_, ?_⟩
  · simp only [Problem.next, Bounds.narrow, Scalar.min_real]
    split
    · exact lt_min usable.upper positive
    · exact usable.upper
  · simp only [Problem.next, Scalar.max_real]
    exact le_max_of_le_left lower

theorem Search.Usable.iterate {S : Search ℝ} (usable : S.Usable) (Q : Problem ℝ m n) (k : Nat) :
    (Q.next^[k] S).Usable := by
  induction k with
  | zero => exact usable
  | succ k ih =>
      rw [Function.iterate_succ_apply']
      exact ih.next Q

namespace Problem

variable {Q : Problem ℝ m n} {A : DenseMatrix ℝ m n}

theorem gradient_nonneg (Q : Problem ℝ m n) : 0 ≤ Q.gradient := Scalar.norm_nonneg _ _

theorem upperBound_pos (radius : 0 < Q.delta) {gradient : ℝ} (nonneg : 0 ≤ gradient) :
    0 < Q.upperBound gradient := by
  have fraction : (0 : ℝ) < tolerance := by norm_num [tolerance]
  simp only [upperBound, Scalar.min_real]
  split
  · exact div_pos Scalar.minPositive_pos (lt_min radius fraction)
  · rename_i nonzero
    exact lt_of_le_of_ne (div_nonneg nonneg radius.le) fun zero =>
      nonzero (beq_iff_eq.mpr zero.symm)

theorem lowerBound_nonneg (radius : 0 < Q.delta) (fullRank : Bool) (x : Vector ℝ n) (length : ℝ)
    {excess : ℝ} (long : 0 ≤ excess) : 0 ≤ Q.lowerBound fullRank x length excess := by
  simp only [lowerBound]
  split
  · split
    · rename_i size
      exact div_nonneg (div_nonneg (div_nonneg long radius.le) size.le) size.le
    · exact le_rfl
  · exact le_rfl

theorem excess_pos_of_long (radius : 0 < Q.delta) {excess : ℝ}
    (long : ¬ excess ≤ tolerance * Q.delta) : 0 < excess :=
  (mul_nonneg (by norm_num [tolerance]) radius.le).trans_lt (not_le.mp long)

theorem begun_usable (radius : 0 < Q.delta) (fullRank : Bool) (previous : ℝ) {x : Vector ℝ n}
    (long : ¬ TrustRegion.scaledNorm Q.scale x - Q.delta ≤ tolerance * Q.delta) :
    (Q.begun fullRank previous x).Usable := by
  have excess := excess_pos_of_long radius long
  have lower := Q.lowerBound_nonneg radius fullRank x (TrustRegion.scaledNorm Q.scale x) excess.le
  have upper := Q.upperBound_pos radius Q.gradient_nonneg
  refine ⟨lower, upper, ?_⟩
  simp only [begun, Bounds.start, Scalar.max_real, Scalar.min_real]
  split
  · exact div_nonneg Q.gradient_nonneg (TrustRegion.scaledNorm_nonneg _ _)
  · exact le_min (le_max_of_le_right lower) upper.le

/-! ## The damped step -/

/-- `√alpha D`. -/
noncomputable def damping (Q : Problem ℝ m n) (alpha : ℝ) : Vector ℝ n :=
  Q.scale.map fun d => √alpha * d

theorem damping_get (Q : Problem ℝ m n) (alpha : ℝ) (p : Fin n) :
    Q.damping alpha p = √alpha * Q.scale p := Vector.get_map _ _ p

noncomputable def dampedStep (Q : Problem ℝ m n) (alpha : ℝ) : Vector ℝ n :=
  Q.factor.dampedSolve Q.rhs (Q.damping alpha)

theorem made_x (S : Search ℝ) : (Q.made S).x = Q.dampedStep (Q.made S).alpha := rfl

theorem triangle_diag (positive : ∀ p, 0 < Q.scale p) {alpha : ℝ} (damped : 0 < alpha)
    (j : Fin n) : (Q.triangle alpha).entry j j ≠ 0 := by
  refine Q.factor.dampedTriangle_diag Q.rhs (Q.damping alpha) (fun z _ zeros => ?_) j
  funext i
  have zero := zeros i
  rw [damping_get] at zero
  have nonzero := mul_pos (Real.sqrt_pos.mpr damped) (positive (Q.factor.perm.get i))
  exact (mul_eq_zero.mp zero).resolve_left nonzero.ne'

theorem dampedStep_isOnlyMinimizer (factors : Q.factor.Factors A)
    (positive : ∀ p, 0 < Q.scale p) {alpha : ℝ} (damped : 0 < alpha) :
    IsOnlyMinimizer (Q.factor.damped (Q.damping alpha)) (Sum.elim (Q.rhs ∘ Q.factor.topCol) 0)
      (Q.dampedStep alpha).get :=
  factors.dampedSolve_isOnlyMinimizer Q.rhs (Q.damping alpha)
    (triangle_diag positive damped)

/-! ## The Gauss-Newton step -/

/-- `R P'`, of the rows that count. -/
noncomputable def rows (Q : Problem ℝ m n) : Matrix (Fin Q.factor.rank) (Fin n) ℝ :=
  Q.factor.topRows * Q.factor.perm.toMatrixᵀ

theorem rows_mulVec (Q : Problem ℝ m n) (x : Fin n → ℝ) (i : Fin Q.factor.rank) :
    (Q.rows *ᵥ x) i = ∑ j, Q.factor.r (Q.factor.topCol i) j * x (Q.factor.perm.get j) := by
  rw [rows, ← mulVec_mulVec, Permutation.transpose_mulVec]
  rfl

theorem rows_transpose_mulVec (factors : Q.factor.Factors A) (w : Fin Q.factor.rank → ℝ)
    (j : Fin n) : (Q.rowsᵀ *ᵥ w) (Q.factor.perm.get j) =
      ∑ i, Q.factor.r (Q.factor.topCol i) j * w i := by
  rw [rows, transpose_mul, transpose_transpose, ← mulVec_mulVec]
  change ∑ k, (if Q.factor.perm.get k = Q.factor.perm.get j then 1 else 0) *
    (Q.factor.topRowsᵀ *ᵥ w) k = _
  simp only [factors.bijective.injective.eq_iff, ite_mul, one_mul, zero_mul, Finset.sum_ite_eq',
    Finset.mem_univ, if_true]
  rfl

/-- What the undamped step is: zero at rank zero, the solution of back substitution at full rank,
and otherwise the minimum-norm solution. -/
structure IsGaussNewton (Q : Problem ℝ m n) (fullRank : Bool) (x : Vector ℝ n) : Prop where
  zero : Q.factor.rank = 0 → x = Vector.replicate n 0
  substituted : Q.factor.rank ≠ 0 → fullRank = true → x = Q.factor.rSolve Q.rhs
  minimumNorm : Q.factor.rank ≠ 0 → fullRank = false → Q.factor.minimumNorm Q.rhs = .ok x
  solves : fullRank = true → Q.rows *ᵥ x.get = Q.rhs ∘ Q.factor.topCol
  /-- The minimum-norm solution is the shortest that solves the rows, unless the inner factorization
  discards something. -/
  shortest : fullRank = false → Q.factor.inner.discarded = 0 →
    Q.rows *ᵥ x.get = Q.rhs ∘ Q.factor.topCol ∧
      IsShortestMinimizer Q.rows (Q.rhs ∘ Q.factor.topCol) x.get

theorem minimumNorm_shortest (factors : Q.factor.Factors A) (nothing : Q.factor.inner.discarded = 0)
    {x : Vector ℝ n} (solved : Q.factor.minimumNorm Q.rhs = .ok x) :
    Q.rows *ᵥ x.get = Q.rhs ∘ Q.factor.topCol ∧
      IsShortestMinimizer Q.rows (Q.rhs ∘ Q.factor.topCol) x.get := by
  obtain ⟨y, same, rows, w, combination⟩ := factors.minimumNorm_spec nothing Q.rhs
  obtain rfl : y = x := Except.ok.inj (same.symm.trans solved)
  have image : Q.rows *ᵥ y.get = Q.rhs ∘ Q.factor.topCol := by
    funext i
    rw [rows_mulVec]
    exact rows i
  refine ⟨image, (Normal.of_image image).isShortestMinimizer (w := w ∘ Q.factor.topCol) ?_⟩
  funext p
  obtain ⟨j, rfl⟩ := factors.bijective.surjective p
  rw [rows_transpose_mulVec factors]
  refine (combination j).trans (Q.factor.sum_of_rank_le Q.factor.rank_le_cols _ fun i low => ?_)
  rw [Q.factor.r_of_rank_le low, zero_mul]

theorem gaussNewton_spec (factors : Q.factor.Factors A) {fullRank : Bool} {x : Vector ℝ n}
    (step : Q.gaussNewton fullRank = .ok x) : Q.IsGaussNewton fullRank x := by
  have minimum (deficient : fullRank = false) : Q.factor.minimumNorm Q.rhs = .ok x := by
    rw [Factorization.minimumNorm]
    rw [gaussNewton, deficient] at step
    by_cases none : Q.factor.rank = 0
    · rw [if_pos none] at step ⊢
      exact step
    · rw [if_neg none, if_neg Bool.false_ne_true, Factorization.minimumNorm, if_neg none] at step
      rw [if_neg none]
      exact step
  have substituted (some : Q.factor.rank ≠ 0) (full : fullRank = true) :
      x = Q.factor.rSolve Q.rhs := by
    rw [gaussNewton, if_neg some, if_pos full] at step
    exact (Except.ok.inj step).symm
  refine ⟨fun none => ?_, substituted, fun _ deficient => minimum deficient, fun full => ?_,
    fun deficient nothing => minimumNorm_shortest factors nothing (minimum deficient)⟩
  · rw [gaussNewton, if_pos none] at step
    exact (Except.ok.inj step).symm
  · funext i
    have some : Q.factor.rank ≠ 0 := by
      have inside := i.isLt
      omega
    rw [rows_mulVec, substituted some full]
    exact factors.rSolve_rows Q.rhs i

/-! ## How a search ends -/

theorem scaledNorm_eq_zero {scale x : Vector ℝ n} (positive : ∀ p, 0 < scale p)
    (zero : TrustRegion.scaledNorm scale x = 0) : x = Vector.replicate n 0 := by
  have zeros := (Scalar.norm_eq_zero_iff _ _).mp zero
  apply Vector.ext_get
  intro p
  have product := zeros p rfl
  rw [Vector.get_ofFn] at product
  rw [(mul_eq_zero.mp product).resolve_left (positive p).ne', Vector.get_replicate]

theorem ends_cases {S : Search ℝ} (ends : Q.ends S = true) :
    |Q.length S - Q.delta| ≤ 0.1 * Q.delta ∨
      (S.bounds.lower = 0 ∧ Q.length S - Q.delta ≤ S.excess ∧ S.excess < 0) ∨ Q.length S = 0 := by
  rw [Problem.ends, accepts, Bool.or_eq_true, Bool.or_eq_true, Bool.and_eq_true, Bool.and_eq_true,
    decide_eq_true_eq, decide_eq_true_eq, decide_eq_true_eq, beq_iff_eq, beq_iff_eq] at ends
  rcases ends with (close | ⟨⟨lower, shorter⟩, short⟩) | zero
  · exact Or.inl close
  · exact Or.inr (Or.inl ⟨lower, shorter, short⟩)
  · exact Or.inr (Or.inr zero)

/-- Why the search from `S` that made `steps` steps was content with its last step `x`: it is close
to the radius, or zero, or the tenth; or the lower bound was zero, and it and the step before are
too short although it is no longer than that one. -/
def Content (Q : Problem ℝ m n) (S : Search ℝ) (steps : Nat) (x : Vector ℝ n) : Prop :=
  |TrustRegion.scaledNorm Q.scale x - Q.delta| ≤ 0.1 * Q.delta ∨
    x = Vector.replicate n 0 ∨
    steps = 10 ∨
    ∃ k, steps = k + 2 ∧ (Q.next^[k + 1] S).bounds.lower = 0 ∧
      TrustRegion.scaledNorm Q.scale x ≤ Q.length (Q.next^[k] S) ∧ Q.length (Q.next^[k] S) < Q.delta

theorem Ended.content (positive : ∀ p, 0 < Q.scale p) {S : Search ℝ} (long : 0 < S.excess)
    {number k : Nat} {found : Found ℝ n} (ended : Q.Ended S furtherSteps number k found) :
    Q.Content S found.seen.length found.step.x := by
  have last := ended.last
  rw [ended.seen_length, ended.step]
  rcases last with all | ends
  · exact Or.inr (Or.inr (Or.inl (congrArg (· + 1) all)))
  · rcases ends_cases ends with close | ⟨lower, shorter, short⟩ | zero
    · exact Or.inl close
    · cases k with
      | zero => exact absurd short long.asymm
      | succ k =>
          refine Or.inr (Or.inr (Or.inr ⟨k, rfl, lower, ?_⟩))
          rw [Function.iterate_succ_apply'] at shorter short
          have before : (Q.next (Q.next^[k] S)).excess = Q.length (Q.next^[k] S) - Q.delta := rfl
          rw [before] at shorter short
          rw [Function.iterate_succ_apply']
          exact ⟨(sub_le_sub_iff_right Q.delta).mp shorter, sub_neg.mp short⟩
    · exact Or.inr (Or.inl (scaledNorm_eq_zero positive zero))

/-- The step and `alpha` that are found belong together. -/
theorem solve_pairs (factors : Q.factor.Factors A) (positive : ∀ p, 0 < Q.scale p)
    (radius : 0 < Q.delta) (fullRank : Bool) (previous : ℝ) :
    ∃ x found, Q.gaussNewton fullRank = .ok x ∧ Q.IsGaussNewton fullRank x ∧
      Q.solve fullRank previous = .ok found ∧
      ((found.step = { x, alpha := 0 } ∧ TrustRegion.scaledNorm Q.scale x ≤ 1.1 * Q.delta) ∨
        (0 < found.step.alpha ∧
          IsOnlyMinimizer (Q.factor.damped (Q.damping found.step.alpha))
            (Sum.elim (Q.rhs ∘ Q.factor.topCol) 0) found.step.x.get ∧
          Q.Content (Q.begun fullRank previous x) found.seen.length found.step.x)) := by
  obtain ⟨x, step⟩ := Q.gaussNewton_ok fullRank
  by_cases fits : TrustRegion.scaledNorm Q.scale x - Q.delta ≤ tolerance * Q.delta
  · refine ⟨x, _, step, gaussNewton_spec factors step, Q.solve_of_fits previous step fits,
      Or.inl ⟨rfl, ?_⟩⟩
    rw [tolerance] at fits
    linarith
  · obtain ⟨k, ended⟩ := Q.searchFrom_ended furtherSteps 1 (Q.begun fullRank previous x)
    have usable := (begun_usable radius fullRank previous fits).iterate Q k
    refine ⟨x, _, step, gaussNewton_spec factors step, Q.solve_of_long previous step fits,
      Or.inr ⟨?_, ?_, ended.content positive (excess_pos_of_long radius fits)⟩⟩
    · rw [ended.step]
      exact usable.made_pos Q
    · rw [ended.step, made_x]
      exact dampedStep_isOnlyMinimizer factors positive (usable.made_pos Q)

/-- One column, a right-hand side of two and a radius of one: the Gauss-Newton step is too long. -/
theorem solve_one_column :
    let A : DenseMatrix ℝ 1 1 := .ofFn fun _ _ => 1
    let Q : Problem ℝ 1 1 := { factor := .ofMatrix A, rhs := #v[2], scale := #v[1], delta := 1 }
    ∃ x found, Q.gaussNewton true = .ok x ∧ Q.IsGaussNewton true x ∧
      Q.solve true 0 = .ok found ∧
      ((found.step = { x, alpha := 0 } ∧ TrustRegion.scaledNorm Q.scale x ≤ 1.1 * Q.delta) ∨
        (0 < found.step.alpha ∧
          IsOnlyMinimizer (Q.factor.damped (Q.damping found.step.alpha))
            (Sum.elim (Q.rhs ∘ Q.factor.topCol) 0) found.step.x.get ∧
          Q.Content (Q.begun true 0 x) found.seen.length found.step.x)) := by
  intro A Q
  refine solve_pairs (Factorization.ofMatrix_factors A) (fun p => ?_) one_pos true 0
  fin_cases p
  exact one_pos

end Problem

end LeastSquares.Damping

import LeastSquares.Proofs.Damping.Newton

/-!
# The bracket around the wanted damping

If every column of the factored matrix that is not zero is a pivot, and the Gauss-Newton step is too
long, there is one `alpha` whose damped step has the length of the radius. The bounds of the search
enclose it from the beginning and after every step, and from the second step on the search comes up
to it from below.
-/

set_option autoImplicit false

namespace LeastSquares

open Matrix

variable {m n : Nat}

noncomputable def DenseMatrix.nonzeroCols (A : DenseMatrix ℝ m n) : Finset (Fin n) :=
  Finset.univ.filter fun p => A.toMatrix.col p ≠ 0

namespace Factorization

variable {F : Factorization ℝ m n} {A : DenseMatrix ℝ m n}

theorem Factors.col_eq_zero (factors : F.Factors A) (full : F.rank = A.nonzeroCols.card) {j : Fin n}
    (behind : F.rank ≤ j.val) : A.toMatrix.col (F.perm.get j) = 0 := by
  have injective : Function.Injective fun i => F.perm.get (F.topCol i) :=
    factors.bijective.injective.comp (Fin.castLE_injective F.rank_le_cols)
  have pivots : Finset.univ.image (fun i => F.perm.get (F.topCol i)) = A.nonzeroCols := by
    refine Finset.eq_of_subset_of_card_le (fun p picked => ?_) ?_
    · obtain ⟨i, _, rfl⟩ := Finset.mem_image.mp picked
      exact Finset.mem_filter.mpr ⟨Finset.mem_univ _, factors.col_ne_zero _ i.isLt⟩
    · rw [Finset.card_image_of_injective _ injective, Finset.card_univ, Fintype.card_fin, full]
  by_contra nonzero
  have picked : F.perm.get j ∈ A.nonzeroCols :=
    Finset.mem_filter.mpr ⟨Finset.mem_univ _, nonzero⟩
  rw [← pivots] at picked
  obtain ⟨i, _, same⟩ := Finset.mem_image.mp picked
  have index : i.val = j.val := congrArg Fin.val (factors.bijective.injective same)
  have inside := i.isLt
  omega

theorem Factors.r_eq_zero (factors : F.Factors A) (full : F.rank = A.nonzeroCols.card) (i : Fin n)
    {j : Fin n} (behind : F.rank ≤ j.val) : F.r i j = 0 := by
  by_cases inside : i.val < F.rank
  · have entry := factors.top ⟨i, inside⟩ j
    rw [turned_apply, factors.col_eq_zero full behind, mulVec_zero] at entry
    exact entry.symm
  · exact F.r_of_rank_le (not_lt.mp inside) j

theorem Factors.rSolve_eq_zero (factors : F.Factors A) (c : Vector ℝ n) {j : Fin n}
    (behind : F.rank ≤ j.val) : F.rSolve c (F.perm.get j) = 0 :=
  (Permutation.restore_get factors.bijective _ j).trans
    ((backSubstitute_spec c F.upper_r factors.r_diag_ne_zero).1 j behind)

/-- At full rank, both substitutions with `R` together solve the equations of `R' R`. -/
theorem Factors.block_solves (factors : F.Factors A) (full : F.rank = A.nonzeroCols.card)
    {rhs : Vector ℝ n} (zero : ∀ j : Fin n, F.rank ≤ j.val → rhs j = 0) :
    ∃ q : Fin n → ℝ, F.topRowsᵀ *ᵥ (F.topRows *ᵥ q) = rhs.get ∧
      Scalar.norm (fun i => i.val < F.rank) (F.rtSolve rhs) *
        Scalar.norm (fun i => i.val < F.rank) (F.rtSolve rhs) = q ⬝ᵥ rhs.get := by
  have forward := forwardSubstitute_spec rhs F.upper_r factors.r_diag_ne_zero
  have back := backSubstitute_spec (F.rtSolve rhs) F.upper_r factors.r_diag_ne_zero
  let q := backSubstitute F.rank F.r (F.rtSolve rhs)
  have image : F.topRows *ᵥ q.get = F.rtSolve rhs ∘ F.topCol :=
    funext fun i => back.2 (F.topCol i) i.isLt
  have solves : F.topRowsᵀ *ᵥ (F.rtSolve rhs ∘ F.topCol) = rhs.get := by
    funext j
    change ∑ i, F.r (F.topCol i) j * F.rtSolve rhs (F.topCol i) = rhs j
    by_cases inside : j.val < F.rank
    · rw [← forward.2 j inside]
      refine (F.sum_of_rank_le F.rank_le_cols (fun i => F.r i j * F.rtSolve rhs i)
        fun i low => ?_).symm
      rw [F.r_of_rank_le low, zero_mul]
    · rw [zero j (not_lt.mp inside)]
      refine Finset.sum_eq_zero fun i _ => ?_
      rw [factors.r_eq_zero full _ (not_lt.mp inside), zero_mul]
  refine ⟨q.get, by rw [image, solves], ?_⟩
  rw [Scalar.norm_mul_self, Scalar.sumSquares_real, ← solves, ← image, dot_gram, image]
  refine (F.sum_of_rank_le F.rank_le_cols _ fun i low => ?_).trans
    (Finset.sum_congr rfl fun i _ => ?_)
  · rw [if_neg (by simpa using low)]
  · exact if_pos (decide_eq_true i.isLt)

end Factorization

namespace Damping

variable {Q : Problem ℝ m n} {A : DenseMatrix ℝ m n} {x : Vector ℝ n}

namespace Problem

/-- A problem of full rank whose Gauss-Newton step `x` is too long. -/
structure TooLong (Q : Problem ℝ m n) (A : DenseMatrix ℝ m n) (x : Vector ℝ n) : Prop where
  factors : Q.factor.Factors A
  full : Q.factor.rank = A.nonzeroCols.card
  positive : ∀ p, 0 < Q.scale p
  radius : 0 < Q.delta
  step : Q.gaussNewton true = .ok x
  long : 1.1 * Q.delta < TrustRegion.scaledNorm Q.scale x

/-- The length of the triangular solve in the lower bound. -/
noncomputable def firstSize (Q : Problem ℝ m n) (x : Vector ℝ n) : ℝ :=
  Scalar.norm (fun i => i.val < Q.factor.rank)
    (Q.factor.rtSolve (Q.outward x (TrustRegion.scaledNorm Q.scale x)))

theorem gradient_eq_euclid (factors : Q.factor.Factors A) : Q.gradient = euclid Q.pull := by
  have entry (j : Fin n) : Scalar.addOver 0 (fun i => i ≤ j && i.val < Q.factor.rank)
      (fun i => Q.factor.r i j * Q.rhs i) / Q.scale (Q.factor.perm.get j) =
        Q.pull (Q.factor.perm.get j) := by
    rw [pull, scaledRows_transpose_mulVec, rows_transpose_mulVec factors, Scalar.addOver_real,
      zero_add, div_eq_inv_mul]
    refine congrArg (_ * ·) ((Finset.sum_congr rfl fun i _ => ?_).trans
      (Q.factor.sum_of_rank_le Q.factor.rank_le_cols (fun i => Q.factor.r i j * Q.rhs i)
        fun i low => by rw [Q.factor.r_of_rank_le low, zero_mul]))
    by_cases counted : i ≤ j ∧ i.val < Q.factor.rank
    · rw [if_pos (by simpa using counted)]
    · rw [if_neg (by simpa using counted), Factorization.r,
        dif_neg fun inside => counted inside.symm, zero_mul]
  rw [gradient, Scalar.norm_real, Scalar.sumSquares_real, euclid, dotProduct,
    ← factors.bijective.sum_comp fun p => Q.pull p * Q.pull p]
  refine congrArg Real.sqrt (Finset.sum_congr rfl fun j _ => ?_)
  rw [if_pos rfl, Vector.get_ofFn, entry]

namespace TooLong

variable (problem : Q.TooLong A x)

include problem

/-! ## The root -/

theorem excess_pos : 0 < TrustRegion.scaledNorm Q.scale x - Q.delta := by
  have long := problem.long
  have radius := problem.radius
  linarith

theorem exceeds : ¬ TrustRegion.scaledNorm Q.scale x - Q.delta ≤ tolerance * Q.delta := by
  have long := problem.long
  rw [tolerance]
  linarith

theorem scaled_ne_zero : Q.scaled x ≠ 0 := by
  intro zero
  have excess := problem.excess_pos
  rw [scaledNorm_eq_euclid, zero, euclid, dotProduct_zero, Real.sqrt_zero] at excess
  have radius := problem.radius
  linarith

theorem x_eq_zero {j : Fin n} (behind : Q.factor.rank ≤ j.val) : x (Q.factor.perm.get j) = 0 := by
  have gauss := gaussNewton_spec problem.factors problem.step
  by_cases none : Q.factor.rank = 0
  · rw [gauss.zero none, Vector.get_replicate]
  · rw [gauss.substituted none rfl]
    exact problem.factors.rSolve_eq_zero Q.rhs behind

theorem tangent : Q.Tangent 0 x (Q.firstSize x) := by
  have gauss := gaussNewton_spec problem.factors problem.step
  have zero (j : Fin n) (behind : Q.factor.rank ≤ j.val) :
      Q.outward x (TrustRegion.scaledNorm Q.scale x) j = 0 := by
    rw [outward_get, scaled, problem.x_eq_zero behind, mul_zero, zero_div, mul_zero]
  obtain ⟨q, solves, square⟩ := problem.factors.block_solves problem.full zero
  refine Tangent.of_pivoted problem.factors problem.positive le_rfl problem.scaled_ne_zero
    (shifted_of_rows problem.positive (gauss.solves rfl)) (fun j => ?_) square
  rw [solves, zero_mul, zero_mul, add_zero]

theorem scaled_dampedStep_ne_zero {alpha : ℝ} (damped : 0 < alpha) :
    Q.scaled (Q.dampedStep alpha) ≠ 0 :=
  ne_zero_of_shifted problem.tangent.pull_ne_zero
    (dampedStep_shifted problem.factors problem.positive damped)

theorem made_tangent {S : Search ℝ} (damped : 0 < (Q.made S).alpha) :
    Q.Tangent (Q.made S).alpha (Q.made S).x (Q.madeSize S) :=
  Problem.made_tangent problem.factors problem.positive damped
    (problem.scaled_dampedStep_ne_zero damped)

theorem length_lt {alpha beta : ℝ} (damped : 0 < alpha) (less : alpha < beta) :
    TrustRegion.scaledNorm Q.scale (Q.dampedStep beta) <
      TrustRegion.scaledNorm Q.scale (Q.dampedStep alpha) := by
  have beyond := damped.trans less
  rw [scaledNorm_eq_euclid, scaledNorm_eq_euclid]
  exact euclid_lt_of_shifted damped.le less (problem.scaled_dampedStep_ne_zero beyond)
    (dampedStep_shifted problem.factors problem.positive damped)
    (dampedStep_shifted problem.factors problem.positive beyond)

theorem root_unique {root other : ℝ} (first : Q.IsRoot root) (second : Q.IsRoot other) :
    other = root := by
  rcases lt_trichotomy other root with less | same | less
  · have shorter := problem.length_lt second.positive less
    rw [first.length, second.length] at shorter
    exact absurd shorter (lt_irrefl _)
  · exact same
  · have shorter := problem.length_lt first.positive less
    rw [first.length, second.length] at shorter
    exact absurd shorter (lt_irrefl _)

/-! ## The bounds -/

theorem pull_pos : 0 < euclid Q.pull := euclid_pos problem.tangent.pull_ne_zero

theorem begun_lower (previous : ℝ) : (Q.begun true previous x).bounds.lower =
    (TrustRegion.scaledNorm Q.scale x - Q.delta) / Q.delta / Q.firstSize x / Q.firstSize x := by
  have size : 0 < Q.firstSize x := lt_of_le_of_ne (Scalar.norm_nonneg _ _) fun zero => by
    have square := problem.tangent.square_pos
    rw [← zero, mul_zero] at square
    exact lt_irrefl _ square
  change Q.lowerBound true x _ _ = _
  rw [lowerBound, if_pos rfl]
  exact if_pos size

theorem begun_upper (previous : ℝ) :
    (Q.begun true previous x).bounds.upper = euclid Q.pull / Q.delta := by
  change Q.upperBound Q.gradient = _
  rw [gradient_eq_euclid problem.factors, upperBound]
  refine if_neg fun zero => ?_
  exact (div_pos problem.pull_pos problem.radius).ne' (beq_iff_eq.mp zero)

theorem begun_lower_pos (previous : ℝ) : 0 < (Q.begun true previous x).bounds.lower := by
  rw [problem.begun_lower, div_div]
  exact div_pos (div_pos problem.excess_pos problem.radius) problem.tangent.square_pos

theorem lower_long (previous : ℝ) : Q.delta ≤ TrustRegion.scaledNorm Q.scale
    (Q.dampedStep (Q.begun true previous x).bounds.lower) := by
  have positive := problem.begun_lower_pos previous
  have long := problem.tangent.length_le problem.factors problem.positive positive
  have ratio : 1 + ((Q.begun true previous x).bounds.lower - 0) * (Q.firstSize x * Q.firstSize x) =
      TrustRegion.scaledNorm Q.scale x / Q.delta := by
    have radius := problem.radius.ne'
    rw [sub_zero, problem.begun_lower, div_div,
      div_mul_cancel₀ _ problem.tangent.square_pos.ne', sub_div, div_self radius]
    ring
  have whole : 0 < TrustRegion.scaledNorm Q.scale x := by
    have excess := problem.excess_pos
    have radius := problem.radius
    linarith
  rw [ratio, mul_div_assoc', le_div_iff₀ problem.radius, mul_comm] at long
  exact le_of_mul_le_mul_right long whole

theorem le_upper (previous : ℝ) {alpha : ℝ} (damped : 0 < alpha)
    (long : Q.delta ≤ TrustRegion.scaledNorm Q.scale (Q.dampedStep alpha)) :
    alpha ≤ (Q.begun true previous x).bounds.upper := by
  have bound := euclid_le_of_shifted
    (dampedStep_shifted problem.factors problem.positive damped)
  rw [scaledNorm_eq_euclid] at long
  rw [problem.begun_upper, le_div_iff₀ problem.radius]
  exact (mul_le_mul_of_nonneg_left long damped.le).trans bound

theorem upper_short (previous : ℝ) : TrustRegion.scaledNorm Q.scale
    (Q.dampedStep (Q.begun true previous x).bounds.upper) ≤ Q.delta := by
  have positive : 0 < euclid Q.pull / Q.delta := div_pos problem.pull_pos problem.radius
  have bound := euclid_le_of_shifted
    (dampedStep_shifted problem.factors problem.positive positive)
  rw [problem.begun_upper, scaledNorm_eq_euclid]
  rw [div_mul_eq_mul_div, div_le_iff₀ problem.radius] at bound
  exact le_of_mul_le_mul_left bound problem.pull_pos

/-- Between the bounds the length passes through the radius. -/
theorem exists_root : ∃ root, Q.IsRoot root := by
  let bounds := (Q.begun true 0 x).bounds
  have positive : 0 < bounds.lower := problem.begun_lower_pos 0
  have long := problem.lower_long 0
  have short := problem.upper_short 0
  have order : bounds.lower ≤ bounds.upper := problem.le_upper 0 positive long
  rw [scaledNorm_eq_euclid] at long short
  obtain ⟨root, above, _, length⟩ := exists_euclid_shifted_eq
    (fun alpha damped => dampedStep_shifted problem.factors problem.positive damped)
    positive order long short
  exact ⟨root, lt_of_lt_of_le positive above, (scaledNorm_eq_euclid Q _).trans length⟩

end TooLong

/-! ## The search -/

structure Bracketed (root : ℝ) (B : Bounds ℝ) : Prop where
  least : 0 < B.lower
  lower : B.lower ≤ root
  upper : root ≤ B.upper

namespace TooLong

variable (problem : Q.TooLong A x) {root : ℝ} (isRoot : Q.IsRoot root) {S : Search ℝ}

include problem isRoot

theorem begun_bracketed (previous : ℝ) : Bracketed root (Q.begun true previous x).bounds := by
  have correction := problem.tangent.correction_le problem.factors problem.positive problem.radius
    isRoot
  refine ⟨problem.begun_lower_pos previous, ?_, ?_⟩
  · rw [problem.begun_lower]
    rwa [sub_zero] at correction
  · exact problem.le_upper previous isRoot.positive isRoot.length.ge

theorem excess_nonneg (damped : 0 < (Q.made S).alpha) (below : (Q.made S).alpha ≤ root) :
    0 ≤ Q.excess S := by
  have radius := isRoot.length
  rcases below.lt_or_eq with less | same
  · have longer := problem.length_lt damped less
    rw [radius] at longer
    exact (sub_pos.mpr longer).le
  · have exact : Q.length S = Q.delta := by
      rw [← radius, ← same]
      rfl
    rw [excess, exact, sub_self]

theorem lt_root_of_excess (long : 0 < Q.excess S) : (Q.made S).alpha < root := by
  by_contra above
  rcases (not_lt.mp above).lt_or_eq with less | same
  · have shorter := problem.length_lt isRoot.positive less
    rw [isRoot.length] at shorter
    exact absurd long (not_lt.mpr (sub_neg.mpr shorter).le)
  · have exact : Q.length S = Q.delta := by
      rw [← isRoot.length, same]
      rfl
    rw [excess, exact, sub_self] at long
    exact lt_irrefl _ long

/-- A step leaves the root between the bounds, and its correction stays below the root. -/
theorem next_bracketed (damped : 0 < (Q.made S).alpha) (bracketed : Bracketed root S.bounds) :
    Bracketed root (Q.next S).bounds ∧ (Q.next S).bounds.lower ≤ (Q.next S).alpha ∧
      (Q.next S).alpha ≤ root := by
  have correction := (problem.made_tangent damped).correction_le problem.factors
    problem.positive problem.radius isRoot
  have narrowed : Bracketed root (Q.next S).bounds := by
    refine ⟨?_, ?_, ?_⟩
    · simp only [next, Bounds.narrow, Scalar.max_real]
      split
      · exact lt_max_of_lt_left bracketed.least
      · exact bracketed.least
    · simp only [next, Bounds.narrow, Scalar.max_real]
      split
      · rename_i long
        exact max_le bracketed.lower (problem.lt_root_of_excess isRoot long).le
      · exact bracketed.lower
    · simp only [next, Bounds.narrow, Scalar.min_real]
      split
      · rename_i short
        refine le_min bracketed.upper ?_
        by_contra below
        exact absurd short
          (not_lt.mpr (problem.excess_nonneg isRoot damped (not_le.mp below).le))
      · exact bracketed.upper
  have next : (Q.next S).alpha = max (Q.next S).bounds.lower ((Q.made S).alpha + Q.newton S) :=
    Scalar.max_real _ _
  rw [next]
  refine ⟨narrowed, le_max_left _ _, max_le narrowed.lower ?_⟩
  exact le_sub_iff_add_le'.mp correction

theorem made_alpha_le (damped : 0 < (Q.made S).alpha) (below : (Q.made S).alpha ≤ root) :
    (Q.made S).alpha ≤ (Q.next S).alpha := by
  have excess := problem.excess_nonneg isRoot damped below
  have square := (problem.made_tangent damped).square_pos
  have forward : 0 ≤ Q.newton S := by
    rw [newton_eq, div_div]
    exact div_nonneg (div_nonneg excess problem.radius.le) square.le
  have next : (Q.next S).alpha = max (Q.next S).bounds.lower ((Q.made S).alpha + Q.newton S) :=
    Scalar.max_real _ _
  rw [next]
  exact le_max_of_le_right (le_add_of_nonneg_right forward)

end TooLong

theorem made_alpha {S : Search ℝ} (positive : 0 < S.alpha) : (Q.made S).alpha = S.alpha :=
  if_neg fun zero => positive.ne' (beq_iff_eq.mp zero)

namespace TooLong

variable (problem : Q.TooLong A x) {root : ℝ} (isRoot : Q.IsRoot root)

include problem isRoot

theorem iterate_bracketed (previous : ℝ) (k : Nat) :
    Bracketed root (Q.next^[k] (Q.begun true previous x)).bounds ∧
      (0 < k → (Q.made (Q.next^[k] (Q.begun true previous x))).alpha ≤ root ∧
        (Q.made (Q.next^[k] (Q.begun true previous x))).alpha ≤
          (Q.made (Q.next^[k + 1] (Q.begun true previous x))).alpha) := by
  have usable (k : Nat) := (begun_usable problem.radius true previous problem.exceeds).iterate Q k
  have damped (k : Nat) := (usable k).made_pos Q
  have enclosed (k : Nat) : Bracketed root (Q.next^[k] (Q.begun true previous x)).bounds := by
    induction k with
    | zero => exact problem.begun_bracketed isRoot previous
    | succ k ih =>
        rw [Function.iterate_succ_apply']
        exact (problem.next_bracketed isRoot (damped k) ih).1
  have corrected (k : Nat) := problem.next_bracketed isRoot (damped k) (enclosed k)
  have used (k : Nat) : (Q.made (Q.next^[k + 1] (Q.begun true previous x))).alpha =
      (Q.next (Q.next^[k] (Q.begun true previous x))).alpha := by
    rw [Function.iterate_succ_apply']
    exact made_alpha (lt_of_lt_of_le (corrected k).1.least (corrected k).2.1)
  refine ⟨enclosed k, fun later => ?_⟩
  obtain ⟨k, rfl⟩ := Nat.exists_eq_succ_of_ne_zero later.ne'
  have below : (Q.made (Q.next^[k + 1] (Q.begun true previous x))).alpha ≤ root := by
    rw [used]
    exact (corrected k).2.2
  refine ⟨below, ?_⟩
  rw [used (k + 1)]
  exact problem.made_alpha_le isRoot (damped (k + 1)) below

end TooLong

/-- One column of one, a right-hand side of two and a radius of one: the Gauss-Newton step is
two. -/
theorem one_column_too_long :
    let F := Factorization.ofMatrix (.ofFn fun _ _ => 1 : DenseMatrix ℝ 1 1)
    TooLong { factor := F, rhs := F.qtMul #v[2], scale := #v[1], delta := 1 }
      (.ofFn fun _ _ => 1) (F.rSolve (F.qtMul #v[2])) := by
  intro F
  let A : DenseMatrix ℝ 1 1 := .ofFn fun _ _ => 1
  have factors : F.Factors A := Factorization.ofMatrix_factors A
  have entry (i j : Fin 1) : A.toMatrix i j = 1 := DenseMatrix.get_ofFn _ i j
  have nonzero (p : Fin 1) : A.toMatrix.col p ≠ 0 := by
    intro vanishes
    have zero := congrFun vanishes 0
    rw [col_apply, entry] at zero
    exact one_ne_zero zero
  have small : (Reduction.tolerance 1 1 : ℝ) < 1 := Reduction.tolerance_lt_one (by decide)
  have rank : F.rank = 1 := le_antisymm F.rank_le_rows (factors.rank_pos small (nonzero 0))
  have nothing : F.discarded = 0 := by
    ext i j
    have low := i.property
    omega
  have all : A.nonzeroCols = Finset.univ := Finset.filter_true_of_mem fun p _ => nonzero p
  have image : A.toMatrix *ᵥ #v[(2 : ℝ)].get = #v[(2 : ℝ)].get := by
    funext i
    rw [mulVec, dotProduct, Fin.sum_univ_one, entry, one_mul, Subsingleton.elim i 0]
  have solved : #v[(2 : ℝ)].get = (F.rSolve (F.qtMul #v[2])).get :=
    (factors.rSolve_isOnlyMinimizer nothing rank fun i => by
      rw [Factorization.qtMul_real]
      rfl).eq_of_isMinimizer (Normal.of_image image).isMinimizer
  refine ⟨factors, ?_, fun p => ?_, one_pos, ?_, ?_⟩
  · rw [rank, all, Finset.card_univ, Fintype.card_fin]
  · fin_cases p
    exact one_pos
  · rw [gaussNewton, if_neg (by rw [rank]; exact one_ne_zero), if_pos rfl]
  · rw [scaledNorm_eq_euclid, euclid, dotProduct, Fin.sum_univ_one, scaled, ← solved,
      Real.sqrt_mul_self (by norm_num [Vector.get_eq])]
    norm_num [Vector.get_eq]

/-- One `alpha` gives the step the length of the radius, and the search closes in on it: the bounds
enclose it all the time, and from the second step on `alpha` climbs towards it. -/
theorem search_brackets (problem : Q.TooLong A x) (previous : ℝ) :
    ∃ root, 0 < root ∧ TrustRegion.scaledNorm Q.scale (Q.dampedStep root) = Q.delta ∧
      (∀ alpha, 0 < alpha → TrustRegion.scaledNorm Q.scale (Q.dampedStep alpha) = Q.delta →
        alpha = root) ∧
      ∃ found steps, Q.solve true previous = .ok found ∧
        Q.Ended (Q.begun true previous x) furtherSteps 1 steps found ∧
        ∀ k ≤ steps,
          (Q.next^[k] (Q.begun true previous x)).bounds.lower ≤ root ∧
          root ≤ (Q.next^[k] (Q.begun true previous x)).bounds.upper ∧
          (0 < k → (Q.made (Q.next^[k] (Q.begun true previous x))).alpha ≤ root ∧
            (Q.made (Q.next^[k] (Q.begun true previous x))).alpha ≤
              (Q.made (Q.next^[k + 1] (Q.begun true previous x))).alpha) := by
  obtain ⟨root, isRoot⟩ := problem.exists_root
  obtain ⟨steps, ended⟩ := Q.searchFrom_ended furtherSteps 1 (Q.begun true previous x)
  refine ⟨root, isRoot.positive, isRoot.length,
    fun alpha positive length => problem.root_unique isRoot ⟨positive, length⟩, _, steps,
    Q.solve_of_long previous problem.step problem.exceeds, ended, fun k _ => ?_⟩
  obtain ⟨enclosed, climbs⟩ := problem.iterate_bracketed isRoot previous k
  exact ⟨enclosed.lower, enclosed.upper, climbs⟩

theorem search_brackets_one_column :
    let F := Factorization.ofMatrix (.ofFn fun _ _ => 1 : DenseMatrix ℝ 1 1)
    let Q : Problem ℝ 1 1 := { factor := F, rhs := F.qtMul #v[2], scale := #v[1], delta := 1 }
    let S := Q.begun true 0 (F.rSolve (F.qtMul #v[2]))
    ∃ root, 0 < root ∧ TrustRegion.scaledNorm Q.scale (Q.dampedStep root) = Q.delta ∧
      (∀ alpha, 0 < alpha → TrustRegion.scaledNorm Q.scale (Q.dampedStep alpha) = Q.delta →
        alpha = root) ∧
      ∃ found steps, Q.solve true 0 = .ok found ∧ Q.Ended S furtherSteps 1 steps found ∧
        ∀ k ≤ steps, (Q.next^[k] S).bounds.lower ≤ root ∧ root ≤ (Q.next^[k] S).bounds.upper ∧
          (0 < k → (Q.made (Q.next^[k] S)).alpha ≤ root ∧
            (Q.made (Q.next^[k] S)).alpha ≤ (Q.made (Q.next^[k + 1] S)).alpha) :=
  search_brackets one_column_too_long 0

end Problem

end Damping

end LeastSquares

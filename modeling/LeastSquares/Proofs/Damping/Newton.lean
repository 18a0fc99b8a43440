import LeastSquares.Proofs.Damping.Pairing
import LeastSquares.Proofs.Damping.Secular

/-!
# The corrections of the search

In the coordinates `D x` the damped steps are the solutions of a secular equation, with `R P' D⁻¹`
for its matrix. The correction of a search step is the Newton step of that equation, and so is the
lower bound that a search begins with, from `alpha = 0`. So neither goes beyond the `alpha` whose
step has the length of the radius.
-/

set_option autoImplicit false

namespace LeastSquares.Damping

open Matrix

variable {m n : Nat} {Q : Problem ℝ m n} {A : DenseMatrix ℝ m n}

namespace Problem

/-! ## Scaled coordinates -/

/-- `D x`. -/
def scaled (Q : Problem ℝ m n) (x : Vector ℝ n) : Fin n → ℝ := fun p => Q.scale p * x p

/-- `R P' D⁻¹`. -/
noncomputable def scaledRows (Q : Problem ℝ m n) : Matrix (Fin Q.factor.rank) (Fin n) ℝ :=
  Q.rows * diagonal fun p => (Q.scale p)⁻¹

/-- `D⁻¹ P R' c`. -/
noncomputable def pull (Q : Problem ℝ m n) : Fin n → ℝ :=
  Q.scaledRowsᵀ *ᵥ (Q.rhs ∘ Q.factor.topCol)

theorem scaledNorm_eq_euclid (Q : Problem ℝ m n) (x : Vector ℝ n) :
    TrustRegion.scaledNorm Q.scale x = euclid (Q.scaled x) := by
  rw [TrustRegion.scaledNorm, Scalar.norm_real, Scalar.sumSquares_real, euclid]
  refine congrArg Real.sqrt (Finset.sum_congr rfl fun p _ => ?_)
  rw [if_pos rfl, Vector.get_ofFn]
  rfl

theorem scaledRows_mulVec (Q : Problem ℝ m n) (v : Fin n → ℝ) :
    Q.scaledRows *ᵥ v = Q.rows *ᵥ fun p => (Q.scale p)⁻¹ * v p := by
  rw [scaledRows, ← mulVec_mulVec]
  refine congrArg (Q.rows *ᵥ ·) (funext fun p => ?_)
  rw [mulVec_diagonal]

theorem scaledRows_scaled (positive : ∀ p, 0 < Q.scale p) (x : Vector ℝ n) :
    Q.scaledRows *ᵥ Q.scaled x = Q.rows *ᵥ x.get := by
  rw [scaledRows_mulVec]
  refine congrArg (Q.rows *ᵥ ·) (funext fun p => ?_)
  rw [scaled, inv_mul_cancel_left₀ (positive p).ne']

theorem scaledRows_transpose_mulVec (Q : Problem ℝ m n) (v : Fin Q.factor.rank → ℝ) (p : Fin n) :
    (Q.scaledRowsᵀ *ᵥ v) p = (Q.scale p)⁻¹ * (Q.rowsᵀ *ᵥ v) p := by
  rw [scaledRows, transpose_mul, diagonal_transpose, ← mulVec_mulVec, mulVec_diagonal]

theorem shifted_of_rows (positive : ∀ p, 0 < Q.scale p) {x : Vector ℝ n}
    (solves : Q.rows *ᵥ x.get = Q.rhs ∘ Q.factor.topCol) :
    shifted Q.scaledRows 0 (Q.scaled x) = Q.pull := by
  rw [shifted, zero_smul, add_zero, scaledRows_scaled positive, solves, pull]

theorem damping_mul_self (Q : Problem ℝ m n) {alpha : ℝ} (nonneg : 0 ≤ alpha) (p : Fin n) :
    Q.damping alpha p * Q.damping alpha p = alpha * (Q.scale p * Q.scale p) := by
  rw [damping_get, mul_mul_mul_comm, Real.mul_self_sqrt nonneg]

theorem dampedStep_shifted (factors : Q.factor.Factors A) (positive : ∀ p, 0 < Q.scale p)
    {alpha : ℝ} (damped : 0 < alpha) :
    shifted Q.scaledRows alpha (Q.scaled (Q.dampedStep alpha)) = Q.pull := by
  have normal := (dampedStep_isOnlyMinimizer factors positive damped).isMinimizer.normal
  rw [Normal, Factorization.damped, transpose_fromRows, fromCols_mulVec, fromRows_mulVec] at normal
  funext p
  have entry := congrFun normal p
  have nonzero := (positive p).ne'
  change (Q.rowsᵀ *ᵥ (Q.rows *ᵥ (Q.dampedStep alpha).get - Q.rhs ∘ Q.factor.topCol)) p +
    ((diagonal (Q.damping alpha).get)ᵀ *ᵥ
      (diagonal (Q.damping alpha).get *ᵥ (Q.dampedStep alpha).get - 0)) p = 0 at entry
  rw [sub_zero, diagonal_transpose, mulVec_diagonal, mulVec_diagonal, ← mul_assoc,
    damping_mul_self Q damped.le, mulVec_sub, Pi.sub_apply] at entry
  rw [shifted, scaledRows_scaled positive, Pi.add_apply, Pi.smul_apply, smul_eq_mul, pull,
    scaledRows_transpose_mulVec, scaledRows_transpose_mulVec, scaled]
  field_simp
  linarith

/-! ## The slope of the secular equation -/

section Slope

noncomputable def direction (Q : Problem ℝ m n) (factors : Q.factor.Factors A) (length : ℝ)
    (q : Fin n → ℝ) : Fin n → ℝ :=
  fun p => length * (Q.scale p * q ((Equiv.ofBijective _ factors.bijective).symm p))

variable (factors : Q.factor.Factors A)

theorem direction_get (length : ℝ) (q : Fin n → ℝ) (j : Fin n) :
    Q.direction factors length q (Q.factor.perm.get j) =
      length * (Q.scale (Q.factor.perm.get j) * q j) := by
  have back : (Equiv.ofBijective _ factors.bijective).symm (Q.factor.perm.get j) = j :=
    (Equiv.ofBijective _ factors.bijective).symm_apply_apply j
  rw [direction, back]

theorem outward_get (Q : Problem ℝ m n) (x : Vector ℝ n) (length : ℝ) (j : Fin n) :
    Q.outward x length j = Q.scale (Q.factor.perm.get j) *
      (Q.scaled x (Q.factor.perm.get j) / length) :=
  Vector.get_ofFn _ j

/-- If `q` solves the pivoted equations for `D' D x / ‖D x‖`, then `‖D x‖ D q` is the slope at
`D x`. -/
theorem direction_slope (positive : ∀ p, 0 < Q.scale p) {alpha length : ℝ} {x : Vector ℝ n}
    {q : Fin n → ℝ} (nonzero : length ≠ 0)
    (solves : ∀ j, (Q.factor.topRowsᵀ *ᵥ (Q.factor.topRows *ᵥ q)) j +
      alpha * (Q.scale (Q.factor.perm.get j) * Q.scale (Q.factor.perm.get j)) * q j =
        Q.outward x length j) :
    shifted Q.scaledRows alpha (Q.direction factors length q) = Q.scaled x := by
  have image : Q.scaledRows *ᵥ Q.direction factors length q =
      length • (Q.factor.topRows *ᵥ q) := by
    rw [scaledRows_mulVec, rows, ← mulVec_mulVec, Permutation.transpose_mulVec, ← mulVec_smul]
    refine congrArg (Q.factor.topRows *ᵥ ·) (funext fun j => ?_)
    rw [Function.comp_apply, direction_get, mul_left_comm,
      inv_mul_cancel_left₀ (positive (Q.factor.perm.get j)).ne']
    rfl
  funext p
  obtain ⟨j, rfl⟩ := factors.bijective.surjective p
  have entry := solves j
  have pivot := (positive (Q.factor.perm.get j)).ne'
  have rows : (Q.rowsᵀ *ᵥ (Q.factor.topRows *ᵥ q)) (Q.factor.perm.get j) =
      (Q.factor.topRowsᵀ *ᵥ (Q.factor.topRows *ᵥ q)) j := rows_transpose_mulVec factors _ j
  rw [outward_get] at entry
  rw [shifted, image, mulVec_smul, Pi.add_apply, Pi.smul_apply, Pi.smul_apply, smul_eq_mul,
    smul_eq_mul, scaledRows_transpose_mulVec, rows, direction_get]
  field_simp at entry ⊢
  linarith

theorem direction_dot {length : ℝ} (x : Vector ℝ n) (q : Fin n → ℝ) (nonzero : length ≠ 0) :
    Q.scaled x ⬝ᵥ Q.direction factors length q =
      length * length * (q ⬝ᵥ (Q.outward x length).get) := by
  have order : Q.scaled x ⬝ᵥ Q.direction factors length q = ∑ j,
      Q.scaled x (Q.factor.perm.get j) * Q.direction factors length q (Q.factor.perm.get j) :=
    (factors.bijective.sum_comp fun p => Q.scaled x p * Q.direction factors length q p).symm
  rw [order, dotProduct, Finset.mul_sum]
  refine Finset.sum_congr rfl fun j _ => ?_
  rw [direction_get, outward_get]
  field_simp

end Slope

/-! ## The Newton correction -/

/-- `x` is the step of `alpha`, and `size` the length of the triangular solve that says how fast
`‖D x‖` falls there. -/
structure Tangent (Q : Problem ℝ m n) (alpha : ℝ) (x : Vector ℝ n) (size : ℝ) : Prop where
  nonneg : 0 ≤ alpha
  nonzero : Q.scaled x ≠ 0
  solution : shifted Q.scaledRows alpha (Q.scaled x) = Q.pull
  slope : ∃ w, shifted Q.scaledRows alpha w = Q.scaled x ∧
    Q.scaled x ⬝ᵥ w = (Q.scaled x ⬝ᵥ Q.scaled x) * (size * size)

/-- An `alpha` whose damped step has the length of the radius. -/
structure IsRoot (Q : Problem ℝ m n) (root : ℝ) : Prop where
  positive : 0 < root
  length : TrustRegion.scaledNorm Q.scale (Q.dampedStep root) = Q.delta

namespace Tangent

variable {alpha size : ℝ} {x : Vector ℝ n}

theorem of_pivoted (factors : Q.factor.Factors A) (positive : ∀ p, 0 < Q.scale p)
    (nonneg : 0 ≤ alpha) (nonzero : Q.scaled x ≠ 0)
    (solution : shifted Q.scaledRows alpha (Q.scaled x) = Q.pull) {q : Fin n → ℝ}
    (solves : ∀ j, (Q.factor.topRowsᵀ *ᵥ (Q.factor.topRows *ᵥ q)) j +
      alpha * (Q.scale (Q.factor.perm.get j) * Q.scale (Q.factor.perm.get j)) * q j =
        Q.outward x (TrustRegion.scaledNorm Q.scale x) j)
    (square : size * size = q ⬝ᵥ (Q.outward x (TrustRegion.scaledNorm Q.scale x)).get) :
    Q.Tangent alpha x size := by
  rw [scaledNorm_eq_euclid] at solves square
  have length := (euclid_pos nonzero).ne'
  refine ⟨nonneg, nonzero, solution, Q.direction factors (euclid (Q.scaled x)) q,
    direction_slope factors positive length solves, ?_⟩
  rw [direction_dot factors x q length, ← square, euclid_mul_self]

variable (tangent : Q.Tangent alpha x size)

include tangent

theorem pull_ne_zero : Q.pull ≠ 0 := by
  obtain ⟨w, slope, _⟩ := tangent.slope
  exact right_ne_zero tangent.nonzero tangent.solution slope

theorem square_pos : 0 < size * size := by
  obtain ⟨w, slope, linear⟩ := tangent.slope
  have outward := dot_slope_pos tangent.nonneg tangent.nonzero slope
  rw [linear] at outward
  exact pos_of_mul_pos_right outward (dot_self_nonneg _)

theorem length_le (factors : Q.factor.Factors A) (positive : ∀ p, 0 < Q.scale p) {beta : ℝ}
    (damped : 0 < beta) : TrustRegion.scaledNorm Q.scale x ≤
      TrustRegion.scaledNorm Q.scale (Q.dampedStep beta) *
        (1 + (beta - alpha) * (size * size)) := by
  obtain ⟨w, slope, linear⟩ := tangent.slope
  rw [scaledNorm_eq_euclid, scaledNorm_eq_euclid]
  exact euclid_le_of_slope tangent.nonneg damped tangent.nonzero tangent.solution
    (dampedStep_shifted factors positive damped) slope linear

/-- A correction does not go beyond the root, on whichever side of it it is made. -/
theorem correction_le (factors : Q.factor.Factors A) (positive : ∀ p, 0 < Q.scale p)
    (radius : 0 < Q.delta) {root : ℝ} (isRoot : Q.IsRoot root) :
    (TrustRegion.scaledNorm Q.scale x - Q.delta) / Q.delta / size / size ≤ root - alpha := by
  have above := tangent.length_le factors positive isRoot.positive
  rw [isRoot.length] at above
  rw [div_div, div_le_iff₀ tangent.square_pos, div_le_iff₀ radius]
  linarith

end Tangent

theorem triangle_solves (factors : Q.factor.Factors A) (positive : ∀ p, 0 < Q.scale p) {alpha : ℝ}
    (damped : 0 < alpha) (rhs : Vector ℝ n) :
    ∃ q : Fin n → ℝ, (∀ j, (Q.factor.topRowsᵀ *ᵥ (Q.factor.topRows *ᵥ q)) j +
        alpha * (Q.scale (Q.factor.perm.get j) * Q.scale (Q.factor.perm.get j)) * q j = rhs j) ∧
      Scalar.norm (fun _ => true) (forwardSubstitute n (Q.triangle alpha).entry rhs) *
        Scalar.norm (fun _ => true) (forwardSubstitute n (Q.triangle alpha).entry rhs) =
          q ⬝ᵥ rhs.get := by
  have upper : Upper (Q.triangle alpha).entry :=
    (Q.factor.dampedTriangle_pairing Q.rhs (Q.damping alpha)).1
  have pivots (j : Fin n) (_ : j.val < n) := triangle_diag positive damped j
  let z := forwardSubstitute n (Q.triangle alpha).entry rhs
  let q := backSubstitute n (Q.triangle alpha).entry z
  have forward : (Matrix.of (Q.triangle alpha).entry)ᵀ *ᵥ z.get = rhs.get :=
    funext fun j => (forwardSubstitute_spec rhs upper pivots).2 j j.isLt
  have back : Matrix.of (Q.triangle alpha).entry *ᵥ q.get = z.get :=
    funext fun j => (backSubstitute_spec z upper pivots).2 j j.isLt
  refine ⟨q.get, fun j => ?_, ?_⟩
  · have gram : (Matrix.of (Q.triangle alpha).entry)ᵀ * Matrix.of (Q.triangle alpha).entry =
        Q.factor.topRowsᵀ * Q.factor.topRows +
          diagonal ((Q.damping alpha).get ∘ Q.factor.perm.get) ^ 2 := by
      rw [← factors.conjugate_diagonal]
      exact factors.dampedTriangle_gram Q.rhs (Q.damping alpha)
    have whole := congrFun (congrArg (· *ᵥ q.get) gram) j
    simp only [pow_two, ← mulVec_mulVec, add_mulVec, back, forward, mulVec_diagonal, Pi.add_apply,
      Function.comp_apply] at whole
    rw [← mul_assoc, damping_mul_self Q damped.le] at whole
    exact whole.symm
  · have dot : (∑ i, if true then z i * z i else 0) = z.get ⬝ᵥ z.get :=
      Finset.sum_congr rfl fun i _ => if_pos rfl
    rw [Scalar.norm_mul_self, Scalar.sumSquares_real]
    refine dot.trans ?_
    conv_lhs => rw [← back]
    rw [← forward, dotProduct_comm, dotProduct_mulVec, ← mulVec_transpose, dotProduct_comm, back]

noncomputable def madeSize (Q : Problem ℝ m n) (S : Search ℝ) : ℝ :=
  Scalar.norm (fun _ => true) (forwardSubstitute n (Q.triangle (Q.made S).alpha).entry
    (Q.outward (Q.made S).x (Q.length S)))

theorem newton_eq (Q : Problem ℝ m n) (S : Search ℝ) : Q.newton S =
    (Q.length S - Q.delta) / Q.delta / Q.madeSize S / Q.madeSize S := rfl

theorem made_tangent (factors : Q.factor.Factors A) (positive : ∀ p, 0 < Q.scale p) {S : Search ℝ}
    (damped : 0 < (Q.made S).alpha) (nonzero : Q.scaled (Q.made S).x ≠ 0) :
    Q.Tangent (Q.made S).alpha (Q.made S).x (Q.madeSize S) := by
  obtain ⟨q, solves, square⟩ := triangle_solves factors positive damped
    (Q.outward (Q.made S).x (Q.length S))
  exact Tangent.of_pivoted factors positive damped.le nonzero
    (dampedStep_shifted factors positive damped) solves square

end Problem

end LeastSquares.Damping

import Mathlib.Algebra.QuadraticDiscriminant
import Mathlib.Analysis.InnerProductSpace.PiL2
import LeastSquares.Proofs.Euclid

/-!
# The secular equation

Let `y(alpha)` solve `J' J y + alpha y = g`. Its length falls strictly as `alpha` grows, is at most
`‖g‖ / alpha` and depends continuously on `alpha`, so that at most one `alpha` gives it a wanted
length. Newton's method looks for that `alpha` by the reciprocal of the length, which is concave: a
Newton step never goes beyond the `alpha` it looks for, on whichever side of it the step begins.
-/

set_option autoImplicit false

namespace LeastSquares

open Matrix

variable {ι κ : Type} [Fintype ι] [Fintype κ]

/-! ## Lengths -/

theorem euclid_nonneg (v : ι → ℝ) : 0 ≤ euclid v := Real.sqrt_nonneg _

theorem euclid_mul_self (v : ι → ℝ) : euclid v * euclid v = v ⬝ᵥ v :=
  Real.mul_self_sqrt (dot_self_nonneg v)

theorem euclid_pos {v : ι → ℝ} (nonzero : v ≠ 0) : 0 < euclid v :=
  Real.sqrt_pos.mpr (dot_self_pos nonzero)

theorem euclid_eq_norm (v : ι → ℝ) : euclid v = ‖WithLp.toLp 2 v‖ := by
  rw [EuclideanSpace.norm_eq, euclid, dotProduct]
  refine congrArg Real.sqrt (Finset.sum_congr rfl fun i _ => ?_)
  rw [Real.norm_eq_abs, sq_abs, sq]

theorem dot_le_euclid (u v : ι → ℝ) : u ⬝ᵥ v ≤ euclid u * euclid v := by
  have bound := real_inner_le_norm (WithLp.toLp 2 v) (WithLp.toLp 2 u)
  rw [← euclid_eq_norm, ← euclid_eq_norm, EuclideanSpace.inner_toLp_toLp, star_trivial,
    mul_comm (euclid v)] at bound
  exact bound

theorem abs_euclid_sub_le (u v : ι → ℝ) : |euclid u - euclid v| ≤ euclid (u - v) := by
  rw [euclid_eq_norm, euclid_eq_norm, euclid_eq_norm, WithLp.toLp_sub]
  exact abs_norm_sub_norm_le _ _

theorem euclid_smul (t : ℝ) (v : ι → ℝ) : euclid (t • v) = |t| * euclid v := by
  rw [euclid_eq_norm, euclid_eq_norm, WithLp.toLp_smul, norm_smul, Real.norm_eq_abs]

theorem IsMinimizer.normal {A : Matrix ι κ ℝ} {b : ι → ℝ} {x : κ → ℝ}
    (minimizes : IsMinimizer A b x) : Normal A b x := by
  let r := A *ᵥ x - b
  let e := Aᵀ *ᵥ r
  have slope : r ⬝ᵥ (A *ᵥ e) = e ⬝ᵥ e := by rw [dotProduct_mulVec, ← mulVec_transpose]
  have moved (s : ℝ) : 0 ≤ (A *ᵥ e) ⬝ᵥ (A *ᵥ e) * (s * s) + 2 * (e ⬝ᵥ e) * s + 0 := by
    have below : r ⬝ᵥ r ≤ (A *ᵥ (x + s • e) - b) ⬝ᵥ (A *ᵥ (x + s • e) - b) :=
      euclid_le_iff.mp (minimizes (x + s • e))
    have step : A *ᵥ (x + s • e) - b = r + s • (A *ᵥ e) := by
      rw [mulVec_add, mulVec_smul, add_sub_right_comm]
    rw [step, add_dotProduct, dotProduct_add, dotProduct_add, smul_dotProduct, smul_dotProduct,
      dotProduct_smul, dotProduct_smul, dotProduct_comm (A *ᵥ e) r, slope] at below
    simp only [smul_eq_mul] at below
    linarith
  have discriminant := discrim_le_zero moved
  rw [discrim, mul_zero, sub_zero, sq_nonpos_iff] at discriminant
  exact dotProduct_self_eq_zero.mp (by linarith)

/-! ## The shifted normal matrix -/

def shifted (J : Matrix ι κ ℝ) (alpha : ℝ) (q : κ → ℝ) : κ → ℝ := Jᵀ *ᵥ (J *ᵥ q) + alpha • q

section Shifted

variable (J : Matrix ι κ ℝ) (alpha beta : ℝ) (p q : κ → ℝ)

theorem dot_gram : p ⬝ᵥ (Jᵀ *ᵥ (J *ᵥ q)) = (J *ᵥ p) ⬝ᵥ (J *ᵥ q) := by
  rw [dotProduct_mulVec, vecMul_transpose]

theorem dot_shifted : p ⬝ᵥ shifted J alpha q = (J *ᵥ p) ⬝ᵥ (J *ᵥ q) + alpha * (p ⬝ᵥ q) := by
  rw [shifted, dotProduct_add, dot_gram, dotProduct_smul, smul_eq_mul]

theorem dot_shifted_comm : p ⬝ᵥ shifted J alpha q = q ⬝ᵥ shifted J alpha p := by
  rw [dot_shifted, dot_shifted, dotProduct_comm (J *ᵥ p), dotProduct_comm p]

theorem shifted_add : shifted J alpha (p + q) = shifted J alpha p + shifted J alpha q := by
  simp only [shifted, mulVec_add, smul_add]
  abel

theorem shifted_sub : shifted J alpha (p - q) = shifted J alpha p - shifted J alpha q := by
  simp only [shifted, mulVec_sub, smul_sub]
  abel

theorem shifted_smul (s : ℝ) : shifted J alpha (s • q) = s • shifted J alpha q := by
  simp only [shifted, mulVec_smul, smul_add, smul_comm s alpha]

theorem shifted_change : shifted J beta q = shifted J alpha q + (beta - alpha) • q := by
  simp only [shifted, sub_smul]
  abel

variable {J alpha beta}

theorem mul_dot_self_le : alpha * (q ⬝ᵥ q) ≤ q ⬝ᵥ shifted J alpha q := by
  rw [dot_shifted]
  exact le_add_of_nonneg_left (dot_self_nonneg _)

theorem dot_shifted_nonneg (nonneg : 0 ≤ alpha) : 0 ≤ q ⬝ᵥ shifted J alpha q :=
  (mul_nonneg nonneg (dot_self_nonneg q)).trans (mul_dot_self_le q)

/-- Two shifts of one matrix commute, so their product is not negative either. -/
theorem shifted_dot_shifted_nonneg (first : 0 ≤ alpha) (second : 0 ≤ beta) :
    0 ≤ shifted J alpha q ⬝ᵥ shifted J beta q := by
  have expanded : shifted J alpha q ⬝ᵥ shifted J beta q =
      (Jᵀ *ᵥ (J *ᵥ q)) ⬝ᵥ (Jᵀ *ᵥ (J *ᵥ q)) + (alpha + beta) * ((J *ᵥ q) ⬝ᵥ (J *ᵥ q)) +
        alpha * beta * (q ⬝ᵥ q) := by
    rw [shifted, shifted, add_dotProduct, dotProduct_add, dotProduct_add, smul_dotProduct,
      smul_dotProduct, dotProduct_smul, dotProduct_smul, dotProduct_comm (Jᵀ *ᵥ (J *ᵥ q)) q,
      dot_gram J q q]
    simp only [smul_eq_mul]
    ring
  rw [expanded]
  have gram := dot_self_nonneg (Jᵀ *ᵥ (J *ᵥ q))
  have image := mul_nonneg (add_nonneg first second) (dot_self_nonneg (J *ᵥ q))
  have own := mul_nonneg (mul_nonneg first second) (dot_self_nonneg q)
  linarith

end Shifted

/-! ## Two solutions -/

section Solutions

variable {J : Matrix ι κ ℝ} {g u v : κ → ℝ} {alpha beta : ℝ}

theorem shifted_difference (first : shifted J alpha u = g) (second : shifted J beta v = g) :
    shifted J alpha (u - v) = (beta - alpha) • v := by
  rw [shifted_change J alpha beta] at second
  rw [shifted_sub, first, ← second]
  abel

theorem ne_zero_of_shifted (nonzero : g ≠ 0) (solves : shifted J alpha u = g) : u ≠ 0 := by
  rintro rfl
  rw [shifted, mulVec_zero, mulVec_zero, smul_zero, add_zero] at solves
  exact nonzero solves.symm

theorem euclid_le_of_shifted (solves : shifted J alpha u = g) :
    alpha * euclid u ≤ euclid g := by
  by_cases zero : euclid u = 0
  · rw [zero, mul_zero]
    exact euclid_nonneg g
  · have positive := lt_of_le_of_ne (euclid_nonneg u) (Ne.symm zero)
    refine le_of_mul_le_mul_left ?_ positive
    calc euclid u * (alpha * euclid u) = alpha * (u ⬝ᵥ u) := by rw [← euclid_mul_self]; ring
      _ ≤ u ⬝ᵥ shifted J alpha u := mul_dot_self_le u
      _ = u ⬝ᵥ g := by rw [solves]
      _ ≤ euclid u * euclid g := dot_le_euclid u g

theorem euclid_sub_le_of_shifted (first : shifted J alpha u = g) (second : shifted J beta v = g) :
    alpha * euclid (u - v) ≤ |beta - alpha| * euclid v := by
  rw [← euclid_smul]
  exact euclid_le_of_shifted (shifted_difference first second)

/-- The larger `alpha` has the shorter solution. -/
theorem euclid_lt_of_shifted (nonneg : 0 ≤ alpha) (less : alpha < beta) (nonzero : v ≠ 0)
    (first : shifted J alpha u = g) (second : shifted J beta v = g) : euclid v < euclid u := by
  have change := shifted_difference first second
  have difference : u - v ≠ 0 := by
    intro same
    rw [same, shifted, mulVec_zero, mulVec_zero, smul_zero, add_zero] at change
    exact nonzero ((smul_eq_zero.mp change.symm).resolve_left (sub_pos.mpr less).ne')
  have outward : 0 ≤ v ⬝ᵥ (u - v) := by
    have pairing := dot_shifted_nonneg (J := J) (u - v) nonneg
    rw [change, dotProduct_smul, smul_eq_mul, dotProduct_comm] at pairing
    exact nonneg_of_mul_nonneg_right pairing (sub_pos.mpr less)
  have square : u ⬝ᵥ u = v ⬝ᵥ v + 2 * (v ⬝ᵥ (u - v)) + (u - v) ⬝ᵥ (u - v) := by
    rw [sub_dotProduct, dotProduct_sub, dotProduct_sub, dotProduct_comm u v]
    ring
  rw [euclid_lt_iff, square]
  have positive := dot_self_pos difference
  linarith

end Solutions

/-! ## Newton's method -/

section Newton

variable {J : Matrix ι κ ℝ} {g u v w : κ → ℝ} {alpha beta : ℝ}

theorem dot_slope_pos (nonneg : 0 ≤ alpha) (nonzero : u ≠ 0) (slope : shifted J alpha w = u) :
    0 < u ⬝ᵥ w := by
  have square : u ⬝ᵥ w = (J *ᵥ w) ⬝ᵥ (J *ᵥ w) + alpha * (w ⬝ᵥ w) := by
    rw [dotProduct_comm, ← slope, dot_shifted]
  have image := dot_self_nonneg (J *ᵥ w)
  have own := mul_nonneg nonneg (dot_self_nonneg w)
  refine lt_of_le_of_ne (by linarith) fun zero => nonzero ?_
  have noImage : J *ᵥ w = 0 := dotProduct_self_eq_zero.mp (by linarith)
  have noOwn : alpha • w = 0 := by
    rcases mul_eq_zero.mp (show alpha * (w ⬝ᵥ w) = 0 by linarith) with none | zero
    · rw [none, zero_smul]
    · rw [dotProduct_self_eq_zero.mp zero, smul_zero]
  rw [← slope, shifted, noImage, mulVec_zero, noOwn, add_zero]

theorem right_ne_zero (nonzero : u ≠ 0) (first : shifted J alpha u = g)
    (slope : shifted J alpha w = u) : g ≠ 0 := by
  intro zero
  have pairing := dot_shifted_comm J alpha u w
  rw [slope, first, zero, dotProduct_zero] at pairing
  exact nonzero (dotProduct_self_eq_zero.mp pairing)

/-- The reciprocal of the length is concave. `w` gives its slope at `alpha`. -/
theorem euclid_mul_le_of_shifted (nonneg : 0 ≤ alpha) (positive : 0 < beta) (nonzero : u ≠ 0)
    (first : shifted J alpha u = g) (second : shifted J beta v = g)
    (slope : shifted J alpha w = u) :
    euclid u * (u ⬝ᵥ u) ≤ euclid v * (u ⬝ᵥ u + (beta - alpha) * (u ⬝ᵥ w)) := by
  let t := beta - alpha
  have change : shifted J alpha (u - v) = t • v := shifted_difference first second
  have changeBack : shifted J beta (u - v) = t • u := by
    rw [shifted_change J alpha beta, change, ← smul_add, add_sub_cancel]
  have slopeBeyond : shifted J beta w = u + t • w := by
    rw [shifted_change J alpha beta, slope]
  -- Pairing the equation of `w` with `u - v` and the other way round.
  have balance : u ⬝ᵥ u = u ⬝ᵥ v + t * (v ⬝ᵥ w) := by
    have pairing := dot_shifted_comm J alpha w (u - v)
    rw [change, slope, dotProduct_smul, smul_eq_mul, sub_dotProduct, dotProduct_comm w v,
      dotProduct_comm v u] at pairing
    linarith
  -- The product of the two shifts is not negative on any combination of `u - v` and `w`.
  have combined (s : ℝ) : 0 ≤ (u ⬝ᵥ u + t * (u ⬝ᵥ w)) * (s * s) + 2 * t * (u ⬝ᵥ u) * s +
      t * t * (u ⬝ᵥ v) := by
    have pairing := shifted_dot_shifted_nonneg (J := J) (u - v + s • w) nonneg positive.le
    rw [shifted_add, shifted_add, shifted_smul, shifted_smul, change, changeBack, slope,
      slopeBeyond] at pairing
    simp only [add_dotProduct, dotProduct_add, smul_dotProduct, dotProduct_smul, smul_eq_mul,
      dotProduct_comm v u] at pairing
    rw [show u ⬝ᵥ v = u ⬝ᵥ u - t * (v ⬝ᵥ w) by linarith] at pairing ⊢
    linarith
  by_cases same : t = 0
  · have shorter : euclid u * euclid u ≤ euclid u * euclid v := by
      rw [euclid_mul_self, balance, same, zero_mul, add_zero]
      exact dot_le_euclid u v
    have less := le_of_mul_le_mul_left shorter (euclid_pos nonzero)
    change _ ≤ euclid v * (u ⬝ᵥ u + t * (u ⬝ᵥ w))
    rw [same, zero_mul, add_zero]
    exact mul_le_mul_of_nonneg_right less (dot_self_nonneg u)
  · have squares : 0 < t * t := mul_self_pos.mpr same
    have discriminant := discrim_le_zero combined
    rw [discrim] at discriminant
    have product : (u ⬝ᵥ u) * (u ⬝ᵥ u) ≤ (u ⬝ᵥ v) * (u ⬝ᵥ u + t * (u ⬝ᵥ w)) := by
      refine le_of_mul_le_mul_left ?_ squares
      linarith
    have inward : 0 ≤ u ⬝ᵥ v := nonneg_of_mul_nonneg_right (by simpa using combined 0) squares
    have length := dot_self_pos nonzero
    have factor : 0 ≤ u ⬝ᵥ u + t * (u ⬝ᵥ w) := by
      by_contra negative
      have below := mul_nonpos_of_nonneg_of_nonpos inward (not_le.mp negative).le
      exact absurd (product.trans below) (not_le.mpr (mul_pos length length))
    refine le_of_mul_le_mul_left ?_ (euclid_pos nonzero)
    calc euclid u * (euclid u * (u ⬝ᵥ u)) = (u ⬝ᵥ u) * (u ⬝ᵥ u) := by
          rw [← mul_assoc, euclid_mul_self]
      _ ≤ (u ⬝ᵥ v) * (u ⬝ᵥ u + t * (u ⬝ᵥ w)) := product
      _ ≤ (euclid u * euclid v) * (u ⬝ᵥ u + t * (u ⬝ᵥ w)) :=
          mul_le_mul_of_nonneg_right (dot_le_euclid u v) factor
      _ = euclid u * (euclid v * (u ⬝ᵥ u + t * (u ⬝ᵥ w))) := mul_assoc _ _ _

/-- From `alpha` on, the length stays above what a Newton step takes it for. -/
theorem euclid_le_of_slope (nonneg : 0 ≤ alpha) (positive : 0 < beta) (nonzero : u ≠ 0)
    (first : shifted J alpha u = g) (second : shifted J beta v = g)
    (slope : shifted J alpha w = u) {rate : ℝ} (linear : u ⬝ᵥ w = (u ⬝ᵥ u) * rate) :
    euclid u ≤ euclid v * (1 + (beta - alpha) * rate) := by
  have concave := euclid_mul_le_of_shifted nonneg positive nonzero first second slope
  refine le_of_mul_le_mul_right ?_ (dot_self_pos nonzero)
  rw [linear] at concave
  linarith

end Newton

/-! ## The wanted length -/

section Root

variable {J : Matrix ι κ ℝ} {g : κ → ℝ} {y : ℝ → κ → ℝ}
  (solves : ∀ alpha, 0 < alpha → shifted J alpha (y alpha) = g)

include solves

theorem euclid_shifted_continuousOn {least : ℝ} (positive : 0 < least) :
    ContinuousOn (fun alpha => euclid (y alpha)) (Set.Ici least) := by
  have nonneg : 0 ≤ euclid g / least / least :=
    div_nonneg (div_nonneg (euclid_nonneg g) positive.le) positive.le
  have lipschitz : LipschitzOnWith (euclid g / least / least).toNNReal
      (fun alpha => euclid (y alpha)) (Set.Ici least) := by
    refine LipschitzOnWith.of_dist_le_mul fun alpha above beta beyond => ?_
    rw [Real.dist_eq, Real.dist_eq, Real.coe_toNNReal _ nonneg]
    have alphaPos : 0 < alpha := lt_of_lt_of_le positive above
    have betaPos : 0 < beta := lt_of_lt_of_le positive beyond
    have apart := euclid_sub_le_of_shifted (solves alpha alphaPos) (solves beta betaPos)
    have short : euclid (y beta) ≤ euclid g / least := by
      rw [le_div_iff₀' positive]
      exact (mul_le_mul_of_nonneg_right beyond (euclid_nonneg _)).trans
        (euclid_le_of_shifted (solves beta betaPos))
    have apartLeast : least * euclid (y alpha - y beta) ≤ |beta - alpha| * (euclid g / least) :=
      calc least * euclid (y alpha - y beta)
          ≤ alpha * euclid (y alpha - y beta) := mul_le_mul_of_nonneg_right above (euclid_nonneg _)
        _ ≤ |beta - alpha| * euclid (y beta) := apart
        _ ≤ |beta - alpha| * (euclid g / least) := mul_le_mul_of_nonneg_left short (abs_nonneg _)
    calc |euclid (y alpha) - euclid (y beta)| ≤ euclid (y alpha - y beta) := abs_euclid_sub_le _ _
      _ ≤ |beta - alpha| * (euclid g / least) / least := (le_div_iff₀' positive).mpr apartLeast
      _ = euclid g / least / least * |alpha - beta| := by rw [abs_sub_comm]; ring
  exact lipschitz.continuousOn

theorem exists_euclid_shifted_eq {least most delta : ℝ} (positive : 0 < least)
    (order : least ≤ most) (long : delta ≤ euclid (y least)) (short : euclid (y most) ≤ delta) :
    ∃ alpha, least ≤ alpha ∧ alpha ≤ most ∧ euclid (y alpha) = delta := by
  have continuous : ContinuousOn (fun alpha => euclid (y alpha)) (Set.Icc least most) :=
    (euclid_shifted_continuousOn solves positive).mono Set.Icc_subset_Ici_self
  obtain ⟨alpha, ⟨above, below⟩, root⟩ := intermediate_value_Icc' order continuous ⟨short, long⟩
  exact ⟨alpha, above, below, root⟩

end Root

end LeastSquares

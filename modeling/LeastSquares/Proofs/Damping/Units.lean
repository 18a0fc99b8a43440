import LeastSquares.Proofs.Damping.Bracket
import LeastSquares.Proofs.Damping.Decrease

/-!
# Searches in other units

Let every parameter be measured in a unit of its own. Then the columns of the Jacobian and the
entries of the scaling are multiplied by the units, and a step is divided by them. The pivots may be
others, so that the factors, the right-hand sides and the triangular solves have nothing in common
entry by entry. What they come to is the same at full rank: the equations of the scaled steps have
the same matrix and the same right-hand side, and the search for a step only depends on these.
-/

set_option autoImplicit false

namespace LeastSquares

open Matrix

variable {m n : Nat}

/-- Parameters, or a step, measured in the units `s`. -/
noncomputable def inUnits (s a : Vector ℝ n) : Vector ℝ n := Vector.ofFn fun p => a p / s p

theorem inUnits_get (s a : Vector ℝ n) (p : Fin n) : inUnits s a p = a p / s p :=
  Vector.get_ofFn _ p

/-- What is taken by each parameter, as entries of a gradient or of a scaling are, where the
parameters are measured in the units `s`; or parameters themselves, back from these units. -/
noncomputable def timesUnits (s d : Vector ℝ n) : Vector ℝ n := Vector.ofFn fun p => d p * s p

theorem timesUnits_get (s d : Vector ℝ n) (p : Fin n) : timesUnits s d p = d p * s p :=
  Vector.get_ofFn _ p

theorem timesUnits_inUnits {s : Vector ℝ n} (units : ∀ p, s p ≠ 0) (a : Vector ℝ n) :
    timesUnits s (inUnits s a) = a := by
  apply Vector.ext_get
  intro p
  rw [timesUnits_get, inUnits_get, div_mul_cancel₀ _ (units p)]

noncomputable def DenseMatrix.timesUnits (s : Vector ℝ n) (A : DenseMatrix ℝ m n) :
    DenseMatrix ℝ m n :=
  .ofFn fun i p => A.get i p * s p

theorem DenseMatrix.timesUnits_mulVec (s : Vector ℝ n) (A : DenseMatrix ℝ m n) (x : Fin n → ℝ) :
    (A.timesUnits s).toMatrix *ᵥ x = A.toMatrix *ᵥ fun p => s p * x p := by
  funext i
  rw [mulVec, mulVec, dotProduct, dotProduct]
  apply Finset.sum_congr rfl
  intro p _
  change (A.timesUnits s).get i p * x p = A.get i p * (s p * x p)
  rw [DenseMatrix.timesUnits, DenseMatrix.get_ofFn, mul_assoc]

theorem TrustRegion.scaledNorm_inUnits {s : Vector ℝ n} (units : ∀ p, s p ≠ 0)
    (d v : Vector ℝ n) :
    scaledNorm (LeastSquares.timesUnits s d) (inUnits s v) = scaledNorm d v := by
  have entries : (Vector.ofFn fun p => LeastSquares.timesUnits s d p * inUnits s v p) =
      Vector.ofFn fun p => d p * v p := by
    apply congrArg Vector.ofFn
    funext p
    have unit := units p
    rw [timesUnits_get, inUnits_get]
    field_simp
  rw [scaledNorm, entries, scaledNorm]

namespace Factorization

/-- `F` and `G` are factors of full rank, of `A` and of `A` in other units, and `c` and `d` are what
they turn one right-hand side into. -/
structure InUnits (s : Vector ℝ n) (A : DenseMatrix ℝ m n) (b : Vector ℝ m)
    (F G : Factorization ℝ m n) (c d : Vector ℝ n) : Prop where
  units : ∀ p, 0 < s p
  factors : F.Factors A
  otherFactors : G.Factors (A.timesUnits s)
  full : F.rank = n
  otherFull : G.rank = n
  head : leading n (F.qtMul b).toArray = c
  otherHead : leading n (G.qtMul b).toArray = d

theorem discarded_of_full {F : Factorization ℝ m n} (full : F.rank = n) : F.discarded = 0 := by
  have rows := F.rank_le_rows
  apply F.discarded_of_rank_eq
  omega

theorem Factors.card_nonzeroCols {F : Factorization ℝ m n} {A : DenseMatrix ℝ m n}
    (factors : F.Factors A) (full : F.rank = n) : F.rank = A.nonzeroCols.card := by
  have all : A.nonzeroCols = Finset.univ := by
    apply Finset.filter_true_of_mem
    intro p _
    obtain ⟨j, rfl⟩ := factors.bijective.surjective p
    have inside := j.isLt
    exact factors.col_ne_zero j (by omega)
  rw [all, Finset.card_univ, Fintype.card_fin, full]

namespace InUnits

variable {s : Vector ℝ n} {A : DenseMatrix ℝ m n} {b : Vector ℝ m} {F G : Factorization ℝ m n}
  {c d : Vector ℝ n} (same : InUnits s A b F G c d)

include same

theorem norms : G.norms = LeastSquares.timesUnits s F.norms := by
  apply Vector.ext_get
  intro p
  have column : (A.timesUnits s).toMatrix.col p = s p • A.toMatrix.col p := by
    funext i
    change (A.timesUnits s).get i p = s p * A.get i p
    rw [DenseMatrix.timesUnits, DenseMatrix.get_ofFn, mul_comm]
  rw [timesUnits_get, same.otherFactors.norms, same.factors.norms, column, euclid_smul,
    abs_of_pos (same.units p), mul_comm]

theorem norms_ne_zero (p : Fin n) : F.norms p ≠ 0 := by
  obtain ⟨j, rfl⟩ := same.factors.bijective.surjective p
  have inside : j.val < F.rank := by
    rw [same.full]
    exact j.isLt
  rw [same.factors.norms]
  exact (euclid_pos (same.factors.col_ne_zero j inside)).ne'

end InUnits

end Factorization

namespace Damping

namespace Problem

variable {s : Vector ℝ n} {A : DenseMatrix ℝ m n} {b : Vector ℝ m} {Q K : Problem ℝ m n}

/-- The problem `K` is `Q` with the parameters measured in the units `s`. -/
structure InUnits (s : Vector ℝ n) (A : DenseMatrix ℝ m n) (b : Vector ℝ m)
    (Q K : Problem ℝ m n) : Prop where
  system : Factorization.InUnits s A b Q.factor K.factor Q.rhs K.rhs
  scale_pos : ∀ p, 0 < Q.scale p
  scale : K.scale = timesUnits s Q.scale
  radius : 0 ≤ Q.delta
  delta : K.delta = Q.delta

/-! ## Equations of full rank -/

section FullRank

variable (factors : Q.factor.Factors A) (full : Q.factor.rank = n) (positive : ∀ p, 0 < Q.scale p)

include factors full

theorem eq_zero_of_rows {z : Fin n → ℝ} (zero : Q.rows *ᵥ z = 0) : z = 0 := by
  have permuted : z ∘ Q.factor.perm.get = 0 := by
    apply factors.eq_zero_of_rows full
    intro i
    exact (Q.rows_mulVec z i).symm.trans (congrFun zero i)
  funext p
  obtain ⟨j, rfl⟩ := factors.bijective.surjective p
  exact congrFun permuted j

include positive

theorem shifted_injective {alpha : ℝ} (nonneg : 0 ≤ alpha) {u v : Fin n → ℝ}
    (same : shifted Q.scaledRows alpha u = shifted Q.scaledRows alpha v) : u = v := by
  have square : (Q.scaledRows *ᵥ (u - v)) ⬝ᵥ (Q.scaledRows *ᵥ (u - v)) +
      alpha * ((u - v) ⬝ᵥ (u - v)) = 0 := by
    rw [← dot_shifted, shifted_sub, same, sub_self, dotProduct_zero]
  have own := mul_nonneg nonneg (dot_self_nonneg (u - v))
  have image := dot_self_nonneg (Q.scaledRows *ᵥ (u - v))
  have none : Q.scaledRows *ᵥ (u - v) = 0 := dotProduct_self_eq_zero.mp (by linarith)
  rw [scaledRows_mulVec] at none
  have still := eq_zero_of_rows factors full none
  funext p
  have entry := congrFun still p
  rw [Pi.zero_apply] at entry
  exact sub_eq_zero.mp ((mul_eq_zero.mp entry).resolve_left (inv_ne_zero (positive p).ne'))

theorem Tangent.square_unique {alpha size : ℝ} {x : Vector ℝ n} (tangent : Q.Tangent alpha x size)
    {w : Fin n → ℝ} {other : ℝ} (slope : shifted Q.scaledRows alpha w = Q.scaled x)
    (linear : Q.scaled x ⬝ᵥ w = (Q.scaled x ⬝ᵥ Q.scaled x) * other) : size * size = other := by
  obtain ⟨v, own, rate⟩ := tangent.slope
  have same : v = w := shifted_injective factors full positive tangent.nonneg (own.trans slope.symm)
  rw [same, linear] at rate
  exact (mul_left_cancel₀ (dot_self_pos tangent.nonzero).ne' rate).symm

end FullRank

/-! ## What has no unit -/

namespace InUnits

variable (same : InUnits s A b Q K)

include same

theorem unit_ne_zero (p : Fin n) : s p ≠ 0 := (same.system.units p).ne'

theorem otherScale_pos (p : Fin n) : 0 < K.scale p := by
  rw [same.scale, timesUnits_get]
  exact mul_pos (same.scale_pos p) (same.system.units p)

theorem scaled (x : Vector ℝ n) : K.scaled (inUnits s x) = Q.scaled x := by
  funext p
  rw [Problem.scaled, Problem.scaled, same.scale, timesUnits_get, inUnits_get]
  have unit := same.unit_ne_zero p
  field_simp

theorem eq_inUnits {x y : Vector ℝ n} (equal : K.scaled y = Q.scaled x) :
    y = inUnits s x := by
  apply Vector.ext_get
  intro p
  have entry := congrFun equal p
  rw [← same.scaled, Problem.scaled, Problem.scaled] at entry
  exact mul_left_cancel₀ (same.otherScale_pos p).ne' entry

theorem rows (x y : Fin n → ℝ) : (K.rows *ᵥ x) ⬝ᵥ (K.rows *ᵥ y) =
    (Q.rows *ᵥ fun p => s p * x p) ⬝ᵥ (Q.rows *ᵥ fun p => s p * y p) := by
  have system := same.system
  rw [dot_rows system.otherFactors (Factorization.discarded_of_full system.otherFull)
      system.otherHead,
    dot_rows system.factors (Factorization.discarded_of_full system.full) system.head,
    DenseMatrix.timesUnits_mulVec, DenseMatrix.timesUnits_mulVec]

theorem rhs (x : Fin n → ℝ) : (K.rows *ᵥ x) ⬝ᵥ (K.rhs ∘ K.factor.topCol) =
    (Q.rows *ᵥ fun p => s p * x p) ⬝ᵥ (Q.rhs ∘ Q.factor.topCol) := by
  have system := same.system
  rw [dot_rhs system.otherFactors (Factorization.discarded_of_full system.otherFull)
      system.otherHead,
    dot_rhs system.factors (Factorization.discarded_of_full system.full) system.head,
    DenseMatrix.timesUnits_mulVec]

theorem scaledRows (u : Fin n → ℝ) : (fun p => s p * ((K.scale p)⁻¹ * u p)) =
    fun p => (Q.scale p)⁻¹ * u p := by
  funext p
  rw [same.scale, timesUnits_get]
  have unit := same.unit_ne_zero p
  have nonzero := (same.scale_pos p).ne'
  field_simp

theorem equations (alpha : ℝ) (u : Fin n → ℝ) :
    shifted K.scaledRows alpha u = shifted Q.scaledRows alpha u := by
  apply dotProduct_eq
  intro v
  rw [dotProduct_comm _ v, dotProduct_comm _ v, dot_shifted, dot_shifted, scaledRows_mulVec,
    scaledRows_mulVec, scaledRows_mulVec, scaledRows_mulVec, same.rows, same.scaledRows,
    same.scaledRows]

theorem pull : K.pull = Q.pull := by
  apply dotProduct_eq
  intro v
  rw [dotProduct_comm _ v, dotProduct_comm _ v, Problem.pull, Problem.pull, dot_transpose_mulVec,
    dot_transpose_mulVec, scaledRows_mulVec, scaledRows_mulVec, same.rhs, same.scaledRows]

theorem solution {alpha : ℝ} (nonneg : 0 ≤ alpha) {x y : Vector ℝ n}
    (first : shifted Q.scaledRows alpha (Q.scaled x) = Q.pull)
    (second : shifted K.scaledRows alpha (K.scaled y) = K.pull) :
    y = inUnits s x := by
  apply same.eq_inUnits
  apply shifted_injective same.system.factors same.system.full same.scale_pos nonneg
  rw [first, ← same.equations, second, same.pull]

theorem length (x : Vector ℝ n) :
    TrustRegion.scaledNorm K.scale (inUnits s x) = TrustRegion.scaledNorm Q.scale x := by
  rw [same.scale, TrustRegion.scaledNorm_inUnits same.unit_ne_zero]

theorem gain (x : Vector ℝ n) : K.gain (inUnits s x).get = Q.gain x.get := by
  have back : (fun p => s p * (inUnits s x).get p) = x.get := by
    funext p
    rw [inUnits_get, mul_div_cancel₀ _ (same.unit_ne_zero p)]
  rw [gain_eq, gain_eq, same.rhs, same.rows, back]

theorem gradient : K.gradient = Q.gradient := by
  rw [gradient_eq_euclid same.system.otherFactors, gradient_eq_euclid same.system.factors,
    same.pull]

theorem tangent {alpha size other : ℝ} {x y : Vector ℝ n} (equal : K.scaled y = Q.scaled x)
    (first : Q.Tangent alpha x size) (second : K.Tangent alpha y other) :
    other * other = size * size := by
  obtain ⟨w, slope, linear⟩ := first.slope
  rw [← equal] at slope linear
  rw [← same.equations] at slope
  exact second.square_unique same.system.otherFactors same.system.otherFull same.otherScale_pos
    slope linear

/-! ## The search -/

theorem gaussNewton {x : Vector ℝ n} (step : Q.gaussNewton true = .ok x) :
    K.gaussNewton true = .ok (inUnits s x) := by
  obtain ⟨y, other⟩ := K.gaussNewton_ok true
  have first := shifted_of_rows same.scale_pos
    ((gaussNewton_spec same.system.factors step).solves rfl)
  have second := shifted_of_rows same.otherScale_pos
    ((gaussNewton_spec same.system.otherFactors other).solves rfl)
  rw [other, same.solution le_rfl first second]

theorem lowerBound {x : Vector ℝ n} (step : Q.gaussNewton true = .ok x)
    (long : ¬ TrustRegion.scaledNorm Q.scale x - Q.delta ≤ tolerance * Q.delta) (previous : ℝ) :
    (K.begun true previous (inUnits s x)).bounds.lower =
      (Q.begun true previous x).bounds.lower := by
  rcases same.radius.eq_or_lt with zero | radius
  · -- The search of a radius of zero begins from the quotient by it.
    have none (P : Problem ℝ m n) (nothing : P.delta = 0) (y : Vector ℝ n) :
        (P.begun true previous y).bounds.lower = 0 := by
      simp only [begun, Problem.lowerBound, nothing, div_zero, zero_div, ite_self]
    rw [none K (same.delta.trans zero.symm), none Q zero.symm]
  · rw [tolerance] at long
    have first : Q.TooLong A x :=
      { factors := same.system.factors
        full := same.system.factors.card_nonzeroCols same.system.full
        positive := same.scale_pos
        radius, step
        long := by linarith }
    have second : K.TooLong (A.timesUnits s) (inUnits s x) :=
      { factors := same.system.otherFactors
        full := same.system.otherFactors.card_nonzeroCols same.system.otherFull
        positive := same.otherScale_pos
        radius := same.delta.symm ▸ radius
        step := same.gaussNewton step
        long := by rw [same.length, same.delta]; linarith }
    rw [first.begun_lower, second.begun_lower, div_div _ (K.firstSize _), div_div _ (Q.firstSize _),
      same.tangent (same.scaled x) first.tangent second.tangent, same.length, same.delta]

theorem begun {x : Vector ℝ n} (step : Q.gaussNewton true = .ok x)
    (long : ¬ TrustRegion.scaledNorm Q.scale x - Q.delta ≤ tolerance * Q.delta) (previous : ℝ) :
    K.begun true previous (inUnits s x) = Q.begun true previous x := by
  have lower := same.lowerBound step long previous
  simp only [Problem.begun] at lower ⊢
  rw [lower, same.length, same.gradient, same.delta, upperBound, upperBound, same.delta]

section Step

variable {S : Search ℝ} (nonneg : S.Nonneg)

include nonneg

theorem made : (K.made S).x = inUnits s (Q.made S).x := by
  have damped : 0 < (Q.made S).alpha := Bounds.positive_pos nonneg.alpha
  apply same.solution damped.le
  · exact dampedStep_shifted same.system.factors same.scale_pos damped
  · exact dampedStep_shifted same.system.otherFactors same.otherScale_pos damped

theorem stepLength : K.length S = Q.length S := by
  rw [Problem.length, same.made nonneg, same.length]
  rfl

theorem excess : K.excess S = Q.excess S := by
  rw [Problem.excess, same.stepLength nonneg, same.delta]
  rfl

theorem ends : K.ends S = Q.ends S := by
  rw [Problem.ends, same.excess nonneg, same.stepLength nonneg, accepts, same.delta]
  rfl

theorem observed (number : Nat) : K.observed number S = Q.observed number S := by
  rw [Problem.observed, same.stepLength nonneg, same.delta]
  rfl

theorem newton (goes : Q.ends S = false) : K.newton S = Q.newton S := by
  have damped : 0 < (Q.made S).alpha := Bounds.positive_pos nonneg.alpha
  have equal : K.scaled (K.made S).x = Q.scaled (Q.made S).x := by
    rw [same.made nonneg, same.scaled]
  have nonzero : Q.scaled (Q.made S).x ≠ 0 := by
    intro zero
    have none : Q.length S = 0 := by
      rw [Problem.length, scaledNorm_eq_euclid, zero, euclid, dotProduct_zero, Real.sqrt_zero]
    simp only [Problem.ends, accepts, none, beq_self_eq_true, Bool.or_true] at goes
    cases goes
  have first := made_tangent same.system.factors same.scale_pos damped nonzero
  have second := made_tangent same.system.otherFactors same.otherScale_pos damped (equal ▸ nonzero)
  rw [newton_eq, newton_eq, div_div _ (K.madeSize S), div_div _ (Q.madeSize S),
    same.tangent equal first second, same.stepLength nonneg, same.delta]

theorem next (goes : Q.ends S = false) : K.next S = Q.next S := by
  simp only [Problem.next, same.newton nonneg goes, same.excess nonneg]
  rfl

end Step

end InUnits

end Problem

noncomputable def Found.inUnits (s : Vector ℝ n) (found : Found ℝ n) : Found ℝ n :=
  { found with step := { found.step with x := LeastSquares.inUnits s found.step.x } }

namespace Problem.InUnits

variable {s : Vector ℝ n} {A : DenseMatrix ℝ m n} {b : Vector ℝ m} {Q K : Problem ℝ m n}
  (same : Problem.InUnits s A b Q K)

include same

theorem searchFrom (left number : Nat) {S : Search ℝ} (nonneg : S.Nonneg) :
    K.searchFrom left number S = (Q.searchFrom left number S).inUnits s := by
  have last {S : Search ℝ} (nonneg : S.Nonneg) :
      K.made S = { Q.made S with x := LeastSquares.inUnits s (Q.made S).x } := by
    rw [← same.made nonneg]
    rfl
  induction left generalizing number S with
  | zero =>
      change ({ step := K.made S, seen := [K.observed number S] } : Found ℝ n) = _
      rw [last nonneg, same.observed nonneg]
      rfl
  | succ left ih =>
      have alike := same.ends nonneg
      cases ends : Q.ends S with
      | true =>
          rw [Q.searchFrom_of_ends left number ends,
            K.searchFrom_of_ends left number (alike.trans ends), last nonneg, same.observed nonneg]
          rfl
      | false =>
          rw [Q.searchFrom_of_continues left number ends,
            K.searchFrom_of_continues left number (alike.trans ends), same.next nonneg ends,
            ih (number + 1) (nonneg.next Q), same.observed nonneg]
          rfl

/-- The search takes the same steps, and sees the same. -/
theorem solve (previous : ℝ) :
    K.solve true previous = (Q.solve true previous).map (·.inUnits s) := by
  obtain ⟨x, step⟩ := Q.gaussNewton_ok true
  have other := same.gaussNewton step
  by_cases fits : TrustRegion.scaledNorm Q.scale x - Q.delta ≤ tolerance * Q.delta
  · have otherFits : TrustRegion.scaledNorm K.scale (LeastSquares.inUnits s x) - K.delta ≤
        tolerance * K.delta := by
      rw [same.length, same.delta]
      exact fits
    rw [Q.solve_of_fits previous step fits, K.solve_of_fits previous other otherFits, same.length]
    rfl
  · have otherLong : ¬ TrustRegion.scaledNorm K.scale (LeastSquares.inUnits s x) - K.delta ≤
        tolerance * K.delta := by
      rw [same.length, same.delta]
      exact fits
    have nonneg := begun_nonneg same.radius true previous fits
    rw [Q.solve_of_long previous step fits, K.solve_of_long previous other otherLong,
      same.begun step fits, same.searchFrom _ _ nonneg]
    rfl

end Problem.InUnits

end Damping

end LeastSquares

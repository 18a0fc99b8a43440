import LeastSquares.Fit.Correlation
import LeastSquares.Proofs.Fit.LinearModel
import LeastSquares.Proofs.Pearson

/-!
# What the correlation of parameters is

In exact arithmetic the entries are the correlations of the weighted sensitivities, as samples over
the active points; where a sensitivity does not vary there, its row and column are zero.
-/

set_option autoImplicit false

namespace LeastSquares.Fit

open Matrix

variable {σ ε : Type} {n m : Nat}

theorem activeCount_eq_countP {α : Type} [Scalar α] (fit : Fit α σ n m) :
    fit.activeCount = (List.finRange m).countP fun i => fit.active i :=
  List.countP_eq_length_filter.symm

theorem mem_activePoints {α : Type} (fit : Fit α σ n m) {i : Fin m} :
    i ∈ fit.activePoints ↔ fit.active i = true := by
  rw [activePoints, List.mem_filter]
  exact and_iff_right (List.mem_finRange i)

section Samples

variable (fit : Fit ℝ σ n m) (J : DenseMatrix ℝ m n)

/-- The sensitivity to a parameter as a sample over the active points. -/
noncomputable def sample (p : Fin n) : fit.ActivePoint → ℝ := fun i => fit.sensitivity J p i.val

theorem activeCount_eq : fit.activeCount = Fintype.card fit.ActivePoint := by
  rw [activeCount_eq_countP, card_eq_countP]

theorem addOver_active (start : ℝ) (f : Fin m → ℝ) :
    Scalar.addOver start (fun i => fit.active i) f = start + ∑ i : fit.ActivePoint, f i := by
  rw [Scalar.addOver_real, ← Finset.sum_filter,
    Finset.sum_subtype _ (fun i => Finset.mem_filter_univ i)]

theorem meanSensitivity_eq (p : Fin n) :
    fit.meanSensitivity J p = mean (fit.sample J p) := by
  rw [meanSensitivity, addOver_active, neg_zero, zero_add, activeCount_eq]
  rfl

theorem sum_activePoints (f : Fin m → ℝ) :
    ∑ i : Fin fit.activeCount, f (fit.activePoints.get i) = ∑ i : fit.ActivePoint, f i := by
  have nodup : fit.activePoints.Nodup := (List.nodup_finRange m).filter _
  let point (i : Fin fit.activeCount) : fit.ActivePoint :=
    ⟨fit.activePoints.get i, fit.mem_activePoints.mp (List.get_mem _ i)⟩
  have injective : Function.Injective point := fun i j same =>
    List.nodup_iff_injective_get.mp nodup (congrArg Subtype.val same)
  have surjective : Function.Surjective point := by
    rintro ⟨i, active⟩
    obtain ⟨k, same⟩ := List.get_of_mem (fit.mem_activePoints.mpr active)
    exact ⟨k, Subtype.ext same⟩
  exact Fintype.sum_bijective point ⟨injective, surjective⟩ _ _ fun _ => rfl

variable [Products ℝ] [Products.Exact]

theorem gram_eq_sum (p q : Fin n) : (fit.gram J).get p q =
    ∑ i : Fin fit.activeCount,
      (fit.sensitivity J p (fit.activePoints.get i) - fit.meanSensitivity J p) *
        (fit.sensitivity J q (fit.activePoints.get i) - fit.meanSensitivity J q) := by
  rw [gram, Products.Exact.get_transposeMul]
  simp only [centeredSensitivities, DenseMatrix.get_ofFn, Vector.get_ofFn]

theorem gram_eq (p q : Fin n) :
    (fit.gram J).get p q =
      centered (fit.sample J p) ⬝ᵥ centered (fit.sample J q) := by
  rw [gram_eq_sum, meanSensitivity_eq, meanSensitivity_eq]
  exact fit.sum_activePoints fun i =>
    (fit.sensitivity J p i - mean (fit.sample J p)) *
      (fit.sensitivity J q i - mean (fit.sample J q))

theorem correlations_eq (p q : Fin n) :
    (correlations (fit.gram J)).get p q = pearson (fit.sample J p) (fit.sample J q) := by
  have positive (r : Fin n) : 0 < (fit.gram J).get r r ↔ Varies (fit.sample J r) := by
    rw [gram_eq, centered_dot_pos_iff]
  simp only [correlations, DenseMatrix.get_ofFn]
  by_cases vary : 0 < (fit.gram J).get p p ∧ 0 < (fit.gram J).get q q
  · rw [if_pos vary, Scalar.sqrt_real, Real.sqrt_mul vary.1.le, gram_eq, gram_eq, gram_eq,
      pearson_eq_div]
    rfl
  · rw [if_neg vary]
    rw [positive, positive] at vary
    rcases not_and_or.mp vary with constant | constant
    · exact (pearson_of_constant constant _).symm
    · rw [pearson_comm]
      exact (pearson_of_constant constant _).symm

end Samples

theorem correlation_answer {α : Type} [Scalar α] [Products α] {M : Model α σ ε n m}
    {fit : Fit α σ n m} {budget : Nat} (prepared : fit.prepared = true)
    (answered : (M.jacobian fit.model fit.parameters .zeros).failure? = none)
    (room : Suffices budget fit.correlationBuffers) :
    (fit.correlation M budget).result = .ok (correlations (fit.gram (fit.jacobianAnswer M))) := by
  have answer := evaluateJacobian_of_answered answered
  rcases correlation_of_answer prepared answer budget with ⟨_, served⟩ | ⟨none, _⟩
  · rw [served]
    rfl
  · exact absurd room none

variable {M : Model ℝ σ ε n m} {fit : Fit ℝ σ n m} {budget : Nat}

/-- A prepared fit whose model answers returns, if there is memory for the call, the correlations of
the weighted sensitivities over the active points: a symmetric positive semidefinite matrix with
entries between minus one and one, which has a one on the diagonal for each sensitivity that varies,
and a row and a column of zeros for each one that does not. -/
theorem correlation_pearson [Products ℝ] [Products.Exact] (prepared : fit.prepared = true)
    (answered : (M.jacobian fit.model fit.parameters .zeros).failure? = none)
    (room : Suffices budget fit.correlationBuffers) :
    ∃ C, (fit.correlation M budget).result = .ok C ∧ C.toMatrix.IsSymm ∧ C.toMatrix.PosSemidef ∧
      (∀ p q, C.get p q ∈ Set.Icc (-1) 1) ∧
      (∀ p, Varies (fit.sample (fit.jacobianAnswer M) p) → C.get p p = 1) ∧
      (∀ p, ¬ Varies (fit.sample (fit.jacobianAnswer M) p) →
        ∀ q, C.get p q = 0 ∧ C.get q p = 0) ∧
      (Fintype.card fit.ActivePoint ≤ 1 → ∀ p q, C.get p q = 0) ∧
      ∀ p q, C.get p q =
        pearson (fit.sample (fit.jacobianAnswer M) p) (fit.sample (fit.jacobianAnswer M) q) := by
  let x : Fin n → fit.ActivePoint → ℝ := fit.sample (fit.jacobianAnswer M)
  let C := correlations (fit.gram (fit.jacobianAnswer M))
  have entries (p q : Fin n) : C.get p q = pearson (x p) (x q) := correlations_eq fit _ p q
  have zero {p : Fin n} (constant : ¬ Varies (x p)) (q : Fin n) :
      C.get p q = 0 ∧ C.get q p = 0 := by
    rw [entries p q, entries q p, pearson_comm (x q)]
    exact ⟨pearson_of_constant constant _, pearson_of_constant constant _⟩
  have gram : C.toMatrix = .of fun p q => pearson (x p) (x q) := by
    ext p q
    exact entries p q
  refine ⟨C, correlation_answer prepared answered room, ?_, ?_, ?_, ?_, ?_, ?_, entries⟩
  · ext p q
    change C.get q p = C.get p q
    rw [entries, entries, pearson_comm]
  · rw [gram]
    exact pearson_posSemidef x
  · intro p q
    rw [entries]
    exact abs_le.mp (abs_pearson_le_one _ _)
  · intro p varies
    rw [entries]
    exact pearson_self varies
  · intro p constant q
    exact zero constant q
  · intro few p q
    exact (zero (not_varies_of_card few (x p)) q).1

/-- By how much the height at zero and the slope of a straight line move it at zero and one. -/
noncomputable def straightSlope (i p : Fin 2) : ℝ := if p.val = 0 then 1 else i.val

noncomputable def straight : Model ℝ Unit Empty 2 2 where
  values _ a _ :=
    { state := (), buffer := .ofFn fun i => ∑ p, straightSlope i p * a p, failure? := none }
  jacobian _ _ _ := { state := (), buffer := .ofFn straightSlope, failure? := none }

noncomputable def straightStart : Fit ℝ Unit 2 2 :=
  { model := ()
    parameters := Vector.replicate 2 0
    limits := .unbounded
    targets :=
      { target := Vector.replicate 2 1
        sigma := Vector.replicate 2 1
        tags := Vector.replicate 2 .equal }
    criteria := .off
    values := Vector.replicate 2 0
    spare := Vector.replicate 2 0
    active := Vector.replicate 2 true
    chiSquare := 0
    gradientNorm := 0
    freeCount := 2
    rank := 0
    trust := .initial
    prepared := false
    iteration := 0
    valueCalls := 0
    jacobianCalls := 0 }

theorem straight_active (i : Fin 2) : (straightStart.prepare straight).fit.active i = true := by
  have active : (straightStart.prepare straight).fit.active =
      straightStart.targets.active (straightStart.prepare straight).fit.values := rfl
  rw [active, Targets.active, Vector.get_ofFn]
  simp [straightStart, Inequality.isActive]

/-- The height at zero moves both points alike, and correlates with nothing. -/
theorem straight_correlation : (straightStart.prepare straight).result = .ok () ∧
    ∃ C, ((straightStart.prepare straight).fit.correlation straight 3).result = .ok C ∧
      C.get 0 0 = 0 ∧ C.get 0 1 = 0 ∧ C.get 1 1 = 1 := by
  let fit := (straightStart.prepare straight).fit
  have prepared : fit.prepared = true := rfl
  have answered : (straight.jacobian fit.model fit.parameters .zeros).failure? = none := rfl
  obtain ⟨C, result, _, _, _, one, zero, _⟩ := correlation_pearson prepared answered
    (suffices_length fit.correlationBuffers)
  have entry (p : Fin 2) (i : fit.ActivePoint) :
      fit.sample (fit.jacobianAnswer straight) p i = straightSlope i.val p := by
    have sigma : fit.targets.sigma i.val = 1 := Vector.get_replicate 1 i.val
    have derivatives : fit.jacobianAnswer straight = .ofFn straightSlope := rfl
    rw [sample, sensitivity, sigma, div_one, derivatives, DenseMatrix.get_ofFn]
  have constant : ¬ Varies (fit.sample (fit.jacobianAnswer straight) 0) := by
    rintro ⟨i, j, differ⟩
    rw [entry, entry] at differ
    exact differ rfl
  have varies : Varies (fit.sample (fit.jacobianAnswer straight) 1) := by
    refine ⟨⟨0, straight_active 0⟩, ⟨1, straight_active 1⟩, ?_⟩
    rw [entry, entry]
    norm_num [straightSlope]
  exact ⟨rfl, C, result, (zero 0 constant 0).1, (zero 0 constant 1).1, one 1 varies⟩

end LeastSquares.Fit

import LeastSquares.Proofs.Fit.Trace
import LeastSquares.Proofs.Fit.Units

/-!
# Iterations at full rank in other units

An iteration that tries steps does so with the factors of a Jacobian. Those of the same Jacobian in
other units have nothing in common with them, not even their rank where a column is discarded. If
both have full rank, and if there are no limits and no bound on the gradient, then the iteration of
a fit in other units comes to the same, and its trials report the same but for the norm of the
gradient.
-/

set_option autoImplicit false

namespace LeastSquares

open Matrix

variable {σ ε ρ : Type} {n m : Nat}

namespace Fit

variable {s : Vector ℝ n} {g : ℝ} {M : Model ℝ σ ε n m} {fit : Fit ℝ σ n m}
  {J : DenseMatrix ℝ m n}

/-! ## The linear problem -/

theorem evaluateJacobian_inUnits (units : ∀ p, s p ≠ 0) (M : Model ℝ σ ε n m)
    (fit : Fit ℝ σ n m) : (fit.inUnits s g).evaluateJacobian (M.inUnits s) =
      ((fit.evaluateJacobian M).1.inUnits s g,
        (fit.evaluateJacobian M).2.map (·.timesUnits s)) := by
  simp only [evaluateJacobian, inUnits, Model.inUnits, timesUnits_inUnits units]
  cases (M.jacobian fit.model fit.parameters .zeros).failure? with
  | none => rfl
  | some error => rfl

theorem weightedJacobian_inUnits (fit : Fit ℝ σ n m) (J : DenseMatrix ℝ m n)
    (free : Vector Bool n) : (fit.inUnits s g).weightedJacobian (J.timesUnits s) free =
      (fit.weightedJacobian J free).timesUnits s := by
  simp only [weightedJacobian, DenseMatrix.timesUnits, DenseMatrix.get_ofFn]
  congr 1
  funext i p
  split
  · rw [ite_mul, zero_mul, div_mul_eq_mul_div]
    rfl
  · rw [zero_mul]

theorem gradient_inUnits [Products ℝ] [Products.Exact] (fit : Fit ℝ σ n m)
    (J : DenseMatrix ℝ m n) :
    (fit.inUnits s g).gradient (J.timesUnits s) = timesUnits s (fit.gradient J) := by
  apply Vector.ext_get
  intro p
  rw [timesUnits_get, gradient_eq_sum, gradient_eq_sum, Finset.sum_mul]
  apply Finset.sum_congr rfl
  intro i _
  rw [DenseMatrix.timesUnits, DenseMatrix.get_ofFn, mul_right_comm]
  rfl

section Unbounded

variable [Products ℝ] (limits : fit.limits = .unbounded)

include limits

theorem free_of_unbounded (J : DenseMatrix ℝ m n) (p : Fin n) : fit.free J p = true := by
  rw [free, Vector.get_ofFn]
  simp [isStuck, limits, Limits.unbounded, Limits.atUpper, Limits.atLower]

theorem stuck_of_unbounded (J : DenseMatrix ℝ m n) : fit.stuck J = [] := by
  apply List.filter_eq_nil_iff.mpr
  intro p _
  rw [free_of_unbounded limits]
  exact Bool.false_ne_true

theorem counted_of_unbounded (J : DenseMatrix ℝ m n) :
    fit.counted J = { fit with freeCount := n } := by
  rw [counted, stuck_of_unbounded limits]
  rfl

theorem stuckEvents_of_unbounded (J : DenseMatrix ℝ m n) : fit.stuckEvents J = [] := by
  rw [stuckEvents, stuck_of_unbounded limits, List.map_nil]

theorem linearize_of_unbounded {asked : Fit ℝ σ n m}
    (answer : fit.evaluateJacobian M = (asked, .ok J)) (counted : Fit ℝ σ n m)
    (counts : counted = { asked with freeCount := n }) : linearize M fit =
      if n = 0 then .settled (counted.conclude [] .allParametersAreStuck)
      else if (counted.measured J).gradientNorm ≤ (counted.measured J).criteria.minGradient then
        .settled ((counted.measured J).conclude [] .minimumFound)
      else .ready ((counted.measured J).linearized ((counted.measured J).linearization J))
        ((counted.measured J).deficientEvents ((counted.measured J).linearization J))
        ((counted.measured J).linearization J) := by
  have free : asked.limits = .unbounded := (evaluateJacobian_stays answer).limits.trans limits
  subst counts
  simp only [linearize, answer, counted_of_unbounded free, stuckEvents_of_unbounded free,
    List.nil_append]

theorem flat_iff (minGradient : fit.criteria.minGradient = 0) (J : DenseMatrix ℝ m n) :
    (fit.measured J).gradientNorm ≤ (fit.measured J).criteria.minGradient ↔
      ∀ p, fit.gradient J p = 0 := by
  have norm : (fit.measured J).gradientNorm =
      Scalar.norm (fun p => fit.free J p) (fit.gradient J) := rfl
  have bound : (fit.measured J).criteria.minGradient = 0 := minGradient
  rw [norm, bound, (Scalar.norm_nonneg _ _).ge_iff_eq', Scalar.norm_eq_zero_iff]
  constructor
  · intro zeros p
    exact zeros p (free_of_unbounded limits J p)
  · intro zeros p _
    exact zeros p

end Unbounded

/-! ## The linear algebra of an iteration -/

/-- A reachable fit without limits and without a bound on the gradient. -/
structure Plain [Products ℝ] (M : Model ℝ σ ε n m) (fit : Fit ℝ σ n m) : Prop where
  reachable : Reachable M fit
  limits : fit.limits = .unbounded
  minGradient : fit.criteria.minGradient = 0

/-- Every Jacobian that an iteration factors has full rank; then nothing is discarded. -/
def FullRank [Products ℝ] (M : Model ℝ σ ε n m) (fit : Fit ℝ σ n m) : Prop :=
  fit.prepared = true → ∀ first L, fit.Tries M first L → L.factor.rank = n

theorem linearized_inUnits (units : ∀ p, 0 < s p) {A : DenseMatrix ℝ (max n m) n}
    {b : Vector ℝ (max n m)} {L K : Linearization ℝ n m}
    (same : Linearization.InUnits s A b L K) (fit : Fit ℝ σ n m) :
    (fit.inUnits s g).linearized K = (fit.linearized L).inUnits s g := by
  have rank : K.factor.rank = L.factor.rank := same.system.otherFull.trans same.system.full.symm
  have trust : (fit.trust.inUnits s).rescale K.factor.norms
      (LeastSquares.inUnits s fit.parameters) =
        (fit.trust.rescale L.factor.norms fit.parameters).inUnits s := by
    rw [same.system.norms]
    exact fit.trust.rescale_inUnits units same.system.norms_ne_zero fit.parameters
  simp only [linearized, inUnits, rank, trust]

theorem deficientEvents_of_fullRank (fit : Fit ℝ σ n m) {L : Linearization ℝ n m}
    (full : L.fullRank = true) : fit.deficientEvents L = [] :=
  if_pos full

section Linearize

variable [Products ℝ] [Products.Exact] (units : ∀ p, 0 < s p)

include units

theorem flat_inUnits (limits : fit.limits = .unbounded) (minGradient : fit.criteria.minGradient = 0)
    (J : DenseMatrix ℝ m n) :
    ((fit.inUnits s g).measured (J.timesUnits s)).gradientNorm ≤
        ((fit.inUnits s g).measured (J.timesUnits s)).criteria.minGradient ↔
      (fit.measured J).gradientNorm ≤ (fit.measured J).criteria.minGradient := by
  have otherLimits : (fit.inUnits s g).limits = .unbounded := limits
  have otherBound : (fit.inUnits s g).criteria.minGradient = 0 := minGradient
  rw [flat_iff otherLimits otherBound, flat_iff limits minGradient, gradient_inUnits]
  apply forall_congr'
  intro p
  rw [timesUnits_get, mul_eq_zero, or_iff_left (units p).ne']

theorem linearization_inUnits (limits : fit.limits = .unbounded) (counted : fit.freeCount = n)
    (J : DenseMatrix ℝ m n) (full : (fit.linearization J).factor.rank = n)
    (otherFull : ((fit.inUnits s g).linearization (J.timesUnits s)).factor.rank = n) :
    Linearization.InUnits s (fit.weightedJacobian J (fit.free J)) fit.weightedResidual
      (fit.linearization J) ((fit.inUnits s g).linearization (J.timesUnits s)) := by
  have otherLimits : (fit.inUnits s g).limits = .unbounded := limits
  have free : (fit.inUnits s g).free (J.timesUnits s) = fit.free J := by
    apply Vector.ext_get
    intro p
    rw [free_of_unbounded otherLimits, free_of_unbounded limits]
  have factors : ((fit.inUnits s g).linearization (J.timesUnits s)).factor.Factors
      ((fit.weightedJacobian J (fit.free J)).timesUnits s) := by
    rw [← weightedJacobian_inUnits (g := g), ← free]
    exact Factorization.ofMatrix_factors _
  exact
    { system :=
        { units
          factors := Factorization.ofMatrix_factors _
          otherFactors := factors
          full, otherFull
          head := linearization_rhs fit J
          otherHead := linearization_rhs (fit.inUnits s g) (J.timesUnits s) }
      gradient := gradient_inUnits fit J
      free := free_of_unbounded limits J
      otherFree := free_of_unbounded otherLimits _
      fullRank := beq_iff_eq.mpr (full.trans counted.symm)
      otherFullRank := beq_iff_eq.mpr (otherFull.trans counted.symm)
      fresh := rfl }

/-- Before its trial steps an iteration is over in both units, or it makes them with one linear
problem. -/
theorem linearize_inUnits (limits : fit.limits = .unbounded)
    (minGradient : fit.criteria.minGradient = 0) (M : Model ℝ σ ε n m) (g : ℝ) :
    (∃ call g', linearize M fit = .settled call ∧
      linearize (M.inUnits s) (fit.inUnits s g) = .settled (call.inUnits s g')) ∨
    ∃ (ready : Fit ℝ σ n m) (J : DenseMatrix ℝ m n) (g' : ℝ),
      ready.limits = .unbounded ∧ ready.freeCount = n ∧
      linearize M fit = .ready (ready.linearized (ready.linearization J))
        (ready.deficientEvents (ready.linearization J)) (ready.linearization J) ∧
      linearize (M.inUnits s) (fit.inUnits s g) = .ready
        ((ready.inUnits s g').linearized
          ((ready.inUnits s g').linearization (J.timesUnits s)))
        ((ready.inUnits s g').deficientEvents
          ((ready.inUnits s g').linearization (J.timesUnits s)))
        ((ready.inUnits s g').linearization (J.timesUnits s)) := by
  have asks := evaluateJacobian_inUnits (g := g) (fun p => (units p).ne') M fit
  cases answer : fit.evaluateJacobian M with
  | mk asked result =>
      rw [answer] at asks
      cases result with
      | error error =>
          refine .inl ⟨.fail asked [] (.model error), g, ?_, ?_⟩
          · simp only [linearize, answer]
          · simp only [linearize, asks, Except.map]
            rfl
      | ok J =>
          have stays := evaluateJacobian_stays answer
          let counted : Fit ℝ σ n m := { asked with freeCount := n }
          let g' := ((counted.inUnits s g).measured (J.timesUnits s)).gradientNorm
          have free : counted.limits = .unbounded := stays.limits.trans limits
          have bound : counted.criteria.minGradient = 0 :=
            (congrArg StopCriteria.minGradient stays.criteria).trans minGradient
          have otherLimits : (fit.inUnits s g).limits = .unbounded := limits
          have first := linearize_of_unbounded limits answer counted rfl
          have second := linearize_of_unbounded otherLimits asks (counted.inUnits s g) rfl
          have alike := flat_inUnits (g := g) units free bound J
          by_cases empty : n = 0
          · rw [if_pos empty] at first second
            refine .inl ⟨_, g, first, second.trans ?_⟩
            exact congrArg Prospect.settled (conclude_inUnits s g counted [] _)
          · rw [if_neg empty] at first second
            by_cases small : (counted.measured J).gradientNorm ≤
                (counted.measured J).criteria.minGradient
            · rw [if_pos small] at first
              refine .inl ⟨_, g', first, second.trans ((if_pos (alike.mpr small)).trans ?_)⟩
              exact congrArg Prospect.settled (conclude_inUnits s g' (counted.measured J) [] _)
            · rw [if_neg small] at first
              refine .inr ⟨counted.measured J, J, g', free, rfl, first, ?_⟩
              exact second.trans (if_neg fun less => small (alike.mp less))

theorem prospect_inUnits (plain : Plain M fit) (prepared : fit.prepared = true)
    (full : FullRank M fit) (otherFull : FullRank (M.inUnits s) (fit.inUnits s g)) :
    (∃ call g', linearize M { fit with iteration := fit.iteration + 1 } = .settled call ∧
      linearize (M.inUnits s)
        { fit.inUnits s g with iteration := (fit.inUnits s g).iteration + 1 } =
          .settled (call.inUnits s g')) ∨
    ∃ (first : Fit ℝ σ n m) (L K : Linearization ℝ n m) (g' : ℝ)
      (A : DenseMatrix ℝ (max n m) n) (b : Vector ℝ (max n m)),
      first.Underway ∧ Linearization.InUnits s A b L K ∧
      linearize M { fit with iteration := fit.iteration + 1 } = .ready first [] L ∧
      linearize (M.inUnits s)
        { fit.inUnits s g with iteration := (fit.inUnits s g).iteration + 1 } =
          .ready (first.inUnits s g') [] K := by
  have free : ({ fit with iteration := fit.iteration + 1 } : Fit ℝ σ n m).limits = .unbounded :=
    plain.limits
  rcases linearize_inUnits units free plain.minGradient M g with settled |
    ⟨ready, J, g', unlimited, counted, first, second⟩
  · exact .inl settled
  · have tries : fit.Tries M _ _ := ⟨_, first⟩
    have otherTries : (fit.inUnits s g).Tries (M.inUnits s) _ _ := ⟨_, second⟩
    have same := linearization_inUnits units unlimited counted J (full prepared _ _ tries)
      (otherFull prepared _ _ otherTries)
    rw [deficientEvents_of_fullRank _ same.fullRank] at first
    rw [deficientEvents_of_fullRank _ same.otherFullRank, linearized_inUnits units same] at second
    have scaled : fit.trust.Scaled :=
      (plain.reachable.ready (P := fun _ _ => True) fun _ _ _ _ => trivial).scaled
    have underway : (ready.linearized (ready.linearization J)).Underway :=
      { limits := unlimited
        scale_pos := tries.scale_pos scaled
        sound := tries.sound plain.reachable.sound }
    exact .inr ⟨_, _, _, g', _, _, underway, same, first, second⟩

end Linearize

/-! ## Iterations -/

theorem reported_withGradient (g : ℝ) (events : List (Event ℝ)) :
    reported (events.map (Event.withGradient g)) = (reported events).map (·.withGradient g) := by
  induction events with
  | nil => rfl
  | cons event rest ih =>
      cases event with
      | iteration report => exact congrArg (report.withGradient g :: ·) ih
      | log record => exact ih
      | finish status => exact ih

theorem trialsReports_inUnits {A : DenseMatrix ℝ (max n m) n} {b : Vector ℝ (max n m)}
    {L K : Linearization ℝ n m} (same : Linearization.InUnits s A b L K) (M : Model ℝ σ ε n m)
    (fuel : Nat) (underway : fit.Underway) :
    (fit.inUnits s g).trialsReports (M.inUnits s) K fuel =
      (fit.trialsReports M L fuel).map (·.withGradient g) := by
  induction fuel generalizing fit with
  | zero => rfl
  | succ fuel ih =>
      rw [trialsReports, trialsReports, trial_inUnits underway same]
      cases ended : fit.trial M L with
      | settled call => exact reported_withGradient g call.events
      | rejected next events =>
          simp only [Trial.inUnits, ih (underway.rejected ended), reported_withGradient,
            List.map_append]

theorem iterate_inUnits [Products ℝ] [Products.Exact] (units : ∀ p, 0 < s p)
    (plain : Plain M fit) (full : FullRank M fit)
    (otherFull : FullRank (M.inUnits s) (fit.inUnits s g)) :
    ∃ g', ∀ fuel,
      (fit.inUnits s g).iterate (M.inUnits s) fuel = (fit.iterate M fuel).map (·.inUnits s g') ∧
      (fit.inUnits s g).iterateReports (M.inUnits s) fuel =
        (fit.iterateReports M fuel).map (·.withGradient g') := by
  by_cases prepared : fit.prepared = true
  · have otherPrepared : (fit.inUnits s g).prepared = true := prepared
    rcases prospect_inUnits units plain prepared full otherFull with ⟨call, g', first, second⟩ |
      ⟨next, L, K, g', A, b, underway, same, first, second⟩
    · refine ⟨g', fun fuel => ?_⟩
      rw [iterate, iterate, iterateReports, iterateReports, if_pos otherPrepared,
        if_pos otherPrepared, if_pos prepared, if_pos prepared, first, second]
      exact ⟨rfl, reported_withGradient g' call.events⟩
    · refine ⟨g', fun fuel => ?_⟩
      rw [iterate, iterate, iterateReports, iterateReports, if_pos otherPrepared,
        if_pos otherPrepared, if_pos prepared, if_pos prepared, first, second]
      constructor
      · simp only [trials_inUnits same M fuel underway, Option.map_map]
        rfl
      · exact trialsReports_inUnits same M fuel underway
  · have otherUnprepared : ¬ (fit.inUnits s g).prepared = true := prepared
    refine ⟨g, fun fuel => ?_⟩
    rw [iterate, iterate, iterateReports, iterateReports, if_neg otherUnprepared,
      if_neg otherUnprepared, if_neg prepared, if_neg prepared]
    exact ⟨rfl, rfl⟩

end Fit

end LeastSquares

import LeastSquares.Proofs.Fit.Bounds
import LeastSquares.Proofs.Fit.Ending
import LeastSquares.Proofs.Fit.LinearModel

/-!
# What a trial predicts

The prediction of a trial is read off the factors, for a step that a limit may have cut short. If
the factorization discards nothing it is the share of chi-square that the linear model loses along
that step. Along a step that no limit cuts short the linear model falls, so a trial that is rejected
all the same shrinks the radius.
-/

set_option autoImplicit false

namespace LeastSquares

open Matrix

variable {σ ε : Type} {n m : Nat}

/-! ## The prediction -/

namespace Fit

section Outcome

variable (fit : Fit ℝ σ n m) (L : Linearization ℝ n m) (proposal : Proposal ℝ n)
  (values : Vector ℝ m)

/-- At a chi-square of zero all of these are zero, on either side. -/
theorem outcomeAt_predicted : (fit.outcomeAt L proposal values).predicted =
    (fit.problem L).gain proposal.move.step.get / fit.chiSquare := by
  simp only [outcomeAt, outcome, beq_iff_eq]
  split
  · rename_i zero
    rw [zero, div_zero]
  · exact congrArg (· / fit.chiSquare) ((fit.problem L).gain_sum proposal.move.step)

theorem outcomeAt_slope : (fit.outcomeAt L proposal values).slope =
    -(proposal.move.step.get ⬝ᵥ L.gradient.get) / fit.chiSquare := by
  simp only [outcomeAt, outcome, beq_iff_eq]
  split
  · rename_i zero
    rw [zero, div_zero]
  · have sum : Scalar.addOver (-0) (fun _ => true) (fun p : Fin n =>
        proposal.move.step p * L.gradient p) = proposal.move.step.get ⬝ᵥ L.gradient.get := by
      rw [Scalar.addOver_real, neg_zero, zero_add]
      rfl
    exact congrArg (-· / fit.chiSquare) sum

end Outcome

/-! ## Chi-square and the residual -/

theorem chiSquare_sum (T : Targets ℝ m) (active : Vector Bool m) (values : Vector ℝ m) :
    T.chiSquare active values = ∑ i : {i : Fin m // active i = true},
      T.residual values i.val * T.residual values i.val := by
  rw [Targets.chiSquare, Scalar.addOver_real, zero_add]
  symm
  apply Fintype.sum_of_injective Subtype.val Subtype.val_injective
  · intro i outside
    have inactive : ¬ active i = true := fun holds => outside ⟨⟨i, holds⟩, rfl⟩
    exact if_neg inactive
  · intro i
    exact (if_pos i.property).symm

theorem Cached.chiSquare_eq {P : Vector ℝ n → Vector ℝ m → Prop} {fit : Fit ℝ σ n m}
    (cached : fit.Cached P) : fit.chiSquare = fit.activeResidual ⬝ᵥ fit.activeResidual :=
  cached.chiSquare.trans (chiSquare_sum fit.targets fit.active fit.values)

section Trials

variable {M : Model ℝ σ ε n m} {P : Vector ℝ n → Vector ℝ m → Prop} {fit first : Fit ℝ σ n m}
  {L : Linearization ℝ n m} {J : DenseMatrix ℝ m n} {later asked : Fit ℝ σ n m}
  {proposal : Proposal ℝ n} {values : Vector ℝ m}

/-! ## Steps -/

theorem propose_step (step : later.propose L = .ok proposal) (p : Fin n) :
    proposal.move.step p = proposal.move.next p - later.parameters p := by
  obtain ⟨x, moved⟩ := propose_move step
  rw [moved]
  exact Vector.get_ofFn _ p

theorem move_of_not_bounded {free : Vector Bool n} {x : Vector ℝ n}
    (whole : (later.move free x).bounded = false) (p : Fin n) :
    (later.move free x).step p = if free p then x p else 0 := by
  have within := List.any_eq_false.mp whole p (List.mem_finRange p)
  rw [Option.not_isSome_iff_eq_none] at within
  have next : (later.move free x).next p = later.parameters p + if free p then x p else 0 := by
    rw [move, Vector.get_ofFn]
    simp only [within]
  have step : (later.move free x).step p = (later.move free x).next p - later.parameters p :=
    Vector.get_ofFn _ p
  rw [step, next, add_sub_cancel_left]

theorem exceeded?_unbounded (p : Fin n) (a : ℝ) :
    (Limits.unbounded : Limits ℝ n).exceeded? p a = none := by
  rw [Limits.exceeded?_eq_none_iff]
  constructor
  · intro limit below
    rw [Limits.unbounded, Vector.get_replicate] at below
    cases below
  · intro limit above
    rw [Limits.unbounded, Vector.get_replicate] at above
    cases above

theorem propose_of_unbounded (limits : later.limits = .unbounded)
    (step : later.propose L = .ok proposal) : proposal.move.bounded = false := by
  obtain ⟨x, moved⟩ := propose_move step
  rw [moved, move]
  apply List.any_eq_false.mpr
  intro p _
  rw [Option.not_isSome_iff_eq_none, limits]
  exact exceeded?_unbounded p _

/-! ## What the linear model says -/

variable [Products ℝ]

theorem HasProblem.factors (problem : fit.HasProblem J L) (later : Fit ℝ σ n m) :
    (later.problem L).factor.Factors (fit.weightedJacobian J (fit.free J)) := by
  change L.factor.Factors _
  rw [problem.factor]
  exact Factorization.ofMatrix_factors _

/-- What the factors predict for a step is by how much the linear model falls along it. -/
theorem HasProblem.gain (problem : fit.HasProblem J L) (nothing : L.factor.discarded = 0)
    (cached : fit.Cached P) (later : Fit ℝ σ n m) (step : Fin n → ℝ) :
    (later.problem L).gain step = fit.chiSquare -
      euclid (fit.activeResidual - fit.freeJacobian J *ᵥ fit.freePart J step) ^ 2 := by
  rw [Damping.Problem.gain_eq_residual (problem.factors later) nothing problem.rhs,
    weightedResidual_dot, ← cached.chiSquare_eq, ← padded_residual]
  rfl

theorem Attempt.predicted (attempt : fit.Attempt M L later asked proposal values)
    (nothing : L.factor.discarded = 0) (cached : fit.Cached P) :
    (asked.outcomeAt L proposal values).predicted =
      (fit.chiSquare - euclid (fit.activeResidual - fit.freeJacobian (fit.jacobianAnswer M) *ᵥ
        fit.freePart (fit.jacobianAnswer M) proposal.move.step.get) ^ 2) / fit.chiSquare := by
  rw [outcomeAt_predicted, attempt.problem.gain nothing cached, attempt.stays.chiSquare]

theorem step_frozen (upright : fit.limits.Upright) (problem : fit.HasProblem J L)
    (stays : fit.Stays later) (step : later.propose L = .ok proposal) {p : Fin n}
    (frozen : fit.free J p = false) : proposal.move.step p = 0 := by
  have touches : later.limits.Touches p (later.parameters p) := by
    apply touches_of_not_free (J := J)
    rw [stays.free]
    exact frozen
  have still : L.free p = false := by
    rw [problem.free]
    exact frozen
  rw [propose_step step]
  obtain ⟨x, moved⟩ := propose_move step
  rw [moved, move_frozen (stays.limits ▸ upright) x still touches, add_zero, sub_self]

/-! ## Steps that no limit cuts short -/

/-- Along a whole step the linear model is what it is along the solution that was searched for. -/
theorem whole_step (problem : fit.HasProblem J L) (step : later.propose L = .ok proposal)
    (whole : proposal.move.bounded = false) : ∃ found,
      (later.problem L).solve L.fullRank later.trust.alpha = .ok found ∧
      fit.padded J *ᵥ proposal.move.step.get = fit.padded J *ᵥ found.step.x.get ∧
      ∀ p, fit.free J p = false → proposal.move.step p = 0 := by
  rw [propose] at step
  split at step
  · cases step
  · rename_i found solved
    cases step
    have entry (p : Fin n) := move_of_not_bounded whole p
    rw [problem.free] at entry
    refine ⟨found, solved, fit.padded_mulVec_congr J ?_, ?_⟩
    · intro p free
      rw [problem.free]
      exact (entry p).trans (if_pos free)
    · intro p stuck
      rw [problem.free]
      exact (entry p).trans (if_neg (ne_true_of_eq_false stuck))

section Whole

variable (problem : fit.HasProblem J L) (nothing : L.factor.discarded = 0)
  (innerNothing : L.fullRank = false → L.factor.inner.discarded = 0)
  (positive : ∀ p, 0 < later.trust.scale p) (radius : 0 ≤ later.trust.delta)
  (step : later.propose L = .ok proposal) (whole : proposal.move.bounded = false)

include problem nothing innerNothing positive radius step whole

theorem whole_step_gain : 0 ≤ (later.problem L).gain proposal.move.step.get ∧
    ((fit.padded J)ᵀ *ᵥ fit.weightedResidual.get ≠ 0 →
      0 < (later.problem L).gain proposal.move.step.get) := by
  obtain ⟨found, solved, image, _⟩ := whole_step problem step whole
  have factors := problem.factors later
  obtain ⟨damped, solution⟩ :=
    Damping.Problem.solve_shifted factors positive radius innerNothing solved
  rw [Damping.Problem.gain_congr factors nothing problem.rhs image]
  constructor
  · exact Damping.Problem.gain_nonneg positive damped solution
  · intro steep
    have pull := Damping.Problem.pull_ne_zero_of factors nothing problem.rhs positive steep
    exact Damping.Problem.gain_pos positive damped solution pull

theorem whole_step_slope [Products.Exact] : 0 ≤ proposal.move.step.get ⬝ᵥ L.gradient.get := by
  obtain ⟨found, solved, image, still⟩ := whole_step problem step whole
  have factors := problem.factors later
  obtain ⟨damped, solution⟩ :=
    Damping.Problem.solve_shifted factors positive radius innerNothing solved
  -- The gradient of the fit has entries for frozen parameters, which the step has not.
  have gradient : proposal.move.step.get ⬝ᵥ L.gradient.get =
      proposal.move.step.get ⬝ᵥ ((fit.padded J)ᵀ *ᵥ fit.weightedResidual.get) := by
    apply Finset.sum_congr rfl
    intro p _
    cases free : fit.free J p with
    | true => rw [problem.gradient, fit.gradient_of_free J free]
    | false => rw [still p free, zero_mul, zero_mul]
  rw [gradient, Damping.Problem.dot_transpose_mulVec, image]
  have meets := Damping.Problem.dot_rhs factors nothing problem.rhs found.step.x.get
  rw [padded, ← meets]
  exact Damping.Problem.dot_nonneg positive damped solution

end Whole

/-! ## Trial steps -/

theorem Tries.scale_pos (tries : fit.Tries M first L) (scaled : fit.trust.Scaled) (p : Fin n) :
    0 < first.trust.scale p := by
  rw [tries.trust]
  apply scaled.rescale
  intro q
  rw [tries.problem.2.factor]
  exact Factorization.ofMatrix_norms_nonneg _ q

theorem Attempt.scale_pos (attempt : fit.Attempt M L later asked proposal values)
    (scaled : fit.trust.Scaled) (p : Fin n) : 0 < later.trust.scale p := by
  obtain ⟨first, k, tries, reached⟩ := attempt.reached
  rw [(retried_scaling reached).1]
  exact tries.scale_pos scaled p

theorem Tries.sound (tries : fit.Tries M first L) (sound : fit.Sound) : first.Sound :=
  Begins.sound tries sound

theorem Attempt.sound (attempt : fit.Attempt M L later asked proposal values)
    (sound : fit.Sound) : later.Sound ∧ asked.Sound := by
  obtain ⟨first, k, tries, reached⟩ := attempt.reached
  have before := retried_sound (tries.sound sound) reached
  exact ⟨before, (before.proposed attempt.proposes).evaluateAt attempt.answers⟩

theorem Attempt.worse_trust (attempt : fit.Attempt M L later asked proposal values)
    (worse : ¬ asked.chiSquareAt values < asked.chiSquare) :
    (later.trial M L).fit.trust = proposal.trust.adapt (asked.outcomeAt L proposal values) := by
  rw [attempt.judged, ← attempt.asks]
  rcases asked.judge_cases (ε := ε) L proposal values with ⟨better, _⟩ | ⟨_, _, settled⟩ |
    ⟨_, _, again⟩
  · exact absurd better worse
  · rw [settled]
    rfl
  · rw [again]
    rfl

/-- A trial step that no limit cuts short goes down: the linear model says that chi-square falls by
it, and so does the slope. So if it is rejected, the radius shrinks to a half at most. -/
theorem whole_trial_descends [Products.Exact] (reachable : Reachable M fit)
    (nothing : L.factor.discarded = 0)
    (innerNothing : L.fullRank = false → L.factor.inner.discarded = 0)
    (attempt : fit.Attempt M L later asked proposal values)
    (whole : proposal.move.bounded = false) :
    0 ≤ (asked.outcomeAt L proposal values).predicted ∧
    (asked.outcomeAt L proposal values).slope ≤ 0 ∧
    (¬ asked.chiSquareAt values < asked.chiSquare → ∃ mu, 1 / 10 ≤ mu ∧ mu ≤ 1 / 2 ∧
      (later.trial M L).fit.trust =
        { proposal.trust with
          delta := mu * min proposal.trust.delta (10 * proposal.stepNorm)
          alpha := proposal.trust.alpha / mu }) := by
  have ready : fit.Ready fun _ _ => True := reachable.ready fun _ _ _ _ => trivial
  have positive := attempt.scale_pos ready.scaled
  obtain ⟨before, asks⟩ := attempt.sound reachable.sound
  have problem := attempt.problem
  have slope : (asked.outcomeAt L proposal values).slope ≤ 0 := by
    rw [outcomeAt_slope]
    apply div_nonpos_of_nonpos_of_nonneg _ asks.chiSquare_nonneg
    exact neg_nonpos.mpr (whole_step_slope problem nothing innerNothing positive before.delta_nonneg
      attempt.proposes whole)
  refine ⟨?_, slope, fun worse => ?_⟩
  · rw [outcomeAt_predicted]
    exact div_nonneg (whole_step_gain problem nothing innerNothing positive before.delta_nonneg
      attempt.proposes whole).1 asks.chiSquare_nonneg
  · have actual := outcomeAt_actual asks L proposal worse
    have tame : ¬ (asked.outcomeAt L proposal values).Runaway := by
      rintro ⟨_, negative, above⟩
      norm_num at above
      linarith
    refine ⟨TrustRegion.shrinkage (asked.outcomeAt L proposal values),
      TrustRegion.tenth_le_shrinkage _, TrustRegion.shrinkage_le_half tame, ?_⟩
    have length : proposal.stepNorm / 0.1 = 10 * proposal.stepNorm := by
      norm_num
      ring
    rw [attempt.worse_trust worse,
      TrustRegion.adapt_of_poor _ (TrustRegion.agreement_of_actual actual), outcomeAt_stepNorm,
      length]

end Trials

/-! ## One point and one parameter -/

/-- The model of one point that gives `f a`, and says that its derivative is one. -/
def gauge (f : ℝ → ℝ) : Model ℝ Unit Empty 1 1 where
  values _ a _ := { state := (), buffer := a.map f, failure? := none }
  jacobian _ _ _ := { state := (), buffer := .ofFn fun _ _ => 1, failure? := none }

noncomputable def gauged : Fit ℝ Unit 1 1 :=
  { model := ()
    parameters := Vector.replicate 1 1
    limits := .unbounded
    targets :=
      { target := Vector.replicate 1 0
        sigma := Vector.replicate 1 1
        tags := Vector.replicate 1 .equal }
    criteria := .off
    values := Vector.replicate 1 1
    spare := Vector.replicate 1 0
    active := Vector.replicate 1 true
    chiSquare := 1
    gradientNorm := 0
    freeCount := 1
    rank := 0
    trust := .initial
    prepared := true
    iteration := 0
    valueCalls := 1
    jacobianCalls := 0 }

namespace Gauge

variable {f : ℝ → ℝ}

noncomputable def unprepared : Fit ℝ Unit 1 1 :=
  { gauged with
    values := Vector.replicate 1 0
    chiSquare := 0
    prepared := false
    valueCalls := 0 }

theorem starts : Fit.start () #v[(1 : ℝ)] #v[(0 : ℝ)] #[(1 : ℝ)] = .ok unprepared := by
  simp [Fit.start, unprepared, gauged]

theorem prepares (height : f 1 = 1) : (unprepared.prepare (gauge f)).fit = gauged := by
  have stays : unprepared.clamped = #v[1] := by
    rw [eq_singleton unprepared.clamped, clamped, Vector.get_ofFn]
    simp [unprepared, gauged, Limits.clamp, Limits.unbounded]
  have fresh : unprepared.prepared = false := rfl
  obtain ⟨answer, asked, ⟨error, failed, _⟩ | ⟨_, _, ready⟩⟩ := prepare_outcome (gauge f) fresh
  · rw [← asked] at failed
    cases failed
  · have values : answer.buffer = #v[1] := by
      rw [← asked, stays]
      change Vector.map f #v[1] = #v[1]
      rw [eq_singleton (Vector.map f _), Vector.get_map]
      exact congrArg (fun x => #v[x]) height
    have active : gauged.targets.active #v[1] = #v[true] := by
      rw [eq_singleton (Targets.active _ _), Targets.active, Vector.get_ofFn]
      rfl
    have square : gauged.targets.chiSquare #v[true] #v[1] = 1 := by
      norm_num [gauged, Targets.chiSquare, Targets.residual, Scalar.addOver_real]
    rw [ready, values, stays]
    simp only [refresh]
    rw [show unprepared.targets = gauged.targets from rfl, active, square]
    rfl

theorem reachable (height : f 1 = 1) : Reachable (gauge f) gauged := by
  have before : Reachable (gauge f) unprepared := .start starts
  rw [← prepares height]
  exact before.prepare

noncomputable def slope : DenseMatrix ℝ 1 1 := .ofFn fun _ _ => 1

theorem free : gauged.free slope = #v[true] := by
  rw [eq_singleton (gauged.free slope), Fit.free, Vector.get_ofFn]
  simp [isStuck, gauged, Limits.unbounded, Limits.atUpper, Limits.atLower]

theorem gradient : gauged.gradient slope = #v[-1] := by
  rw [eq_singleton (gauged.gradient slope), gradient_eq_sum]
  norm_num [gauged, slope, Targets.weight]

theorem tries (f : ℝ → ℝ) : ∃ first L, gauged.Tries (gauge f) first L := by
  let asked : Fit ℝ Unit 1 1 := { gauged with iteration := 1, jacobianCalls := 1 }
  have stays : gauged.Stays asked := ⟨rfl, rfl, rfl, rfl, rfl, rfl, rfl, rfl⟩
  have known : evaluateJacobian (gauge f) { gauged with iteration := gauged.iteration + 1 } =
      (asked, .ok slope) := rfl
  have movable : (asked.counted slope).freeCount ≠ 0 := by
    simp [counted, stuck, stays.free, free]
  have steep : ¬ ((asked.counted slope).measured slope).gradientNorm ≤
      asked.criteria.minGradient := by
    have norm : ((asked.counted slope).measured slope).gradientNorm =
        Scalar.norm (fun p => gauged.free slope p) (gauged.gradient slope) := rfl
    rw [norm, free, gradient, Scalar.norm_real, Scalar.sumSquares_real]
    norm_num [asked, gauged, StopCriteria.off]
  rcases linearize_cases (gauge f) { gauged with iteration := gauged.iteration + 1 } with
    ⟨_, _, failed, _⟩ | ⟨_, _, other, none, _⟩ | ⟨_, _, other, _, small, _⟩ |
    ⟨_, _, _, _, _, events, ready⟩
  · rw [known] at failed
    cases failed
  · rw [known] at other
    cases other
    exact absurd none movable
  · rw [known] at other
    cases other
    exact absurd small steep
  · exact ⟨_, _, events, ready⟩

theorem discarded {first : Fit ℝ Unit 1 1} {L : Linearization ℝ 1 1}
    (tries : gauged.Tries (gauge f) first L) :
    L.factor.discarded = 0 ∧ L.factor.inner.discarded = 0 := by
  have small : (Reduction.tolerance 1 1 : ℝ) < 1 := Reduction.tolerance_lt_one (by decide)
  have factors : L.factor.Factors (gauged.weightedJacobian slope (gauged.free slope)) :=
    tries.problem.2.factors first
  have column : (gauged.weightedJacobian slope (gauged.free slope)).toMatrix.col 0 ≠ 0 := by
    intro zero
    have entry : gauged.padded slope ⟨0, Nat.one_pos⟩ 0 = 1 := by
      rw [padded_apply, dif_pos Nat.one_pos, free]
      norm_num [gauged, slope]
    exact one_ne_zero (entry.symm.trans (congrFun zero ⟨0, Nat.one_pos⟩))
  constructor
  · exact factors.discarded_of_one_row small column
  · exact factors.inner_discarded_of_rank_le_one small L.factor.rank_le_cols

theorem attempt {first : Fit ℝ Unit 1 1} {L : Linearization ℝ 1 1}
    (tries : gauged.Tries (gauge f) first L) : ∃ proposal asked,
      gauged.Attempt (gauge f) L first asked proposal (proposal.move.next.map f) ∧
      proposal.move.bounded = false := by
  obtain ⟨proposal, step⟩ := propose_ok L first
  have limits : first.limits = .unbounded := tries.stays.limits
  exact ⟨proposal, _, ⟨⟨first, 0, tries, rfl⟩, step, rfl⟩, propose_of_unbounded limits step⟩

end Gauge

/-- A model that does not move says that it would: the step is whole and does not help. -/
theorem gauged_descends : ∃ L later asked proposal values,
    gauged.Attempt (gauge fun _ => 1) L later asked proposal values ∧
    ¬ asked.chiSquareAt values < asked.chiSquare ∧
    (asked.outcomeAt L proposal values).slope ≤ 0 ∧
    ∃ mu, 1 / 10 ≤ mu ∧ mu ≤ 1 / 2 ∧ (later.trial (gauge fun _ => 1) L).fit.trust =
      { proposal.trust with
        delta := mu * min proposal.trust.delta (10 * proposal.stepNorm)
        alpha := proposal.trust.alpha / mu } := by
  obtain ⟨first, L, tries⟩ := Gauge.tries fun _ => 1
  obtain ⟨nothing, innerNothing⟩ := Gauge.discarded tries
  obtain ⟨proposal, asked, attempt, whole⟩ := Gauge.attempt tries
  have worse : ¬ asked.chiSquareAt (proposal.move.next.map fun _ => 1) < asked.chiSquare := by
    rw [chiSquareAt, attempt.stays.targets, attempt.stays.chiSquare]
    norm_num [gauged, Targets.chiSquare, Targets.residual, Targets.active, Scalar.addOver_real,
      Inequality.isActive]
  obtain ⟨_, slope, shrinks⟩ := whole_trial_descends (Gauge.reachable rfl) nothing
    (fun _ => innerNothing) attempt whole
  exact ⟨L, first, asked, proposal, _, attempt, worse, slope, shrinks worse⟩

end Fit

end LeastSquares

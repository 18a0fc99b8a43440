import LeastSquares.Proofs.Fit.Limits

/-!
# What prepared fits hold

A prepared fit holds values that the model once gave for its parameters, the points that are active
with these values, and their chi-square. Whatever all values of the model have in common is true of
the values that are held. The limits of a fit are in order, and once the trust region has been set
up its scaling is positive. All of this is kept by every call, whether it succeeds or fails.
-/

set_option autoImplicit false

namespace LeastSquares

variable {α σ ε : Type} {n m : Nat}

/-! ## The scaling -/

namespace TrustRegion

theorem adapt_scaling [Scalar α] (T : TrustRegion α n) (trial : TrialOutcome α) :
    (T.adapt trial).scale = T.scale ∧ (T.adapt trial).initialized = T.initialized := by
  simp only [adapt]
  split
  · exact ⟨rfl, rfl⟩
  · split
    · exact ⟨rfl, rfl⟩
    · exact ⟨rfl, rfl⟩

def Scaled (T : TrustRegion ℝ n) : Prop := T.initialized = true → ∀ p, 0 < T.scale p

theorem Scaled.congr {T U : TrustRegion ℝ n} (scaled : T.Scaled) (scale : U.scale = T.scale)
    (initialized : U.initialized = T.initialized) : U.Scaled := by
  intro known p
  rw [initialized] at known
  rw [scale]
  exact scaled known p

theorem Scaled.rescale {T : TrustRegion ℝ n} (scaled : T.Scaled) {norms : Vector ℝ n}
    (nonneg : ∀ p, 0 ≤ norms p) (a : Vector ℝ n) (p : Fin n) : 0 < (T.rescale norms a).scale p := by
  by_cases known : T.initialized = true
  · rw [TrustRegion.rescale, if_pos known, Vector.get_ofFn, Scalar.max_real]
    exact lt_max_of_lt_left (scaled known p)
  · rw [TrustRegion.rescale, if_neg known]
    simp only [firstScale, Vector.get_map]
    split
    · exact one_pos
    · rename_i nonzero
      exact lt_of_le_of_ne (nonneg p) fun zero => nonzero (beq_iff_eq.mpr zero.symm)

end TrustRegion

theorem Factorization.ofMatrix_norms_nonneg (A : DenseMatrix ℝ m n) (p : Fin n) :
    0 ≤ (Factorization.ofMatrix A).norms p := by
  rw [Factorization.ofMatrix, Vector.get_ofFn]
  exact Scalar.norm_nonneg _ _

/-! ## The values -/

/-- What the values of a model satisfy together with the parameters, whenever it does not fail. -/
def Model.Answers (M : Model α σ ε n m) (P : Vector α n → Vector α m → Prop) : Prop :=
  ∀ state a buffer, (M.values state a buffer).failure? = none → P a (M.values state a buffer).buffer

namespace Fit

theorem nextIteration_stays (fit : Fit α σ n m) :
    fit.Stays { fit with iteration := fit.iteration + 1 } :=
  ⟨rfl, rfl, rfl, rfl, rfl, rfl, rfl, rfl⟩

theorem evaluateAt_answers {M : Model α σ ε n m} {P : Vector α n → Vector α m → Prop}
    (answers : M.Answers P) {fit asked : Fit α σ n m} {a : Vector α n} {values : Vector α m}
    (answer : fit.evaluateAt M a = (asked, .ok values)) : P a values := by
  simp only [evaluateAt] at answer
  split at answer
  · cases answer
  · rename_i succeeded
    cases answer
    exact answers _ _ _ succeeded

variable [Scalar α]

structure Cached (P : Vector α n → Vector α m → Prop) (fit : Fit α σ n m) : Prop where
  answered : P fit.parameters fit.values
  active : fit.active = fit.targets.active fit.values
  chiSquare : fit.chiSquare = fit.targets.chiSquare fit.active fit.values

structure Ready (P : Vector ℝ n → Vector ℝ m → Prop) (fit : Fit ℝ σ n m) : Prop where
  upright : fit.limits.Upright
  scaled : fit.trust.Scaled
  cached : fit.prepared = true → fit.Cached P

section Calls

variable {M : Model ℝ σ ε n m} {P : Vector ℝ n → Vector ℝ m → Prop} {fit later : Fit ℝ σ n m}

theorem Ready.stays (ready : fit.Ready P) (stays : fit.Stays later) (scaled : later.trust.Scaled) :
    later.Ready P := by
  constructor
  · rw [stays.limits]
    exact ready.upright
  · exact scaled
  · intro prepared
    rw [stays.prepared] at prepared
    have cached := ready.cached prepared
    constructor
    · rw [stays.parameters, stays.values]
      exact cached.answered
    · rw [stays.active, stays.targets, stays.values]
      exact cached.active
    · rw [stays.chiSquare, stays.targets, stays.active, stays.values]
      exact cached.chiSquare

theorem start_trust {model : σ} {parameters : Vector α n} {target : Vector α m}
    {sigma : Array α} {fit : Fit α σ n m}
    (started : Fit.start model parameters target sigma = .ok fit) : fit.trust = .initial := by
  obtain ⟨length, rfl⟩ := start_eq started
  rfl

theorem start_ready {model : σ} {parameters : Vector ℝ n} {target : Vector ℝ m} {sigma : Array ℝ}
    (started : Fit.start model parameters target sigma = .ok fit) : fit.Ready P := by
  obtain ⟨unprepared, limits⟩ := start_fresh started
  have trust := start_trust started
  constructor
  · rw [limits]
    exact Limits.unbounded_upright
  · intro known
    rw [trust] at known
    cases known
  · intro prepared
    exact absurd prepared (ne_true_of_eq_false unprepared)

theorem Ready.setInequalities (ready : fit.Ready P) {tags : Option (Array Inequality)}
    (set : fit.setInequalities tags = .ok later) : later.Ready P := by
  have limits := setInequalities_limits set
  obtain ⟨targets, rfl⟩ := setInequalities_eq set
  constructor
  · rw [limits]
    exact ready.upright
  · split
    · exact ready.scaled
    · exact ready.scaled
  · intro prepared
    by_cases before : fit.prepared = true
    · rw [if_pos before]
      exact ⟨(ready.cached before).answered, rfl, rfl⟩
    · rw [if_neg before] at prepared
      exact absurd prepared before

theorem Ready.prepare (answers : M.Answers P) (ready : fit.Ready P) :
    (fit.prepare M).fit.Ready P := by
  by_cases before : fit.prepared = true
  · rw [prepare_refused before]
    exact ready
  · have unprepared : fit.prepared = false := Bool.eq_false_iff.mpr before
    obtain ⟨answer, asked, ⟨error, _, _, failed⟩ | ⟨succeeded, _, prepares⟩⟩ :=
      prepare_outcome M unprepared
    · rw [failed]
      exact ⟨ready.upright, ready.scaled, fun prepared => absurd prepared before⟩
    · rw [prepares]
      constructor
      · exact ready.upright
      · exact ready.scaled
      · intro _
        have holds : P fit.clamped answer.buffer := by
          rw [← asked] at succeeded ⊢
          exact answers _ _ _ succeeded
        exact ⟨holds, rfl, rfl⟩

theorem Ready.evaluateJacobian (ready : fit.Ready P) {result : Except ε (DenseMatrix ℝ m n)}
    (answer : fit.evaluateJacobian M = (later, result)) : later.Ready P := by
  have trust : later.trust = fit.trust := by rw [evaluateJacobian_eq answer]
  exact ready.stays (evaluateJacobian_stays answer) (trust ▸ ready.scaled)

theorem Ready.linearize [Products ℝ] (ready : fit.Ready P) : (linearize M fit).fit.Ready P := by
  apply ready.stays (linearize_stays M fit)
  rcases linearize_cases M fit with ⟨asked, error, answer, settled⟩ |
    ⟨asked, J, answer, _, settled⟩ | ⟨asked, J, answer, _, _, settled⟩ |
    ⟨asked, J, answer, _, _, events, goes⟩
  · rw [settled]
    exact (ready.evaluateJacobian answer).scaled
  · rw [settled]
    exact (ready.evaluateJacobian answer).scaled
  · rw [settled]
    exact (ready.evaluateJacobian answer).scaled
  · rw [goes]
    intro _
    have scaled := (ready.evaluateJacobian answer).scaled
    exact scaled.rescale (Factorization.ofMatrix_norms_nonneg _) asked.parameters

theorem trial_scaling (M : Model α σ ε n m) (L : Linearization α n m)
    (fit : Fit α σ n m) : (fit.trial M L).fit.trust.scale = fit.trust.scale ∧
      (fit.trial M L).fit.trust.initialized = fit.trust.initialized := by
  have proposes {proposal : Proposal α n} (step : fit.propose L = .ok proposal) :
      proposal.trust.scale = fit.trust.scale ∧
        proposal.trust.initialized = fit.trust.initialized := by
    rw [propose] at step
    split at step
    · cases step
    · cases step
      exact ⟨rfl, rfl⟩
  rcases fit.trial_cases M L with ⟨error, _, failed⟩ |
    ⟨proposal, asked, error, step, answer, failed⟩ |
    ⟨proposal, asked, values, step, answer, judged⟩
  · rw [failed]
    exact ⟨rfl, rfl⟩
  · rw [failed, evaluateAt_eq answer]
    exact proposes step
  · have asks : asked.trust = proposal.trust := by
      rw [evaluateAt_eq answer]
      rfl
    have adapts := asked.trust.adapt_scaling (asked.outcomeAt L proposal values)
    rw [asks, (proposes step).1, (proposes step).2, ← asks] at adapts
    rw [judged]
    rcases asked.judge_cases (ε := ε) L proposal values with ⟨_, status, settled⟩ |
      ⟨_, _, settled⟩ | ⟨_, _, again⟩
    · rw [settled]
      exact adapts
    · rw [settled]
      exact adapts
    · rw [again]
      exact adapts

theorem Ready.trial (answers : M.Answers P) (ready : fit.Ready P) (L : Linearization ℝ n m) :
    (fit.trial M L).fit.Ready P := by
  obtain ⟨scale, initialized⟩ := trial_scaling M L fit
  have scaled := ready.scaled.congr scale initialized
  rcases fit.trial_outcome M L with ⟨stays, _⟩ |
    ⟨proposal, asked, values, call, status, takes, settled, stepped, _, _⟩
  · exact ready.stays stays scaled
  · constructor
    · rw [trial_limits]
      exact ready.upright
    · exact scaled
    · intro _
      rw [settled, Trial.fit, stepped]
      exact ⟨evaluateAt_answers answers takes.answers, rfl, rfl⟩

theorem Reachable.ready [Products ℝ] (answers : M.Answers P)
    (reachable : Reachable M fit) : fit.Ready P := by
  induction reachable with
  | start started => exact start_ready started
  | setCriteria criteria _ ih =>
      constructor
      · exact ih.upright
      · exact ih.scaled
      · intro prepared
        have cached := ih.cached prepared
        exact ⟨cached.answered, cached.active, cached.chiSquare⟩
  | setLimits _ set ih =>
      have upright := setLimits_upright set
      obtain ⟨limits, rfl⟩ := setLimits_eq set
      constructor
      · exact upright
      · exact ih.scaled
      · intro prepared
        have cached := ih.cached prepared
        exact ⟨cached.answered, cached.active, cached.chiSquare⟩
  | setInequalities _ set ih => exact ih.setInequalities set
  | prepare _ ih => exact ih.prepare answers
  | iterate _ ends ih =>
      apply iterate_keeps (Ready P) _ _ _ ih ends
      · intro fit ready
        exact ready.stays (nextIteration_stays fit) ready.scaled
      · intro fit ready
        exact ready.linearize
      · intro L fit ready
        exact ready.trial answers L
  | correlation budget _ ih =>
      exact correlation_keeps (Ready P) budget ih fun answer => ih.evaluateJacobian answer

end Calls

end Fit

end LeastSquares

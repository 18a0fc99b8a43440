import LeastSquares.Proofs.Fit.Prediction
import LeastSquares.Proofs.Fit.Throughout

/-!
# The signs of the trust region

In exact arithmetic the damping and the radius are never negative, and from the first factorization
on every entry of the scaling is positive and none of them falls. The calls that a caller makes can
only reach the trust region through two doors: the scaling to new column norms, and a trial step.
Whatever these two keep, a session keeps, whether its calls succeed or fail and whichever parameters
are frozen.

A radius that a step of length zero has taken to zero stays zero. A search of that radius divides by
it, and a quotient by zero counts as zero here.
-/

set_option autoImplicit false

namespace LeastSquares

variable {σ ε : Type} {n m : Nat}

/-! ## The damping of a step -/

theorem Damping.Problem.solve_alpha_nonneg {k : Nat} {Q : Damping.Problem ℝ k n}
    (radius : 0 ≤ Q.delta) {fullRank : Bool} {previous : ℝ} {found : Damping.Found ℝ n}
    (solved : Q.solve fullRank previous = .ok found) : 0 ≤ found.step.alpha := by
  obtain ⟨x, step⟩ := Q.gaussNewton_ok fullRank
  by_cases fits : TrustRegion.scaledNorm Q.scale x - Q.delta ≤ Damping.tolerance * Q.delta
  · rw [Q.solve_of_fits previous step fits] at solved
    cases solved
    exact le_rfl
  · rw [Q.solve_of_long previous step fits] at solved
    cases solved
    obtain ⟨k, ended⟩ := Q.searchFrom_ended Damping.furtherSteps 1 (Q.begun fullRank previous x)
    have nonneg := (Damping.Problem.begun_nonneg radius fullRank previous fits).iterate Q k
    rw [ended.step]
    exact (Damping.Bounds.positive_pos nonneg.alpha).le

namespace TrustRegion

/-! ## Signs -/

structure Signed (T : TrustRegion ℝ n) : Prop where
  alpha_nonneg : 0 ≤ T.alpha
  delta_nonneg : 0 ≤ T.delta
  scaled : T.Scaled

variable {T U V : TrustRegion ℝ n}

theorem initial_signed : (initial : TrustRegion ℝ n).Signed where
  alpha_nonneg := le_rfl
  delta_nonneg := le_rfl
  scaled known := by cases known

theorem rescale_alpha (T : TrustRegion ℝ n) (norms a : Vector ℝ n) :
    (T.rescale norms a).alpha = T.alpha := by
  rw [rescale]
  split <;> rfl

theorem rescale_initialized (T : TrustRegion ℝ n) (norms a : Vector ℝ n) :
    (T.rescale norms a).initialized = true := by
  rw [rescale]
  split
  · assumption
  · rfl

theorem Signed.rescale (signed : T.Signed) {norms : Vector ℝ n} (nonneg : ∀ p, 0 ≤ norms p)
    (a : Vector ℝ n) : (T.rescale norms a).Signed where
  alpha_nonneg := (T.rescale_alpha norms a).symm ▸ signed.alpha_nonneg
  delta_nonneg := rescale_delta_nonneg signed.delta_nonneg norms a
  scaled _ := signed.scaled.rescale nonneg a

theorem adapt_alpha_nonneg (damped : 0 ≤ T.alpha) (trial : TrialOutcome ℝ) :
    0 ≤ (T.adapt trial).alpha := by
  simp only [adapt]
  split
  · have factor := tenth_le_shrinkage trial
    exact div_nonneg damped (by linarith)
  · split
    · exact mul_nonneg damped (by norm_num)
    · exact damped

theorem Signed.adapt (signed : T.Signed) {trial : TrialOutcome ℝ} (length : 0 ≤ trial.stepNorm) :
    (T.adapt trial).Signed where
  alpha_nonneg := adapt_alpha_nonneg signed.alpha_nonneg trial
  delta_nonneg := adapt_delta_nonneg signed.delta_nonneg length
  scaled := signed.scaled.congr (T.adapt_scaling trial).1 (T.adapt_scaling trial).2

/-! ## Growth -/

/-- Once `T` has been set up, `U` has too, and no entry of its scaling is smaller. -/
def Grows (T U : TrustRegion ℝ n) : Prop :=
  T.initialized = true → U.initialized = true ∧ ∀ p, T.scale p ≤ U.scale p

theorem Grows.of_scaling (scale : U.scale = T.scale) (initialized : U.initialized = T.initialized) :
    T.Grows U := by
  intro known
  rw [scale, initialized]
  exact ⟨known, fun _ => le_rfl⟩

theorem Grows.trans (first : T.Grows U) (second : U.Grows V) : T.Grows V := by
  intro known
  obtain ⟨begun, rises⟩ := first known
  obtain ⟨stays, more⟩ := second begun
  exact ⟨stays, fun p => (rises p).trans (more p)⟩

theorem grows_rescale (T : TrustRegion ℝ n) (norms a : Vector ℝ n) :
    T.Grows (T.rescale norms a) := by
  intro known
  refine ⟨T.rescale_initialized norms a, fun p => ?_⟩
  rw [rescale, if_pos known, Vector.get_ofFn, Scalar.max_real]
  exact le_max_left _ _

end TrustRegion

namespace Fit

variable {M : Model ℝ σ ε n m} {L : Linearization ℝ n m} {fit first : Fit ℝ σ n m}

/-! ## Trials -/

theorem propose_scaling {proposal : Proposal ℝ n} (step : fit.propose L = .ok proposal) :
    proposal.trust.scale = fit.trust.scale ∧
      proposal.trust.initialized = fit.trust.initialized := by
  obtain ⟨alpha, trust, -⟩ := propose_cases step
  rw [trust]
  exact ⟨rfl, rfl⟩

theorem propose_signed (signed : fit.trust.Signed) {proposal : Proposal ℝ n}
    (step : fit.propose L = .ok proposal) : proposal.trust.Signed := by
  obtain ⟨scale, initialized⟩ := propose_scaling step
  refine ⟨?_, ?_, signed.scaled.congr scale initialized⟩
  · rw [propose] at step
    split at step
    · cases step
    · rename_i solved
      cases step
      exact Damping.Problem.solve_alpha_nonneg signed.delta_nonneg solved
  · obtain ⟨alpha, trust, length⟩ := propose_trust step
    rw [trust]
    simp only [trustAt, Scalar.min_real]
    split
    · exact le_min signed.delta_nonneg length
    · exact signed.delta_nonneg

theorem trial_signed (signed : fit.trust.Signed) (M : Model ℝ σ ε n m) (L : Linearization ℝ n m) :
    (fit.trial M L).fit.trust.Signed := by
  rcases fit.trial_cases M L with ⟨error, _, failed⟩ |
    ⟨proposal, asked, error, step, answer, failed⟩ |
    ⟨proposal, asked, values, step, answer, judged⟩
  · rw [failed]
    exact signed
  · rw [failed, evaluateAt_eq answer]
    exact propose_signed signed step
  · have asks : asked.trust = proposal.trust := by
      rw [evaluateAt_eq answer]
      rfl
    have length : 0 ≤ (asked.outcomeAt L proposal values).stepNorm := by
      obtain ⟨_, _, nonneg⟩ := propose_trust step
      rw [outcomeAt_stepNorm]
      exact nonneg
    have adapts : (asked.adapted L proposal values).trust.Signed :=
      (asks ▸ propose_signed signed step : asked.trust.Signed).adapt length
    rw [judged]
    rcases asked.judge_cases (ε := ε) L proposal values with ⟨_, status, settled⟩ |
      ⟨_, _, settled⟩ | ⟨_, _, again⟩
    · rw [settled]
      exact adapts
    · rw [settled]
      exact adapts
    · rw [again]
      exact adapts

/-! ## Sessions -/

section Doors

variable [Products ℝ] {I : TrustRegion ℝ n → Prop}

theorem linearize_keeps_trust
    (rescale : ∀ T norms a, (∀ p, 0 ≤ norms p) → I T → I (T.rescale norms a))
    (holds : I fit.trust) : I (linearize M fit).fit.trust := by
  rcases linearize_cases M fit with ⟨asked, error, answer, settled⟩ |
    ⟨asked, J, answer, _, settled⟩ | ⟨asked, J, answer, _, _, settled⟩ |
    ⟨asked, J, answer, _, _, events, goes⟩
  · rw [settled, evaluateJacobian_eq answer]
    exact holds
  · rw [settled, evaluateJacobian_eq answer]
    exact holds
  · rw [settled, evaluateJacobian_eq answer]
    exact holds
  · have asks : I asked.trust := by
      rw [evaluateJacobian_eq answer]
      exact holds
    rw [goes]
    exact rescale _ _ _ (Factorization.ofMatrix_norms_nonneg _) asks

/-- Only the scaling to new column norms and trial steps change the trust region. -/
theorem performAll_keeps_trust
    (rescale : ∀ T norms a, (∀ p, 0 ≤ norms p) → I T → I (T.rescale norms a))
    (trial : ∀ L (fit : Fit ℝ σ n m), I fit.trust → I (fit.trial M L).fit.trust) {fuel : Nat}
    {requests : List (Request ℝ)} {last : Fit ℝ σ n m} (holds : I fit.trust)
    (led : fit.performAll M fuel requests = some last) : I last.trust := by
  have keeps : Keeps M fuel (fun _ => True) fun fit => I fit.trust :=
    Keeps.of_trust fun fit call known _ ends => iterate_keeps (fun fit => I fit.trust)
      (fun _ known => known) (fun _ known => linearize_keeps_trust rescale known) trial known ends
  exact keeps.performAll holds (throughout_of_always (fun _ => trivial) _ _) led

end Doors

/-- What holds of the trust region while an iteration that begins with `first` tries steps, and when
it is over. -/
structure Steady [Products ℝ] (M : Model ℝ σ ε n m) (L : Linearization ℝ n m)
    (fit first : Fit ℝ σ n m) :
    Prop where
  grows : fit.trust.Grows first.trust
  initialized : first.trust.initialized = true
  scale_pos : ∀ p, 0 < first.trust.scale p
  tried : ∀ k later, retried M L k first = some later →
    later.trust.Signed ∧ later.trust.scale = first.trust.scale
  proposed : ∀ k later proposal, retried M L k first = some later → later.propose L = .ok proposal →
    proposal.trust.Signed ∧ proposal.trust.scale = first.trust.scale
  ended : ∀ fuel call, fit.prepared = true → fit.iterate M fuel = some call →
    first.trust.Grows call.fit.trust

theorem Tries.steady [Products ℝ] (tries : fit.Tries M first L) (signed : fit.trust.Signed) :
    Steady M L fit first := by
  have trust := tries.trust
  have begins : first.trust.Signed := by
    obtain ⟨events, ready⟩ := tries
    have kept : (linearize M { fit with iteration := fit.iteration + 1 }).fit.trust.Signed :=
      linearize_keeps_trust (I := TrustRegion.Signed)
        (fun T norms a nonneg known => known.rescale nonneg a) signed
    rw [ready] at kept
    exact kept
  have initialized : first.trust.initialized = true := by
    rw [trust]
    exact fit.trust.rescale_initialized _ _
  have tried (k : Nat) (later : Fit ℝ σ n m) (reached : retried M L k first = some later) :
      later.trust.Signed := by
    refine retried_keeps (fun later => later.trust.Signed) (fun before next known again => ?_)
      begins reached
    obtain ⟨events, rejected⟩ := retry_eq_some again
    have kept := trial_signed known M L
    rw [rejected] at kept
    exact kept
  refine ⟨?_, initialized, begins.scaled initialized, fun k later reached => ?_,
    fun k later proposal reached step => ?_, fun fuel call prepared ends => ?_⟩
  · rw [trust]
    exact fit.trust.grows_rescale _ _
  · exact ⟨tried k later reached, (retried_scaling reached).1⟩
  · exact ⟨propose_signed (tried k later reached) step,
      (propose_scaling step).1.trans (retried_scaling reached).1⟩
  · obtain ⟨k, later, last, events, reached, settled, rfl⟩ := tries.last prepared ends
    have scaling := trial_scaling M L later
    rw [settled] at scaling
    exact .of_scaling (scaling.1.trans (retried_scaling reached).1)
      (scaling.2.trans (retried_scaling reached).2)

/-- In every session the damping and the radius are not negative, and from the first factorization
on the scaling is positive and no entry of it falls: not within an iteration, not from one call to a
later one. -/
theorem session_signed [Products ℝ] {model : σ} {parameters : Vector ℝ n} {target : Vector ℝ m}
    {sigma : Array ℝ}
    {begun last : Fit ℝ σ n m} {fuel more : Nat} {before after : List (Request ℝ)}
    (started : Fit.start model parameters target sigma = .ok begun)
    (here : begun.performAll M fuel before = some fit)
    (later : fit.performAll M more after = some last) :
    fit.trust.Signed ∧ fit.trust.Grows last.trust ∧
      ∀ first L, fit.Tries M first L → Steady M L fit first := by
  have signed : fit.trust.Signed := by
    refine performAll_keeps_trust (fun T norms a nonneg known => known.rescale nonneg a)
      (fun L fit known => trial_signed known M L) ?_ here
    rw [start_trust started]
    exact TrustRegion.initial_signed
  refine ⟨signed, ?_, fun first L tries => tries.steady signed⟩
  refine performAll_keeps_trust (I := fit.trust.Grows)
    (fun T norms a _ known => known.trans (T.grows_rescale norms a)) (fun L fit known => ?_)
    (.of_scaling rfl rfl) later
  obtain ⟨scale, initialized⟩ := trial_scaling M L fit
  exact known.trans (.of_scaling scale initialized)

/-- The gauge is prepared, prepared again in vain, and asked for a step. -/
theorem gauged_signed : gauged.trust.Signed ∧
    ∃ first L, gauged.Tries (gauge id) first L ∧ 0 ≤ first.trust.alpha ∧ 0 ≤ first.trust.delta ∧
      0 < first.trust.scale 0 := by
  have here : Gauge.unprepared.performAll (gauge id) 0 [.prepare] = some gauged :=
    congrArg some (Gauge.prepares rfl)
  have later : gauged.performAll (gauge id) 0 [.prepare] = some gauged :=
    congrArg (fun call => some (Call.fit call)) (prepare_refused rfl)
  obtain ⟨signed, -, steady⟩ := session_signed Gauge.starts here later
  obtain ⟨first, L, tries⟩ := Gauge.tries id
  have begins := (steady first L tries).tried 0 first rfl
  exact ⟨signed, first, L, tries, begins.1.alpha_nonneg, begins.1.delta_nonneg,
    (steady first L tries).scale_pos 0⟩

end Fit

end LeastSquares

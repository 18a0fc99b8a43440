import LeastSquares.Fit.Correlation
import LeastSquares.Proofs.Fit.Steps
import LeastSquares.Proofs.TrustRegion

/-!
# Reachable fits

A fit is reachable if the public calls lead to it, in any order, whether they succeed or fail. What
every call keeps holds of every reachable fit; in exact arithmetic, that chi-square and the radius
are not negative.
-/

set_option autoImplicit false

namespace LeastSquares

variable {α σ ε : Type} {n m : Nat}

theorem Targets.chiSquare_nonneg (T : Targets ℝ m) (active : Vector Bool m)
    (values : Vector ℝ m) : 0 ≤ T.chiSquare active values := by
  rw [Targets.chiSquare, Scalar.addOver_real, zero_add]
  refine Finset.sum_nonneg fun i _ => ?_
  split
  · exact mul_self_nonneg _
  · exact le_rfl

namespace Fit

/-! ## Calls -/

section Calls

variable [Scalar α]

/-- The fits that calls lead to. -/
inductive Reachable [Products α] (M : Model α σ ε n m) : Fit α σ n m → Prop
  | start {model : σ} {parameters : Vector α n} {target : Vector α m} {sigma : Array α}
      {fit : Fit α σ n m} : Fit.start model parameters target sigma = .ok fit → Reachable M fit
  | setCriteria {fit : Fit α σ n m} (criteria : StopCriteria α) :
      Reachable M fit → Reachable M (fit.setCriteria criteria)
  | setLimits {fit next : Fit α σ n m} {lower upper : Option (Array α)} :
      Reachable M fit → fit.setLimits lower upper = .ok next → Reachable M next
  | setInequalities {fit next : Fit α σ n m} {tags : Option (Array Inequality)} :
      Reachable M fit → fit.setInequalities tags = .ok next → Reachable M next
  | prepare {fit : Fit α σ n m} : Reachable M fit → Reachable M (fit.prepare M).fit
  | iterate {fit : Fit α σ n m} {fuel : Nat} {call : Call α σ ε n m Status} :
      Reachable M fit → fit.iterate M fuel = some call → Reachable M call.fit
  | correlation {fit : Fit α σ n m} (budget : Nat) :
      Reachable M fit → Reachable M (fit.correlation M budget).fit

theorem start_eq {model : σ} {parameters : Vector α n} {target : Vector α m} {sigma : Array α}
    {fit : Fit α σ n m} (started : Fit.start model parameters target sigma = .ok fit) :
    ∃ length : sigma.size = m, fit =
      { model, parameters
        limits := .unbounded
        targets :=
          { target, sigma := ⟨sigma, length⟩, tags := Vector.replicate m .equal }
        criteria := .off
        values := Vector.replicate m 0
        spare := Vector.replicate m 0
        active := Vector.replicate m true
        chiSquare := 0
        gradientNorm := 0
        freeCount := n
        rank := 0
        trust := .initial
        prepared := false
        iteration := 0
        valueCalls := 0
        jacobianCalls := 0 } := by
  rw [Fit.start] at started
  split at started
  · cases started
  · split at started
    · rename_i length
      split at started
      · cases started
      · cases started
        exact ⟨length, rfl⟩
    · cases started

theorem setLimits_eq {fit next : Fit α σ n m} {lower upper : Option (Array α)}
    (set : fit.setLimits lower upper = .ok next) : ∃ limits, next = { fit with limits } := by
  simp only [setLimits, bind, Except.bind] at set
  split at set
  · cases set
  · split at set
    · cases set
    · split at set
      · cases set
      · cases set
        exact ⟨_, rfl⟩

theorem setInequalities_eq {fit next : Fit α σ n m} {tags : Option (Array Inequality)}
    (set : fit.setInequalities tags = .ok next) : ∃ targets, next =
      if fit.prepared then ({ fit with targets } : Fit α σ n m).refresh
      else { fit with targets } := by
  simp only [setInequalities, bind, Except.bind] at set
  split at set
  · cases set
  · cases set
    exact ⟨_, rfl⟩

/-- Preparing is refused, fails with the model, or brings a fit up to date with new values. -/
theorem prepare_cases (M : Model α σ ε n m) (fit : Fit α σ n m) :
    (fit.prepare M).fit = fit ∨
    (∃ model parameters values,
      (fit.prepare M).fit = { fit with model, parameters, values }) ∨
    (∃ model parameters values, (fit.prepare M).fit =
      ({ fit with
        model, parameters, values
        valueCalls := fit.valueCalls + 1
        prepared := true } : Fit α σ n m).refresh) := by
  simp only [prepare]
  split
  · exact .inl rfl
  · split
    · exact .inr (.inl ⟨_, _, _, rfl⟩)
    · exact .inr (.inr ⟨_, _, _, rfl⟩)

/-- A call for the correlation is refused, fails with the model, or has its derivatives; then it
returns correlations if there is memory for its buffers, and fails if not. -/
theorem correlation_cases [Products α] (M : Model α σ ε n m) (budget : Nat) (fit : Fit α σ n m) :
    (fit.prepared = false ∧ fit.correlation M budget = .fail fit [] .notPrepared) ∨
    (fit.prepared = true ∧
      ((∃ asked error, fit.evaluateJacobian M = (asked, .error error) ∧
        fit.correlation M budget = .fail asked [] (.model error)) ∨
      ∃ asked J, fit.evaluateJacobian M = (asked, .ok J) ∧
        ((Suffices budget asked.correlationBuffers ∧ fit.correlation M budget =
          { fit := asked, events := [], result := .ok (correlations (asked.gram J)) }) ∨
        (¬ Suffices budget asked.correlationBuffers ∧
          fit.correlation M budget = .fail asked [] (.linalg .outOfMemory))))) := by
  cases prepared : fit.prepared with
  | false => exact .inl ⟨rfl, if_neg (ne_true_of_eq_false prepared)⟩
  | true =>
      refine .inr ⟨rfl, ?_⟩
      simp only [correlation, if_pos prepared]
      cases answer : fit.evaluateJacobian M with
      | mk asked result =>
          cases result with
          | error error => exact .inl ⟨asked, error, rfl, rfl⟩
          | ok J =>
              refine .inr ⟨asked, J, rfl, ?_⟩
              by_cases room : Suffices budget asked.correlationBuffers
              · have served : checkBudget budget asked.correlationBuffers = .ok () := if_pos room
                simp only [served]
                exact .inl ⟨room, trivial⟩
              · have starved : checkBudget budget asked.correlationBuffers = .error .outOfMemory :=
                  if_neg room
                simp only [starved]
                exact .inr ⟨room, trivial⟩

theorem correlation_fit [Products α] (M : Model α σ ε n m) (budget : Nat) (fit : Fit α σ n m) :
    (fit.correlation M budget).fit = fit ∨
      (fit.correlation M budget).fit = (fit.evaluateJacobian M).1 := by
  rcases fit.correlation_cases M budget with ⟨_, refused⟩ | ⟨_, ⟨_, _, answer, failed⟩ |
    ⟨_, _, answer, ⟨_, served⟩ | ⟨_, starved⟩⟩⟩
  · rw [refused]
    exact .inl rfl
  · rw [failed, answer]
    exact .inr rfl
  · rw [served, answer]
    exact .inr rfl
  · rw [starved, answer]
    exact .inr rfl

theorem correlation_keeps [Products α] {M : Model α σ ε n m} (I : Fit α σ n m → Prop) (budget : Nat)
    {fit : Fit α σ n m} (holds : I fit)
    (asks : ∀ {asked result}, fit.evaluateJacobian M = (asked, result) → I asked) :
    I (fit.correlation M budget).fit := by
  rcases correlation_fit M budget fit with same | asked
  · rw [same]
    exact holds
  · rw [asked]
    exact asks rfl

theorem correlation_events [Products α] (M : Model α σ ε n m) (budget : Nat) (fit : Fit α σ n m) :
    (fit.correlation M budget).events = [] := by
  rcases fit.correlation_cases M budget with ⟨_, refused⟩ | ⟨_, ⟨_, _, _, failed⟩ |
    ⟨_, _, _, ⟨_, served⟩ | ⟨_, starved⟩⟩⟩
  · rw [refused]
    rfl
  · rw [failed]
    rfl
  · rw [served]
  · rw [starved]
    rfl

theorem correlation_of_answer [Products α] {M : Model α σ ε n m} {fit asked : Fit α σ n m}
    {J : DenseMatrix α m n} (prepared : fit.prepared = true)
    (answer : fit.evaluateJacobian M = (asked, .ok J)) (budget : Nat) :
    (Suffices budget asked.correlationBuffers ∧ fit.correlation M budget =
        { fit := asked, events := [], result := .ok (correlations (asked.gram J)) }) ∨
      (¬ Suffices budget asked.correlationBuffers ∧
        fit.correlation M budget = .fail asked [] (.linalg .outOfMemory)) := by
  rcases fit.correlation_cases M budget with ⟨unprepared, _⟩ | ⟨_, ⟨_, _, failed, _⟩ |
    ⟨_, _, answers, ends⟩⟩
  · exact absurd prepared (ne_true_of_eq_false unprepared)
  · cases answer.symm.trans failed
  · cases answer.symm.trans answers
    exact ends

theorem trials_keeps {M : Model α σ ε n m} {L : Linearization α n m} (I : Fit α σ n m → Prop)
    (step : ∀ fit, I fit → I (fit.trial M L).fit) {fuel : Nat} {fit : Fit α σ n m}
    {call : Call α σ ε n m Status} (holds : I fit) (ends : trials M L fuel fit = some call) :
    I call.fit := by
  induction fuel generalizing fit call with
  | zero => cases ends
  | succ fuel ih =>
      have once := step fit holds
      rcases trials_ended ends with settled | ⟨next, events, rest, rejected, found, rfl⟩
      · rw [settled] at once
        exact once
      · rw [rejected] at once
        have kept : I rest.fit := ih once found
        exact kept

theorem iterate_keeps [Products α] {M : Model α σ ε n m} (I : Fit α σ n m → Prop)
    (count : ∀ fit, I fit → I { fit with iteration := fit.iteration + 1 })
    (linear : ∀ fit, I fit → I (linearize M fit).fit)
    (step : ∀ L fit, I fit → I (fit.trial M L).fit) {fuel : Nat} {fit : Fit α σ n m}
    {call : Call α σ ε n m Status} (holds : I fit) (ends : fit.iterate M fuel = some call) :
    I call.fit := by
  have begun := linear _ (count fit holds)
  rcases iterate_ended ends with ⟨_, rfl⟩ | ⟨_, settled⟩ |
    ⟨_, first, events, L, rest, ready, found, rfl⟩
  · exact holds
  · rw [settled] at begun
    exact begun
  · rw [ready] at begun
    have kept : I rest.fit := trials_keeps I (step L) begun found
    exact kept

end Calls

/-! ## Signs -/

structure Sound (fit : Fit ℝ σ n m) : Prop where
  chiSquare_nonneg : 0 ≤ fit.chiSquare
  delta_nonneg : 0 ≤ fit.trust.delta

theorem start_sound {model : σ} {parameters : Vector ℝ n} {target : Vector ℝ m} {sigma : Array ℝ}
    {fit : Fit ℝ σ n m} (started : Fit.start model parameters target sigma = .ok fit) :
    fit.Sound := by
  obtain ⟨length, rfl⟩ := start_eq started
  exact ⟨le_rfl, le_rfl⟩

theorem Sound.evaluateJacobian {fit asked : Fit ℝ σ n m} {M : Model ℝ σ ε n m}
    {result : Except ε (DenseMatrix ℝ m n)} (sound : fit.Sound)
    (answer : fit.evaluateJacobian M = (asked, result)) : asked.Sound := by
  rw [evaluateJacobian_eq answer]
  exact ⟨sound.chiSquare_nonneg, sound.delta_nonneg⟩

theorem Sound.evaluateAt {fit asked : Fit ℝ σ n m} {M : Model ℝ σ ε n m} {a : Vector ℝ n}
    {result : Except ε (Vector ℝ m)} (sound : fit.Sound)
    (answer : fit.evaluateAt M a = (asked, result)) : asked.Sound := by
  rw [evaluateAt_eq answer]
  exact ⟨sound.chiSquare_nonneg, sound.delta_nonneg⟩

theorem Sound.linearized {fit : Fit ℝ σ n m} (sound : fit.Sound) (L : Linearization ℝ n m) :
    (fit.linearized L).Sound :=
  ⟨sound.chiSquare_nonneg, TrustRegion.rescale_delta_nonneg sound.delta_nonneg _ _⟩

theorem Sound.linearize [Products ℝ] {fit : Fit ℝ σ n m} (sound : fit.Sound) (M : Model ℝ σ ε n m) :
    (linearize M fit).fit.Sound := by
  rcases linearize_cases M fit with ⟨asked, error, answer, settled⟩ |
    ⟨asked, J, answer, _, settled⟩ | ⟨asked, J, answer, _, _, settled⟩ |
    ⟨asked, J, answer, _, _, events, ready⟩
  · rw [settled]
    exact sound.evaluateJacobian answer
  · have asks := sound.evaluateJacobian answer
    rw [settled]
    exact ⟨asks.chiSquare_nonneg, asks.delta_nonneg⟩
  · have asks := sound.evaluateJacobian answer
    rw [settled]
    exact ⟨asks.chiSquare_nonneg, asks.delta_nonneg⟩
  · have asks := sound.evaluateJacobian answer
    have measures : ((asked.counted J).measured J).Sound :=
      ⟨asks.chiSquare_nonneg, asks.delta_nonneg⟩
    rw [ready]
    exact measures.linearized _

theorem propose_trust {fit : Fit ℝ σ n m} {L : Linearization ℝ n m} {proposal : Proposal ℝ n}
    (proposed : fit.propose L = .ok proposal) : ∃ alpha, proposal.trust =
      fit.trustAt L.fresh alpha proposal.stepNorm ∧ 0 ≤ proposal.stepNorm := by
  rw [propose] at proposed
  split at proposed
  · cases proposed
  · cases proposed
    exact ⟨_, rfl, TrustRegion.scaledNorm_nonneg _ _⟩

theorem trustAt_delta {fit : Fit ℝ σ n m} (sound : fit.Sound) {length : ℝ} (nonneg : 0 ≤ length)
    (fresh : Bool) (alpha : ℝ) : 0 ≤ (fit.trustAt fresh alpha length).delta ∧
      (fit.trustAt fresh alpha length).delta ≤ fit.trust.delta := by
  simp only [trustAt, Scalar.min_real]
  split
  · exact ⟨le_min sound.delta_nonneg nonneg, min_le_left _ _⟩
  · exact ⟨sound.delta_nonneg, le_rfl⟩

theorem Sound.proposed {fit : Fit ℝ σ n m} (sound : fit.Sound) {L : Linearization ℝ n m}
    {proposal : Proposal ℝ n} (step : fit.propose L = .ok proposal) :
    (fit.proposed proposal).Sound := by
  obtain ⟨alpha, trust, nonneg⟩ := propose_trust step
  refine ⟨sound.chiSquare_nonneg, ?_⟩
  change 0 ≤ proposal.trust.delta
  rw [trust]
  exact (trustAt_delta sound nonneg _ _).1

theorem Sound.adapted {fit : Fit ℝ σ n m} (sound : fit.Sound) (L : Linearization ℝ n m)
    {proposal : Proposal ℝ n} (nonneg : 0 ≤ proposal.stepNorm) (values : Vector ℝ m) :
    (fit.adapted L proposal values).Sound := by
  refine ⟨sound.chiSquare_nonneg, TrustRegion.adapt_delta_nonneg sound.delta_nonneg ?_⟩
  rw [outcomeAt_stepNorm]
  exact nonneg

theorem Sound.trial {fit : Fit ℝ σ n m} (sound : fit.Sound) (M : Model ℝ σ ε n m)
    (L : Linearization ℝ n m) : (fit.trial M L).fit.Sound := by
  rcases fit.trial_cases M L with ⟨error, _, settled⟩ |
    ⟨proposal, asked, error, step, answer, settled⟩ |
    ⟨proposal, asked, values, step, answer, judged⟩
  · rw [settled]
    exact sound
  · rw [settled]
    exact (sound.proposed step).evaluateAt answer
  · have asks := (sound.proposed step).evaluateAt answer
    obtain ⟨_, _, nonneg⟩ := propose_trust step
    have adapts := asks.adapted L nonneg values
    rw [judged]
    rcases asked.judge_cases (ε := ε) L proposal values with ⟨_, status, settled⟩ |
      ⟨_, _, settled⟩ | ⟨_, _, again⟩
    · rw [settled]
      exact ⟨Targets.chiSquare_nonneg _ _ _, adapts.delta_nonneg⟩
    · rw [settled]
      exact adapts
    · rw [again]
      exact adapts

theorem Sound.prepare {fit : Fit ℝ σ n m} (sound : fit.Sound) (M : Model ℝ σ ε n m) :
    (fit.prepare M).fit.Sound := by
  rcases fit.prepare_cases M with same | ⟨model, parameters, values, failed⟩ |
    ⟨model, parameters, values, prepared⟩
  · rw [same]
    exact sound
  · rw [failed]
    exact ⟨sound.chiSquare_nonneg, sound.delta_nonneg⟩
  · rw [prepared]
    exact ⟨Targets.chiSquare_nonneg _ _ _, sound.delta_nonneg⟩

theorem Reachable.sound [Products ℝ] {M : Model ℝ σ ε n m} {fit : Fit ℝ σ n m}
    (reachable : Reachable M fit) :
    fit.Sound := by
  induction reachable with
  | start started => exact start_sound started
  | setCriteria criteria _ ih => exact ⟨ih.chiSquare_nonneg, ih.delta_nonneg⟩
  | setLimits _ set ih =>
      obtain ⟨limits, rfl⟩ := setLimits_eq set
      exact ⟨ih.chiSquare_nonneg, ih.delta_nonneg⟩
  | setInequalities _ set ih =>
      obtain ⟨targets, rfl⟩ := setInequalities_eq set
      split
      · exact ⟨Targets.chiSquare_nonneg _ _ _, ih.delta_nonneg⟩
      · exact ⟨ih.chiSquare_nonneg, ih.delta_nonneg⟩
  | prepare _ ih => exact ih.prepare M
  | iterate _ ends ih =>
      refine iterate_keeps Sound (fun fit sound => ?_) (fun fit sound => sound.linearize M)
        (fun L fit sound => sound.trial M L) ih ends
      exact ⟨sound.chiSquare_nonneg, sound.delta_nonneg⟩
  | correlation budget _ ih =>
      exact correlation_keeps Sound budget ih fun answer => ih.evaluateJacobian answer

end Fit

end LeastSquares

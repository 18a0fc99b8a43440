import Mathlib.Algebra.Order.Archimedean.Basic
import LeastSquares.Proofs.Fit.Reachable

/-!
# The loop of trial steps

Every rejected trial halves the radius, unless it ran away: chi-square rose, along a step that a
limit had turned uphill. A loop in which this happens only finitely often ends, since a radius below
the least positive number ends it.
-/

set_option autoImplicit false

namespace LeastSquares.Fit

variable {α σ ε : Type} {n m : Nat}

/-! ## Rejected trials -/

section Retries

variable [Scalar α] (M : Model α σ ε n m) (L : Linearization α n m)

/-- What a trial came to, if the model answered. -/
def trialOutcome? (fit : Fit α σ n m) : Option (TrialOutcome α) :=
  match fit.propose L with
  | .error _ => none
  | .ok proposal =>
    match (fit.proposed proposal).evaluateAt M proposal.move.next with
    | (_, .error _) => none
    | (asked, .ok values) => some (asked.outcomeAt L proposal values)

/-- The fit that a rejected trial leaves for the next one. -/
def retry (fit : Fit α σ n m) : Option (Fit α σ n m) :=
  match fit.trial M L with
  | .settled _ => none
  | .rejected next _ => some next

/-- The fit after `k` rejected trials, if there are as many. -/
def retried : (k : Nat) → Fit α σ n m → Option (Fit α σ n m)
  | 0, fit => some fit
  | k + 1, fit => (retried k fit).bind (retry M L)

variable {M L}

theorem retry_of_settled {fit : Fit α σ n m} {call : Call α σ ε n m Status}
    (settled : fit.trial M L = .settled call) : retry M L fit = none := by
  rw [retry, settled]

theorem retry_of_rejected {fit next : Fit α σ n m} {events : List (Event α)}
    (rejected : fit.trial M L = .rejected next events) : retry M L fit = some next := by
  rw [retry, rejected]

theorem retry_eq_some {fit next : Fit α σ n m} (again : retry M L fit = some next) :
    ∃ events, fit.trial M L = .rejected next events := by
  rw [retry] at again
  split at again
  · cases again
  · rename_i rejected
    cases again
    exact ⟨_, rejected⟩

theorem retried_add (k l : Nat) (fit : Fit α σ n m) :
    retried M L (k + l) fit = (retried M L k fit).bind (retried M L l) := by
  induction l with
  | zero => exact (Option.bind_fun_some _).symm
  | succ l ih =>
      rw [← Nat.add_assoc, retried, ih, Option.bind_assoc]
      rfl

theorem retried_succ (k : Nat) (fit : Fit α σ n m) :
    retried M L (k + 1) fit = (retry M L fit).bind (retried M L k) := by
  rw [Nat.add_comm, retried_add, retried, retried, Option.bind_some]

theorem trials_of_retried {k : Nat} {fit : Fit α σ n m} (finished : retried M L k fit = none) :
    ∃ call, trials M L k fit = some call := by
  induction k generalizing fit with
  | zero => cases finished
  | succ k ih =>
      rw [retried_succ] at finished
      rw [trials]
      cases ended : fit.trial M L with
      | settled call => exact ⟨call, rfl⟩
      | rejected next events =>
          rw [retry_of_rejected ended] at finished
          obtain ⟨call, rest⟩ := ih finished
          refine ⟨call.after events, ?_⟩
          simp only [rest, Option.map_some]

theorem retried_of_trials {fuel : Nat} {fit : Fit α σ n m} {call : Call α σ ε n m Status}
    (ended : trials M L fuel fit = some call) {k : Nat} (later : fuel ≤ k) :
    retried M L k fit = none := by
  induction fuel generalizing k fit call with
  | zero => cases ended
  | succ fuel ih =>
      obtain ⟨k, rfl⟩ := Nat.exists_eq_succ_of_ne_zero (Nat.ne_zero_of_lt later)
      rw [retried_succ]
      rw [trials] at ended
      cases last : fit.trial M L with
      | settled call => rw [retry_of_settled last, Option.bind_none]
      | rejected next events =>
          rw [last] at ended
          obtain ⟨rest, found, _⟩ := Option.map_eq_some_iff.mp ended
          rw [retry_of_rejected last, Option.bind_some]
          exact ih found (Nat.le_of_succ_le_succ later)

end Retries

/-! ## Halving -/

section Halving

variable {M : Model ℝ σ ε n m} {L : Linearization ℝ n m}

/-- Whether the trial that comes next runs away. -/
def RunsAway (M : Model ℝ σ ε n m) (L : Linearization ℝ n m) (fit : Fit ℝ σ n m) : Prop :=
  ∃ trial, fit.trialOutcome? M L = some trial ∧ trial.Runaway

theorem propose_ok (L : Linearization ℝ n m) (fit : Fit ℝ σ n m) :
    ∃ proposal, fit.propose L = .ok proposal := by
  obtain ⟨found, solved⟩ := (fit.problem L).solve_ok L.fullRank fit.trust.alpha
  simp only [propose, solved]
  exact ⟨_, rfl⟩

theorem outcomeAt_actual {fit : Fit ℝ σ n m} (sound : fit.Sound) (L : Linearization ℝ n m)
    (proposal : Proposal ℝ n) {values : Vector ℝ m}
    (worse : ¬ fit.chiSquareAt values < fit.chiSquare) :
    (fit.outcomeAt L proposal values).actual ≤ 0 := by
  simp only [outcomeAt, outcome, beq_iff_eq]
  split
  · dsimp only
    split
    · exact le_rfl
    · norm_num
  · rename_i nonzero
    have positive : 0 < fit.chiSquare :=
      lt_of_le_of_ne sound.chiSquare_nonneg (Ne.symm nonzero)
    dsimp only
    split
    · norm_num
    · rw [sub_nonpos, one_le_div positive]
      exact not_lt.mp worse

theorem rejected_delta {fit next : Fit ℝ σ n m} {events : List (Event ℝ)} (sound : fit.Sound)
    (rejected : fit.trial M L = .rejected next events) :
    ∃ trial, fit.trialOutcome? M L = some trial ∧
      next.trust.delta = TrustRegion.shrinkage trial *
        min (fit.trustAt L.fresh fit.trust.alpha trial.stepNorm).delta (trial.stepNorm / 0.1) ∧
      (¬ trial.Runaway → next.trust.delta ≤ fit.trust.delta / 2) := by
  obtain ⟨proposal, asked, values, step, answer, worse, rfl, _⟩ := fit.trial_rejected M L rejected
  obtain ⟨alpha, trust, nonneg⟩ := propose_trust step
  have asks := (sound.proposed step).evaluateAt answer
  have actual := outcomeAt_actual asks L proposal worse
  have length := asked.outcomeAt_stepNorm L proposal values
  have radius : asked.trust.delta =
      (fit.trustAt L.fresh fit.trust.alpha proposal.stepNorm).delta := by
    have same : asked.trust = proposal.trust := by
      rw [evaluateAt_eq answer]
      rfl
    rw [same, trust]
    rfl
  refine ⟨asked.outcomeAt L proposal values, ?_, ?_, fun tame => ?_⟩
  · simp only [trialOutcome?, step, answer]
  · rw [length, ← radius, ← length]
    exact congrArg TrustRegion.delta
      (asked.trust.adapt_of_poor (TrustRegion.agreement_of_actual actual))
  · have below : asked.trust.delta ≤ fit.trust.delta := by
      rw [radius]
      exact (trustAt_delta sound nonneg _ _).2
    have halves := TrustRegion.adapt_halves asks.delta_nonneg (length ▸ nonneg) actual tame
    exact halves.trans (by linarith)

theorem rejected_halves {fit next : Fit ℝ σ n m} {events : List (Event ℝ)} (sound : fit.Sound)
    (rejected : fit.trial M L = .rejected next events) (tame : ¬ fit.RunsAway M L) :
    next.trust.delta ≤ fit.trust.delta / 2 := by
  obtain ⟨trial, came, _, halves⟩ := rejected_delta sound rejected
  exact halves fun runaway => tame ⟨trial, came, runaway⟩

theorem retry_delta {fit next : Fit ℝ σ n m} (again : retry M L fit = some next) :
    Scalar.minPositive ≤ next.trust.delta := by
  obtain ⟨events, rejected⟩ := retry_eq_some again
  obtain ⟨_, _, _, _, _, _, _, stays⟩ := fit.trial_rejected M L rejected
  simp only [collapsed, Bool.or_eq_false_iff, decide_eq_false_iff_not, not_lt] at stays
  exact stays.2

theorem retried_sound {fit later : Fit ℝ σ n m} (sound : fit.Sound) {k : Nat}
    (reached : retried M L k fit = some later) : later.Sound := by
  induction k generalizing later with
  | zero =>
      cases reached
      exact sound
  | succ k ih =>
      obtain ⟨before, known, again⟩ := Option.bind_eq_some_iff.mp reached
      obtain ⟨events, rejected⟩ := retry_eq_some again
      have kept := (ih known).trial M L
      rw [rejected] at kept
      exact kept

theorem retried_delta {fit later : Fit ℝ σ n m} (sound : fit.Sound) {k : Nat}
    (tame : ∀ i < k, ∀ before, retried M L i fit = some before → ¬ before.RunsAway M L)
    (reached : retried M L k fit = some later) :
    later.trust.delta ≤ fit.trust.delta * (1 / 2) ^ k := by
  induction k generalizing later with
  | zero =>
      cases reached
      rw [pow_zero, mul_one]
  | succ k ih =>
      obtain ⟨before, known, again⟩ := Option.bind_eq_some_iff.mp reached
      obtain ⟨events, rejected⟩ := retry_eq_some again
      have earlier := ih (fun i less => tame i (Nat.lt_succ_of_lt less)) known
      have halves := rejected_halves (retried_sound sound known) rejected
        (tame k (Nat.lt_succ_self k) before known)
      calc later.trust.delta ≤ before.trust.delta / 2 := halves
        _ ≤ fit.trust.delta * (1 / 2) ^ k / 2 := by linarith
        _ = fit.trust.delta * (1 / 2) ^ (k + 1) := by ring

theorem retried_ends_of_tame {fit : Fit ℝ σ n m} (sound : fit.Sound)
    (tame : ∀ k later, retried M L k fit = some later → ¬ later.RunsAway M L) :
    ∃ k, retried M L k fit = none := by
  -- An endless loop would halve the radius for ever, and every retry keeps it above one number.
  by_contra endless
  push Not at endless
  have always (k : Nat) : Scalar.minPositive ≤ fit.trust.delta * (1 / 2) ^ (k + 1) := by
    obtain ⟨later, reached⟩ := Option.ne_none_iff_exists'.mp (endless (k + 1))
    obtain ⟨before, _, again⟩ := Option.bind_eq_some_iff.mp reached
    exact (retry_delta again).trans (retried_delta sound (fun i _ => tame i) reached)
  have positive : 0 < fit.trust.delta := by
    have first := Scalar.minPositive_pos.trans_le (always 0)
    by_contra negative
    have vanishes : fit.trust.delta * (1 / 2) ^ (0 + 1) ≤ 0 :=
      mul_nonpos_of_nonpos_of_nonneg (not_lt.mp negative) (by positivity)
    linarith
  obtain ⟨k, small⟩ := exists_pow_lt_of_lt_one (div_pos Scalar.minPositive_pos positive)
    (show (1 / 2 : ℝ) < 1 by norm_num)
  have below : fit.trust.delta * (1 / 2) ^ (k + 1) < Scalar.minPositive := by
    rw [lt_div_iff₀ positive] at small
    have shrinks : (1 / 2 : ℝ) ^ (k + 1) ≤ (1 / 2) ^ k := by
      rw [pow_succ]
      have power : (0 : ℝ) ≤ (1 / 2) ^ k := by positivity
      linarith
    nlinarith
  exact absurd (always k) (not_le.mpr below)

theorem retried_ends {fit : Fit ℝ σ n m} (sound : fit.Sound)
    (tame : ∃ N, ∀ k ≥ N, ∀ later, retried M L k fit = some later → ¬ later.RunsAway M L) :
    ∃ k, retried M L k fit = none := by
  obtain ⟨N, tame⟩ := tame
  cases reached : retried M L N fit with
  | none => exact ⟨N, reached⟩
  | some first =>
      have onward (k : Nat) : retried M L (N + k) fit = retried M L k first := by
        rw [retried_add, reached, Option.bind_some]
      have before := retried_sound sound reached
      obtain ⟨k, finished⟩ := retried_ends_of_tame before fun k later known =>
        tame (N + k) (Nat.le_add_right N k) later ((onward k).trans known)
      exact ⟨N + k, (onward k).trans finished⟩

end Halving

end LeastSquares.Fit

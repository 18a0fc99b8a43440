import LeastSquares.Fit.Iterate

/-!
# What one trial step can do

A trial ends in one of five ways: the linear algebra fails, the model fails, the step is taken, the
trust region collapses, or the step is rejected and another trial follows. Later proofs go by these
cases and never open the definitions of the steps again.
-/

set_option autoImplicit false

namespace LeastSquares

variable {α σ ε : Type} {n m : Nat}

def Trial.fit : Trial α σ ε n m → Fit α σ n m
  | .settled call => call.fit
  | .rejected fit _ => fit

def Prospect.fit : Prospect α σ ε n m → Fit α σ n m
  | .settled call => call.fit
  | .ready fit _ _ => fit

@[simp] theorem Call.after_fit {ρ : Type} (call : Call α σ ε n m ρ) (events : List (Event α)) :
    (call.after events).fit = call.fit := rfl

namespace Fit

@[simp] theorem conclude_fit (fit : Fit α σ n m) (events : List (Event α)) (status : Status) :
    (fit.conclude events status : Call α σ ε n m Status).fit = fit := rfl

@[simp] theorem conclude_result (fit : Fit α σ n m) (events : List (Event α)) (status : Status) :
    (fit.conclude events status : Call α σ ε n m Status).result = .ok status := rfl

/-! ## Calls of the model -/

/-- A call for values changes the state of the model, the spare buffer and a counter. -/
theorem evaluateAt_eq {M : Model α σ ε n m} {fit asked : Fit α σ n m} {a : Vector α n}
    {result : Except ε (Vector α m)} (answer : fit.evaluateAt M a = (asked, result)) : asked =
      { fit with model := asked.model, spare := asked.spare, valueCalls := asked.valueCalls } := by
  simp only [evaluateAt] at answer
  split at answer
  · cases answer
    rfl
  · cases answer
    rfl

variable [Scalar α]

theorem evaluateJacobian_eq {M : Model α σ ε n m} {fit asked : Fit α σ n m}
    {result : Except ε (DenseMatrix α m n)} (answer : fit.evaluateJacobian M = (asked, result)) :
    asked = { fit with model := asked.model, jacobianCalls := asked.jacobianCalls } := by
  simp only [evaluateJacobian] at answer
  split at answer
  · cases answer
    rfl
  · cases answer
    rfl

theorem evaluateJacobian_fit (M : Model α σ ε n m) (fit : Fit α σ n m) :
    (fit.evaluateJacobian M).1 =
      { fit with
        model := (fit.evaluateJacobian M).1.model
        jacobianCalls := (fit.evaluateJacobian M).1.jacobianCalls } :=
  evaluateJacobian_eq (Prod.eta _).symm

/-! ## The cases of the linear algebra -/

section Linearizing

variable [Products α]

/-- The linear algebra ends an iteration when the model fails, when no parameter can move and when
the gradient is small; otherwise it leaves a problem for trial steps. -/
theorem linearize_cases (M : Model α σ ε n m) (fit : Fit α σ n m) :
    (∃ asked error, fit.evaluateJacobian M = (asked, .error error) ∧
      linearize M fit = .settled (.fail asked [] (.model error))) ∨
    (∃ asked J, fit.evaluateJacobian M = (asked, .ok J) ∧ (asked.counted J).freeCount = 0 ∧
      linearize M fit =
        .settled ((asked.counted J).conclude (asked.stuckEvents J) .allParametersAreStuck)) ∨
    (∃ asked J, fit.evaluateJacobian M = (asked, .ok J) ∧ (asked.counted J).freeCount ≠ 0 ∧
      ((asked.counted J).measured J).gradientNorm ≤ asked.criteria.minGradient ∧
      linearize M fit = .settled
        (((asked.counted J).measured J).conclude (asked.stuckEvents J) .minimumFound)) ∨
    (∃ asked J, fit.evaluateJacobian M = (asked, .ok J) ∧ (asked.counted J).freeCount ≠ 0 ∧
      ¬ ((asked.counted J).measured J).gradientNorm ≤ asked.criteria.minGradient ∧
      ∃ events, linearize M fit =
        .ready (((asked.counted J).measured J).linearized
          (((asked.counted J).measured J).linearization J)) events
          (((asked.counted J).measured J).linearization J)) := by
  cases answer : fit.evaluateJacobian M with
  | mk asked result =>
      cases result with
      | error error =>
          refine .inl ⟨asked, error, rfl, ?_⟩
          simp only [linearize, answer]
      | ok J =>
          refine .inr ?_
          by_cases none : (asked.counted J).freeCount = 0
          · refine .inl ⟨asked, J, rfl, none, ?_⟩
            simp only [linearize, answer, if_pos none]
          · by_cases small :
                ((asked.counted J).measured J).gradientNorm ≤ asked.criteria.minGradient
            · refine .inr (.inl ⟨asked, J, rfl, none, small, ?_⟩)
              simp only [linearize, answer, if_neg none]
              exact if_pos small
            · let fit := (asked.counted J).measured J
              refine .inr (.inr ⟨asked, J, rfl, none, small,
                asked.stuckEvents J ++ fit.deficientEvents (fit.linearization J), ?_⟩)
              simp only [linearize, answer, if_neg none]
              exact if_neg small

theorem linearize_fit (M : Model α σ ε n m) (fit : Fit α σ n m) : (linearize M fit).fit =
    { (fit.evaluateJacobian M).1 with
      freeCount := (linearize M fit).fit.freeCount
      gradientNorm := (linearize M fit).fit.gradientNorm
      rank := (linearize M fit).fit.rank
      trust := (linearize M fit).fit.trust } := by
  rcases linearize_cases M fit with ⟨asked, error, answer, settled⟩ |
    ⟨asked, J, answer, _, settled⟩ | ⟨asked, J, answer, _, _, settled⟩ |
    ⟨asked, J, answer, _, _, events, ready⟩
  · rw [answer, settled]
    rfl
  · rw [answer, settled]
    rfl
  · rw [answer, settled]
    rfl
  · rw [answer, ready]
    rfl

/-- Where it ends the iteration, it has not come to the rank and the trust region. -/
theorem linearize_settled_fit {M : Model α σ ε n m} {fit : Fit α σ n m}
    {call : Call α σ ε n m Status} (settled : linearize M fit = .settled call) : call.fit =
    { fit with
      model := call.fit.model
      freeCount := call.fit.freeCount
      gradientNorm := call.fit.gradientNorm
      jacobianCalls := call.fit.jacobianCalls } := by
  rcases linearize_cases M fit with ⟨asked, error, answer, ended⟩ |
    ⟨asked, J, answer, _, ended⟩ | ⟨asked, J, answer, _, _, ended⟩ | ⟨_, _, _, _, _, _, goes⟩
  · cases ended.symm.trans settled
    rw [evaluateJacobian_eq answer]
    rfl
  · cases ended.symm.trans settled
    rw [evaluateJacobian_eq answer]
    rfl
  · cases ended.symm.trans settled
    rw [evaluateJacobian_eq answer]
    rfl
  · cases goes.symm.trans settled

end Linearizing

/-! ## The cases of a trial -/

theorem outcomeAt_stepNorm (fit : Fit α σ n m) (L : Linearization α n m) (proposal : Proposal α n)
    (values : Vector α m) : (fit.outcomeAt L proposal values).stepNorm = proposal.stepNorm := by
  simp only [outcomeAt, outcome]
  split <;> rfl

section Cases

variable (M : Model α σ ε n m) (L : Linearization α n m) (fit : Fit α σ n m)

def trialEvents (proposal : Proposal α n) (values : Vector α m) : List (Event α) :=
  proposal.events ++ [.iteration (fit.report L proposal values)]

theorem judge_cases (proposal : Proposal α n) (values : Vector α m) :
    (fit.chiSquareAt values < fit.chiSquare ∧ ∃ status,
      judge (ε := ε) L proposal fit values =
        .settled (((fit.adapted L proposal values).take proposal values).conclude
          (fit.trialEvents L proposal values) status)) ∨
    (¬ fit.chiSquareAt values < fit.chiSquare ∧ (fit.adapted L proposal values).collapsed = true ∧
      judge (ε := ε) L proposal fit values =
        .settled ((fit.adapted L proposal values).conclude (fit.trialEvents L proposal values)
          .deltaIsTooSmall)) ∨
    (¬ fit.chiSquareAt values < fit.chiSquare ∧ (fit.adapted L proposal values).collapsed = false ∧
      judge (ε := ε) L proposal fit values =
        .rejected (fit.adapted L proposal values) (fit.trialEvents L proposal values)) := by
  simp only [judge]
  by_cases better : fit.chiSquareAt values < fit.chiSquare
  · rw [if_pos better]
    exact .inl ⟨better, _, rfl⟩
  · rw [if_neg better]
    by_cases collapsed : (fit.adapted L proposal values).collapsed = true
    · rw [if_pos collapsed]
      exact .inr (.inl ⟨better, collapsed, rfl⟩)
    · rw [if_neg collapsed]
      exact .inr (.inr ⟨better, Bool.eq_false_iff.mpr collapsed, rfl⟩)

theorem trial_cases :
    (∃ error, fit.propose L = .error error ∧
      fit.trial M L = .settled (.fail fit [] (.linalg error))) ∨
    (∃ proposal asked error, fit.propose L = .ok proposal ∧
      (fit.proposed proposal).evaluateAt M proposal.move.next = (asked, .error error) ∧
      fit.trial M L = .settled (.fail asked proposal.events (.model error))) ∨
    (∃ proposal asked values, fit.propose L = .ok proposal ∧
      (fit.proposed proposal).evaluateAt M proposal.move.next = (asked, .ok values) ∧
      fit.trial M L = judge L proposal asked values) := by
  cases step : fit.propose L with
  | error error =>
      refine .inl ⟨error, rfl, ?_⟩
      simp only [trial, step]
  | ok proposal =>
      cases answer : (fit.proposed proposal).evaluateAt M proposal.move.next with
      | mk asked result =>
          cases result with
          | error error =>
              refine .inr (.inl ⟨proposal, asked, error, rfl, answer, ?_⟩)
              simp only [trial, step, answer]
          | ok values =>
              refine .inr (.inr ⟨proposal, asked, values, rfl, answer, ?_⟩)
              simp only [trial, step, answer]

/-- A trial sets the point and the trust region, and nothing else after the call for values. -/
theorem trial_fit : (fit.trial M L).fit =
    { fit with
      model := (fit.trial M L).fit.model
      parameters := (fit.trial M L).fit.parameters
      values := (fit.trial M L).fit.values
      spare := (fit.trial M L).fit.spare
      active := (fit.trial M L).fit.active
      chiSquare := (fit.trial M L).fit.chiSquare
      trust := (fit.trial M L).fit.trust
      valueCalls := (fit.trial M L).fit.valueCalls } := by
  rcases fit.trial_cases M L with ⟨error, _, failed⟩ |
    ⟨proposal, asked, error, step, answer, failed⟩ |
    ⟨proposal, asked, values, step, answer, judged⟩
  · rw [failed]
    rfl
  · rw [failed, evaluateAt_eq answer]
    rfl
  · rw [judged]
    rcases asked.judge_cases (ε := ε) L proposal values with ⟨_, status, settled⟩ |
      ⟨_, _, settled⟩ | ⟨_, _, again⟩
    · rw [settled, evaluateAt_eq answer]
      rfl
    · rw [settled, evaluateAt_eq answer]
      rfl
    · rw [again, evaluateAt_eq answer]
      rfl

theorem trial_rejected {next : Fit α σ n m} {events : List (Event α)}
    (rejected : fit.trial M L = .rejected next events) :
    ∃ proposal asked values, fit.propose L = .ok proposal ∧
      (fit.proposed proposal).evaluateAt M proposal.move.next = (asked, .ok values) ∧
      ¬ asked.chiSquareAt values < asked.chiSquare ∧ next = asked.adapted L proposal values ∧
      next.collapsed = false := by
  rcases fit.trial_cases M L with ⟨error, _, settled⟩ | ⟨proposal, asked, error, _, _, settled⟩ |
    ⟨proposal, asked, values, step, answer, judged⟩
  · rw [settled] at rejected
    cases rejected
  · rw [settled] at rejected
    cases rejected
  · rw [judged] at rejected
    rcases asked.judge_cases (ε := ε) L proposal values with ⟨_, status, settled⟩ |
      ⟨_, _, settled⟩ | ⟨worse, stays, again⟩
    · rw [settled] at rejected
      cases rejected
    · rw [settled] at rejected
      cases rejected
    · rw [again] at rejected
      cases rejected
      exact ⟨proposal, asked, values, step, answer, worse, rfl, stays⟩

end Cases

/-! ## The cases of the loops -/

section Loops

variable {M : Model α σ ε n m} {L : Linearization α n m} {fuel : Nat} {fit : Fit α σ n m}
  {call : Call α σ ε n m Status}

theorem trials_ended (ends : trials M L (fuel + 1) fit = some call) :
    fit.trial M L = .settled call ∨
    ∃ next events rest, fit.trial M L = .rejected next events ∧
      trials M L fuel next = some rest ∧ call = rest.after events := by
  rw [trials] at ends
  cases ended : fit.trial M L with
  | settled last =>
      rw [ended] at ends
      cases ends
      exact .inl rfl
  | rejected next events =>
      rw [ended] at ends
      obtain ⟨rest, found, rfl⟩ := Option.map_eq_some_iff.mp ends
      exact .inr ⟨next, events, rest, rfl, found, rfl⟩

theorem iterate_ended [Products α] (ends : fit.iterate M fuel = some call) :
    fit.prepared = false ∧ call = .fail fit [] .notPrepared ∨
    fit.prepared = true ∧
      linearize M { fit with iteration := fit.iteration + 1 } = .settled call ∨
    fit.prepared = true ∧ ∃ first events L rest,
      linearize M { fit with iteration := fit.iteration + 1 } = .ready first events L ∧
        trials M L fuel first = some rest ∧ call = rest.after events := by
  rw [iterate] at ends
  by_cases prepared : fit.prepared = true
  · rw [if_pos prepared] at ends
    cases prospect : linearize M { fit with iteration := fit.iteration + 1 } with
    | settled last =>
        rw [prospect] at ends
        cases ends
        exact .inr (.inl ⟨prepared, rfl⟩)
    | ready first events L =>
        rw [prospect] at ends
        obtain ⟨rest, found, rfl⟩ := Option.map_eq_some_iff.mp ends
        exact .inr (.inr ⟨prepared, first, events, L, rest, rfl, found, rfl⟩)
  · rw [if_neg prepared] at ends
    cases ends
    exact .inl ⟨Bool.eq_false_iff.mpr prepared, rfl⟩

end Loops

end Fit

end LeastSquares

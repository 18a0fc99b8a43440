import LeastSquares.Proofs.Fit.Reachable

/-!
# What an iteration comes to

An iteration either stays at the point where it began, or ends with one step away from it: a trial
at which the model answered and chi-square was lower. The status tells which. Rejected trials and
failures leave the point as it was, together with all that was computed there.
-/

set_option autoImplicit false

namespace LeastSquares

def Status.tookStep : Status → Bool
  | .improving | .chiSquareIsOk | .chiSquareChangeTooSmall => true
  | .minimumFound | .allParametersAreStuck | .deltaIsTooSmall => false

namespace Fit

variable {α σ ε : Type} {n m : Nat}

/-- The later fit is at the same point, with the same settings. -/
structure Stays (fit later : Fit α σ n m) : Prop where
  parameters : later.parameters = fit.parameters
  values : later.values = fit.values
  active : later.active = fit.active
  chiSquare : later.chiSquare = fit.chiSquare
  limits : later.limits = fit.limits
  targets : later.targets = fit.targets
  criteria : later.criteria = fit.criteria
  prepared : later.prepared = fit.prepared

theorem Stays.refl (fit : Fit α σ n m) : fit.Stays fit :=
  ⟨rfl, rfl, rfl, rfl, rfl, rfl, rfl, rfl⟩

theorem Stays.trans {fit later last : Fit α σ n m} (first : fit.Stays later)
    (second : later.Stays last) : fit.Stays last where
  parameters := second.parameters.trans first.parameters
  values := second.values.trans first.values
  active := second.active.trans first.active
  chiSquare := second.chiSquare.trans first.chiSquare
  limits := second.limits.trans first.limits
  targets := second.targets.trans first.targets
  criteria := second.criteria.trans first.criteria
  prepared := second.prepared.trans first.prepared

theorem evaluateAt_stays {M : Model α σ ε n m} {fit asked : Fit α σ n m} {a : Vector α n}
    {result : Except ε (Vector α m)} (answer : fit.evaluateAt M a = (asked, result)) :
    fit.Stays asked := by
  rw [evaluateAt_eq answer]
  exact ⟨rfl, rfl, rfl, rfl, rfl, rfl, rfl, rfl⟩

theorem proposed_stays (fit : Fit α σ n m) (proposal : Proposal α n) :
    fit.Stays (fit.proposed proposal) :=
  ⟨rfl, rfl, rfl, rfl, rfl, rfl, rfl, rfl⟩

variable [Scalar α] {M : Model α σ ε n m} {L : Linearization α n m}

theorem evaluateJacobian_stays {fit asked : Fit α σ n m} {result : Except ε (DenseMatrix α m n)}
    (answer : fit.evaluateJacobian M = (asked, result)) : fit.Stays asked := by
  rw [evaluateJacobian_eq answer]
  exact ⟨rfl, rfl, rfl, rfl, rfl, rfl, rfl, rfl⟩

theorem correlation_stays [Products α] (M : Model α σ ε n m) (budget : Nat) (fit : Fit α σ n m) :
    fit.Stays (fit.correlation M budget).fit :=
  correlation_keeps fit.Stays budget (Stays.refl fit) fun answer => evaluateJacobian_stays answer

theorem adapted_stays (fit : Fit α σ n m) (L : Linearization α n m) (proposal : Proposal α n)
    (values : Vector α m) : fit.Stays (fit.adapted L proposal values) :=
  ⟨rfl, rfl, rfl, rfl, rfl, rfl, rfl, rfl⟩

/-! ## Preparing -/

theorem start_fresh {model : σ} {parameters : Vector α n} {target : Vector α m} {sigma : Array α}
    {fit : Fit α σ n m} (started : Fit.start model parameters target sigma = .ok fit) :
    fit.prepared = false ∧ fit.limits = .unbounded := by
  obtain ⟨length, rfl⟩ := start_eq started
  exact ⟨rfl, rfl⟩

theorem prepare_refused {fit : Fit α σ n m} (prepared : fit.prepared = true) :
    fit.prepare M = .fail fit [] .alreadyPrepared :=
  if_pos prepared

theorem iterate_unprepared [Products α] {fit : Fit α σ n m} {fuel : Nat}
    (unprepared : fit.prepared = false) :
    fit.iterate M fuel = some (.fail fit [] .notPrepared) :=
  if_neg (ne_true_of_eq_false unprepared)

theorem correlation_unprepared [Products α] {fit : Fit α σ n m} {budget : Nat}
    (unprepared : fit.prepared = false) : fit.correlation M budget = .fail fit [] .notPrepared :=
  if_neg (ne_true_of_eq_false unprepared)

/-- Preparing asks the model at the parameters moved into their limits, and succeeds if the model
answers. -/
theorem prepare_outcome (M : Model α σ ε n m) {fit : Fit α σ n m}
    (unprepared : fit.prepared = false) :
    ∃ answer, M.values fit.model fit.clamped fit.values = answer ∧
      ((∃ error, answer.failure? = some error ∧ (fit.prepare M).result = .error (.model error) ∧
        (fit.prepare M).fit =
          { fit with model := answer.state, parameters := fit.clamped, values := answer.buffer }) ∨
      (answer.failure? = none ∧ (fit.prepare M).result = .ok () ∧
        (fit.prepare M).fit = ({ fit with
          model := answer.state
          parameters := fit.clamped
          values := answer.buffer
          valueCalls := fit.valueCalls + 1
          prepared := true } : Fit α σ n m).refresh)) := by
  refine ⟨_, rfl, ?_⟩
  rw [prepare, if_neg (ne_true_of_eq_false unprepared)]
  cases failure : (M.values fit.model fit.clamped fit.values).failure? with
  | some error =>
      refine .inl ⟨error, rfl, ?_⟩
      simp only [failure]
      exact ⟨rfl, rfl⟩
  | none =>
      refine .inr ⟨rfl, ?_⟩
      simp only [failure, and_self]

/-! ## The linear algebra -/

theorem free_of_count [Products α] {fit : Fit α σ n m} {J : DenseMatrix α m n}
    (none : (fit.counted J).freeCount = 0) (p : Fin n) : fit.free J p = false := by
  have all : ((List.finRange n).filter fun q => !fit.free J q).length =
      (List.finRange n).length := by
    refine Nat.le_antisymm (List.length_filter_le _ _) ?_
    rw [List.length_finRange]
    exact Nat.sub_eq_zero_iff_le.mp none
  have stuck := List.length_filter_eq_length_iff.mp all p (List.mem_finRange p)
  rwa [Bool.not_eq_true'] at stuck

theorem linearize_stays [Products α] (M : Model α σ ε n m) (fit : Fit α σ n m) :
    fit.Stays (linearize M fit).fit := by
  have asks : fit.Stays (fit.evaluateJacobian M).1 := evaluateJacobian_stays (Prod.eta _).symm
  rw [linearize_fit]
  exact asks.trans ⟨rfl, rfl, rfl, rfl, rfl, rfl, rfl, rfl⟩

theorem linearize_settled [Products α] {fit : Fit α σ n m} {call : Call α σ ε n m Status}
    {status : Status}
    (settled : linearize M fit = .settled call) (ended : call.result = .ok status) :
    status = .minimumFound ∨
      status = .allParametersAreStuck ∧ ∃ J, ∀ p, call.fit.free J p = false := by
  rcases linearize_cases M fit with ⟨asked, error, answer, finished⟩ |
    ⟨asked, J, answer, none, finished⟩ | ⟨asked, J, answer, _, _, finished⟩ |
    ⟨asked, J, answer, _, _, events, ready⟩
  · rw [finished] at settled
    cases settled
    cases ended
  · rw [finished] at settled
    cases settled
    cases ended
    exact .inr ⟨rfl, J, fun p => free_of_count none p⟩
  · rw [finished] at settled
    cases settled
    cases ended
    exact .inl rfl
  · rw [ready] at settled
    cases settled

theorem linearize_ready [Products α] {fit first : Fit α σ n m} {events : List (Event α)}
    (ready : linearize M fit = .ready first events L) :
    ∃ asked J, fit.evaluateJacobian M = (asked, .ok J) ∧ L.free = asked.free J := by
  rcases linearize_cases M fit with ⟨asked, error, _, finished⟩ | ⟨asked, J, _, _, finished⟩ |
    ⟨asked, J, _, _, _, finished⟩ | ⟨asked, J, answer, _, _, events, goes⟩
  · rw [finished] at ready
    cases ready
  · rw [finished] at ready
    cases ready
  · rw [finished] at ready
    cases ready
  · rw [goes] at ready
    cases ready
    exact ⟨asked, J, answer, rfl⟩

/-! ## Trials -/

structure Takes (M : Model α σ ε n m) (L : Linearization α n m) (fit : Fit α σ n m)
    (proposal : Proposal α n) (asked : Fit α σ n m) (values : Vector α m) : Prop where
  proposes : fit.propose L = .ok proposal
  answers : (fit.proposed proposal).evaluateAt M proposal.move.next = (asked, .ok values)
  lowers : asked.chiSquareAt values < asked.chiSquare

theorem Takes.stays {fit asked : Fit α σ n m} {proposal : Proposal α n} {values : Vector α m}
    (takes : Takes M L fit proposal asked values) : fit.Stays asked :=
  (proposed_stays fit proposal).trans (evaluateAt_stays takes.answers)

theorem acceptedStatus_tookStep (fit : Fit α σ n m) (previous : α) (bounded : Bool) :
    (fit.acceptedStatus previous bounded).tookStep = true := by
  simp only [acceptedStatus]
  split
  · rfl
  · split
    · rfl
    · rfl

/-- A trial stays where it is, and then ends an iteration only with a failure or a radius that is
too small, or it takes a step. -/
theorem trial_outcome (M : Model α σ ε n m) (L : Linearization α n m) (fit : Fit α σ n m) :
    (fit.Stays (fit.trial M L).fit ∧ ∀ call status, fit.trial M L = .settled call →
      call.result = .ok status → status = .deltaIsTooSmall) ∨
    ∃ proposal asked values call status, Takes M L fit proposal asked values ∧
      fit.trial M L = .settled call ∧
      call.fit = (asked.adapted L proposal values).take proposal values ∧
      call.result = .ok status ∧ status.tookStep = true := by
  rcases fit.trial_cases M L with ⟨error, _, failed⟩ |
    ⟨proposal, asked, error, step, answer, failed⟩ |
    ⟨proposal, asked, values, step, answer, judged⟩
  · refine .inl ⟨?_, fun call status settled ended => ?_⟩
    · rw [failed]
      exact Stays.refl fit
    · rw [failed] at settled
      cases settled
      cases ended
  · refine .inl ⟨?_, fun call status settled ended => ?_⟩
    · rw [failed]
      exact (proposed_stays fit proposal).trans (evaluateAt_stays answer)
    · rw [failed] at settled
      cases settled
      cases ended
  · have stays := (proposed_stays fit proposal).trans (evaluateAt_stays answer)
    have adapts := stays.trans (asked.adapted_stays L proposal values)
    by_cases better : asked.chiSquareAt values < asked.chiSquare
    · let taken := (asked.adapted L proposal values).take proposal values
      have settled : fit.trial M L = .settled (taken.conclude (asked.trialEvents L proposal values)
          (taken.acceptedStatus asked.chiSquare proposal.move.bounded)) := by
        rw [judged]
        exact if_pos better
      exact .inr ⟨proposal, asked, values, _, _, ⟨step, answer, better⟩, settled, rfl, rfl,
        taken.acceptedStatus_tookStep asked.chiSquare proposal.move.bounded⟩
    · rcases asked.judge_cases (ε := ε) L proposal values with ⟨less, _⟩ | ⟨_, _, finished⟩ |
        ⟨_, _, again⟩
      · exact absurd less better
      · refine .inl ⟨?_, fun call status settled ended => ?_⟩
        · rw [judged, finished]
          exact adapts
        · rw [judged, finished] at settled
          cases settled
          cases ended
          rfl
      · refine .inl ⟨?_, fun call status settled ended => ?_⟩
        · rw [judged, again]
          exact adapts
        · rw [judged, again] at settled
          cases settled

theorem trials_outcome {fuel : Nat} {fit : Fit α σ n m} {call : Call α σ ε n m Status}
    (ends : trials M L fuel fit = some call) :
    (fit.Stays call.fit ∧ ∀ status, call.result = .ok status → status = .deltaIsTooSmall) ∨
    ∃ before proposal asked values status, fit.Stays before ∧
      Takes M L before proposal asked values ∧
      call.fit = (asked.adapted L proposal values).take proposal values ∧
      call.result = .ok status ∧ status.tookStep = true := by
  induction fuel generalizing fit call with
  | zero => cases ends
  | succ fuel ih =>
      have once := fit.trial_outcome M L
      rcases trials_ended ends with ended | ⟨next, events, rest, rejected, found, rfl⟩
      · rw [ended] at once
        rcases once with ⟨stays, statuses⟩ |
          ⟨proposal, asked, values, _, status, takes, same, stepped, result, took⟩
        · exact .inl ⟨stays, fun status => statuses call status rfl⟩
        · cases same
          exact .inr ⟨fit, proposal, asked, values, status, Stays.refl fit, takes, stepped,
            result, took⟩
      · rw [rejected] at once
        rcases once with ⟨stays, _⟩ | ⟨_, _, _, _, _, _, settled, _⟩
        · have stays : fit.Stays next := stays
          rcases ih found with ⟨onward, statuses⟩ |
            ⟨before, proposal, asked, values, status, onward, takes⟩
          · exact .inl ⟨stays.trans onward, statuses⟩
          · exact .inr ⟨before, proposal, asked, values, status, stays.trans onward, takes⟩
        · cases settled

/-! ## Iterations -/

theorem iterate_outcome [Products α] {fuel : Nat} {fit : Fit α σ n m} {call : Call α σ ε n m Status}
    (ends : fit.iterate M fuel = some call) :
    (fit.Stays call.fit ∧ ∀ status, call.result = .ok status → status = .deltaIsTooSmall ∨
      status = .minimumFound ∨
      status = .allParametersAreStuck ∧ ∃ J, ∀ p, call.fit.free J p = false) ∨
    ∃ L before proposal asked values status, fit.Stays before ∧
      Takes M L before proposal asked values ∧
      call.fit = (asked.adapted L proposal values).take proposal values ∧
      call.result = .ok status ∧ status.tookStep = true := by
  have counted : fit.Stays { fit with iteration := fit.iteration + 1 } :=
    ⟨rfl, rfl, rfl, rfl, rfl, rfl, rfl, rfl⟩
  have begun := counted.trans (linearize_stays M { fit with iteration := fit.iteration + 1 })
  rcases iterate_ended ends with ⟨_, rfl⟩ | ⟨_, prospect⟩ |
    ⟨_, first, events, L, rest, prospect, found, rfl⟩
  · exact .inl ⟨Stays.refl fit, fun status ended => by cases ended⟩
  · rw [prospect] at begun
    exact .inl ⟨begun, fun status ended => .inr (linearize_settled prospect ended)⟩
  · rw [prospect] at begun
    have begun : fit.Stays first := begun
    rcases trials_outcome found with ⟨stays, statuses⟩ |
      ⟨before, proposal, asked, values, status, stays, takes⟩
    · exact .inl ⟨begun.trans stays, fun status ended => .inl (statuses status ended)⟩
    · exact .inr ⟨L, before, proposal, asked, values, status, begun.trans stays, takes⟩

end Fit

end LeastSquares

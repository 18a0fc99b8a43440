import LeastSquares.Proofs.Fit.Measuring
import LeastSquares.Proofs.Fit.Trace

/-!
# What a status says

The limits and the gradient are judged once, where an iteration begins; then trial steps are made
until one is accepted or the trust region collapses, and nothing is judged anew where an accepted
step leads. So each status says something of the fit that the iteration began at, of the trials that
it reports, and of chi-square or the radius that it leaves, and no other status is right then.
-/

set_option autoImplicit false

namespace LeastSquares.Fit

variable {α σ ε : Type} {n m : Nat} [Scalar α]

/-! ## How an iteration ends -/

/-- How trial steps with these reports come to a status, from chi-square `previous`. The last one
decides. -/
inductive Closing (previous : α) (later : Fit α σ n m) : List (IterationReport α) → Status → Prop
  | accepted (last : IterationReport α) (taken : last.accepted = true) :
      Closing previous later [last] (later.acceptedStatus previous last.bounded)
  | collapsed (last : IterationReport α) (rejected : last.accepted = false)
      (small : later.collapsed = true) : Closing previous later [last] .deltaIsTooSmall
  | rejected (first : IterationReport α) (rejected : first.accepted = false)
      {rest : List (IterationReport α)} {status : Status}
      (onward : Closing previous later rest status) :
      Closing previous later (first :: rest) status

variable {M : Model α σ ε n m} {L : Linearization α n m} {fit later : Fit α σ n m}

theorem trial_closing {call : Call α σ ε n m Status} {status : Status}
    (settled : fit.trial M L = .settled call) (result : call.result = .ok status) :
    Closing fit.chiSquare call.fit (reported call.events) status := by
  rcases fit.trial_cases M L with ⟨error, _, failed⟩ |
    ⟨proposal, asked, error, step, answer, failed⟩ |
    ⟨proposal, asked, values, step, answer, judged⟩
  · rw [failed] at settled
    cases settled
    cases result
  · rw [failed] at settled
    cases settled
    cases result
  · have here : asked.chiSquare = fit.chiSquare := by
      rw [evaluateAt_eq answer]
      rfl
    have report := trialEvents_reported L asked proposal values
    rw [judged] at settled
    by_cases better : asked.chiSquareAt values < asked.chiSquare
    · rw [judge, if_pos better] at settled
      cases settled
      cases result
      rw [conclude_reported, ← here]
      exact report ▸ .accepted (asked.report L proposal values) (decide_eq_true better)
    · rcases asked.judge_cases (ε := ε) L proposal values with ⟨less, _⟩ | ⟨_, small, finished⟩ |
        ⟨_, _, again⟩
      · exact absurd less better
      · rw [finished] at settled
        cases settled
        cases result
        rw [conclude_reported, report]
        exact .collapsed _ (decide_eq_false better) small
      · rw [again] at settled
        cases settled

theorem rejected_reports {next : Fit α σ n m} {events : List (Event α)}
    (again : fit.trial M L = .rejected next events) :
    ∃ report, reported events = [report] ∧ report.accepted = false := by
  rcases fit.trial_reports M L with ⟨call, _, settled, _⟩ |
    ⟨report, said, _, ⟨_, call, _, settled, _⟩ | ⟨rejected, _⟩⟩
  · rw [settled] at again
    cases again
  · rw [settled] at again
    cases again
  · rw [again] at said
    exact ⟨report, said, rejected⟩

theorem trials_closing {fuel : Nat} {call : Call α σ ε n m Status} {status : Status}
    (ends : trials M L fuel fit = some call) (result : call.result = .ok status) :
    Closing fit.chiSquare call.fit (reported call.events) status := by
  induction fuel generalizing fit call with
  | zero => cases ends
  | succ fuel ih =>
      rcases trials_ended ends with settled | ⟨next, events, rest, again, found, rfl⟩
      · exact trial_closing settled result
      · have onward := ih found result
        rw [(retry_stays (retry_of_rejected again)).chiSquare] at onward
        obtain ⟨report, said, rejected⟩ := rejected_reports again
        rw [Call.after, reported_append, said]
        exact .rejected report rejected onward

theorem Closing.said {previous : α} {reports : List (IterationReport α)} {status : Status}
    (closing : Closing previous later reports status) :
    (∃ bounded, status = later.acceptedStatus previous bounded ∧
      (∃ report ∈ reports, report.accepted = true) ∧
      ((∃ report ∈ reports, report.accepted = true ∧ report.bounded = false) ↔
        bounded = false)) ∨
    (status = .deltaIsTooSmall ∧ reports ≠ [] ∧ (∀ report ∈ reports, report.accepted = false) ∧
      later.collapsed = true) := by
  induction closing with
  | accepted last taken =>
      refine .inl ⟨last.bounded, rfl, ⟨last, List.mem_singleton_self last, taken⟩, ?_⟩
      simp only [List.mem_singleton, exists_eq_left, taken, true_and]
  | collapsed last rejected small =>
      refine .inr ⟨rfl, List.cons_ne_nil _ _, ?_, small⟩
      intro report member
      obtain rfl := List.mem_singleton.mp member
      exact rejected
  | rejected first rejected _ ih =>
      rcases ih with ⟨bounded, same, ⟨report, member, taken⟩, free⟩ | ⟨same, _, none, small⟩
      · refine .inl ⟨bounded, same, ⟨report, List.mem_cons_of_mem _ member, taken⟩, ?_⟩
        simp only [List.mem_cons, exists_eq_or_imp, rejected, Bool.false_eq_true, false_and,
          false_or, free]
      · refine .inr ⟨same, List.cons_ne_nil _ _, ?_, small⟩
        intro report member
        rcases List.mem_cons.mp member with rfl | later
        · exact rejected
        · exact none report later

theorem collapsed_iff (fit : Fit α σ n m) : fit.collapsed = true ↔
    fit.trust.delta ≤ Scalar.epsilon * TrustRegion.scaledNorm fit.trust.scale fit.parameters ∨
      fit.trust.delta < Scalar.minPositive := by
  simp only [collapsed, Bool.or_eq_true, decide_eq_true_eq]

theorem acceptedStatus_ne {previous : α} {bounded : Bool} {status : Status}
    (rests : status.tookStep = false) : fit.acceptedStatus previous bounded ≠ status := by
  rintro rfl
  rw [acceptedStatus_tookStep] at rests
  cases rests

variable [Products α]

def Flat (M : Model α σ ε n m) (fit : Fit α σ n m) : Prop :=
  Scalar.norm (fun p => fit.free (fit.jacobianAnswer M) p) (fit.gradient (fit.jacobianAnswer M)) ≤
    fit.criteria.minGradient

inductive Verdict (M : Model α σ ε n m) (fit : Fit α σ n m) (call : Call α σ ε n m Status) :
    Status → Prop
  | stuck (none : ∀ p, fit.free (fit.jacobianAnswer M) p = false)
      (silent : reported call.events = []) : Verdict M fit call .allParametersAreStuck
  | flat (some : ∃ p, fit.free (fit.jacobianAnswer M) p = true) (flat : fit.Flat M)
      (silent : reported call.events = []) : Verdict M fit call .minimumFound
  | closed {status : Status} (some : ∃ p, fit.free (fit.jacobianAnswer M) p = true)
      (steep : ¬ fit.Flat M)
      (closing : Closing fit.chiSquare call.fit (reported call.events) status) :
      Verdict M fit call status

theorem tests_of_answer {asked : Fit α σ n m} {J : DenseMatrix α m n}
    (answer : evaluateJacobian M { fit with iteration := fit.iteration + 1 } = (asked, .ok J)) :
    ((asked.counted J).freeCount = 0 ↔ ∀ p, fit.free (fit.jacobianAnswer M) p = false) ∧
    (((asked.counted J).measured J).gradientNorm ≤ asked.criteria.minGradient ↔ fit.Flat M) := by
  obtain ⟨_, same⟩ := evaluateJacobian_answer answer
  obtain rfl : J = fit.jacobianAnswer M := same
  have stays := (nextIteration_stays fit).trans (evaluateJacobian_stays answer)
  constructor
  · rw [counted_eq_zero_iff, stays.free]
  · rw [Flat, ← stays.free, ← stays.gradient, ← stays.criteria]
    rfl

theorem exists_free_of_answer {asked : Fit α σ n m} {J : DenseMatrix α m n}
    (answer : evaluateJacobian M { fit with iteration := fit.iteration + 1 } = (asked, .ok J))
    (movable : (asked.counted J).freeCount ≠ 0) :
    ∃ p, fit.free (fit.jacobianAnswer M) p = true := by
  by_contra none
  simp only [not_exists, Bool.not_eq_true] at none
  exact movable ((tests_of_answer answer).1.mpr none)

theorem Tries.movable (tries : fit.Tries M later L) :
    ∃ p, fit.free (fit.jacobianAnswer M) p = true := by
  obtain ⟨events, ready⟩ := tries
  rcases linearize_cases M { fit with iteration := fit.iteration + 1 } with
    ⟨_, _, _, ended⟩ | ⟨_, _, _, _, ended⟩ | ⟨_, _, _, _, _, ended⟩ |
    ⟨asked, J, answer, movable, _, _, _⟩
  · rw [ended] at ready
    cases ready
  · rw [ended] at ready
    cases ready
  · rw [ended] at ready
    cases ready
  · exact exists_free_of_answer answer movable

theorem linearize_verdict {call : Call α σ ε n m Status} {status : Status}
    (settled : linearize M { fit with iteration := fit.iteration + 1 } = .settled call)
    (result : call.result = .ok status) : Verdict M fit call status := by
  have silent := (linearize_reported M { fit with iteration := fit.iteration + 1 }).1 call settled
  rcases linearize_cases M { fit with iteration := fit.iteration + 1 } with
    ⟨_, _, _, ended⟩ | ⟨asked, J, answer, none, ended⟩ |
    ⟨asked, J, answer, movable, small, ended⟩ | ⟨_, _, _, _, _, _, goes⟩
  · rw [ended] at settled
    cases settled
    cases result
  · rw [ended] at settled
    cases settled
    cases result
    exact .stuck ((tests_of_answer answer).1.mp none) silent
  · rw [ended] at settled
    cases settled
    cases result
    exact .flat (exists_free_of_answer answer movable) ((tests_of_answer answer).2.mp small) silent
  · rw [goes] at settled
    cases settled

theorem iterate_verdict {fuel : Nat} {call : Call α σ ε n m Status} {status : Status}
    (ends : fit.iterate M fuel = some call) (result : call.result = .ok status) :
    Verdict M fit call status := by
  rcases iterate_ended ends with ⟨_, rfl⟩ | ⟨_, settled⟩ |
    ⟨_, first, events, L, rest, ready, found, rfl⟩
  · cases result
  · exact linearize_verdict settled result
  · have tries : fit.Tries M first L := ⟨events, ready⟩
    have closing := trials_closing found result
    rw [tries.stays.chiSquare] at closing
    refine .closed tries.movable tries.steep ?_
    rw [Call.after, reported_append, reported_of_quiet (linearize_quiet M ready), List.nil_append]
    exact closing

/-! ## What justifies a status -/

/-- What has to hold of the fit that an iteration began at, of the trial steps that the call
reports and of the fit that it leaves, for the iteration to end with a status. -/
def Justifies (M : Model α σ ε n m) (fit : Fit α σ n m) (call : Call α σ ε n m Status) :
    Status → Prop
  | .allParametersAreStuck => ∀ p,
      fit.limits.atUpper p (fit.parameters p) = true ∧
          0 < fit.gradient (fit.jacobianAnswer M) p ∨
        fit.limits.atLower p (fit.parameters p) = true ∧
          fit.gradient (fit.jacobianAnswer M) p < 0
  | .minimumFound => (∃ p, fit.free (fit.jacobianAnswer M) p = true) ∧
      Scalar.norm (fun p => fit.free (fit.jacobianAnswer M) p)
        (fit.gradient (fit.jacobianAnswer M)) ≤ fit.criteria.minGradient
  | .chiSquareIsOk => (∃ report ∈ reported call.events, report.accepted = true) ∧
      call.fit.chiSquare ≤ fit.criteria.acceptableChiSquare
  | .chiSquareChangeTooSmall =>
      (∃ report ∈ reported call.events, report.accepted = true ∧ report.bounded = false) ∧
      ¬ call.fit.chiSquare ≤ fit.criteria.acceptableChiSquare ∧
      (fit.chiSquare - call.fit.chiSquare) / fit.chiSquare < fit.criteria.minChiSquareChange
  | .improving => (∃ report ∈ reported call.events, report.accepted = true) ∧
      ¬ call.fit.chiSquare ≤ fit.criteria.acceptableChiSquare ∧
      ¬ ((∃ report ∈ reported call.events, report.accepted = true ∧ report.bounded = false) ∧
        (fit.chiSquare - call.fit.chiSquare) / fit.chiSquare < fit.criteria.minChiSquareChange)
  | .deltaIsTooSmall => reported call.events ≠ [] ∧
      (∀ report ∈ reported call.events, report.accepted = false) ∧
      (call.fit.trust.delta ≤
          Scalar.epsilon * TrustRegion.scaledNorm call.fit.trust.scale call.fit.parameters ∨
        call.fit.trust.delta < Scalar.minPositive)

theorem free_eq_false_iff (fit : Fit α σ n m) (J : DenseMatrix α m n) (p : Fin n) :
    fit.free J p = false ↔
      fit.limits.atUpper p (fit.parameters p) = true ∧ 0 < fit.gradient J p ∨
        fit.limits.atLower p (fit.parameters p) = true ∧ fit.gradient J p < 0 := by
  simp only [free, isStuck, Vector.get_ofFn, Bool.not_eq_false', Bool.or_eq_true, Bool.and_eq_true,
    decide_eq_true_eq]

section Justified

variable {call : Call α σ ε n m Status} {status : Status}

theorem justifies_stuck_iff : fit.Justifies M call .allParametersAreStuck ↔
    ∀ p, fit.free (fit.jacobianAnswer M) p = false := by
  simp only [Justifies, free_eq_false_iff]

theorem not_justifies_stuck (some : ∃ p, fit.free (fit.jacobianAnswer M) p = true) :
    ¬ fit.Justifies M call .allParametersAreStuck := by
  intro justifies
  obtain ⟨p, free⟩ := some
  rw [justifies_stuck_iff.mp justifies p] at free
  cases free

theorem Justifies.of_tookStep (justifies : fit.Justifies M call status)
    (took : status.tookStep = true) : ∃ report ∈ reported call.events, report.accepted = true := by
  cases status with
  | improving => exact justifies.1
  | chiSquareIsOk => exact justifies.1
  | chiSquareChangeTooSmall =>
      obtain ⟨⟨report, member, taken, _⟩, _⟩ := justifies
      exact ⟨report, member, taken⟩
  | minimumFound => cases took
  | allParametersAreStuck => cases took
  | deltaIsTooSmall => cases took

theorem not_justifies_of_rejected
    (rejected : ∀ report ∈ reported call.events, report.accepted = false)
    (took : status.tookStep = true) : ¬ fit.Justifies M call status := by
  intro justifies
  obtain ⟨report, member, taken⟩ := justifies.of_tookStep took
  rw [rejected report member] at taken
  cases taken

theorem Justifies.of_silent (justifies : fit.Justifies M call status)
    (silent : reported call.events = []) :
    status = .allParametersAreStuck ∨ status = .minimumFound := by
  have rejected : ∀ report ∈ reported call.events, report.accepted = false := by
    intro report member
    rw [silent] at member
    cases member
  cases status with
  | allParametersAreStuck => exact .inl rfl
  | minimumFound => exact .inr rfl
  | deltaIsTooSmall => exact absurd silent justifies.1
  | improving => exact absurd justifies (not_justifies_of_rejected rejected rfl)
  | chiSquareIsOk => exact absurd justifies (not_justifies_of_rejected rejected rfl)
  | chiSquareChangeTooSmall => exact absurd justifies (not_justifies_of_rejected rejected rfl)

theorem acceptedStatus_eq_iff {bounded : Bool} (criteria : call.fit.criteria = fit.criteria)
    (taken : ∃ report ∈ reported call.events, report.accepted = true)
    (unbounded : (∃ report ∈ reported call.events,
      report.accepted = true ∧ report.bounded = false) ↔ bounded = false)
    (took : status.tookStep = true) :
    call.fit.acceptedStatus fit.chiSquare bounded = status ↔ fit.Justifies M call status := by
  rw [acceptedStatus, criteria]
  by_cases low : call.fit.chiSquare ≤ fit.criteria.acceptableChiSquare
  · rw [if_pos low]
    cases status <;> simp_all [Justifies, Status.tookStep]
  · by_cases little : bounded = false ∧
      (fit.chiSquare - call.fit.chiSquare) / fit.chiSquare < fit.criteria.minChiSquareChange
    · rw [if_neg low, if_pos (by simpa using little)]
      cases status <;> simp_all [Justifies, Status.tookStep]
    · rw [if_neg low, if_neg (by simpa using little)]
      cases status <;> simp_all [Justifies, Status.tookStep]

theorem Closing.justifies_iff (some : ∃ p, fit.free (fit.jacobianAnswer M) p = true)
    (steep : ¬ fit.Flat M)
    (closing : Closing fit.chiSquare call.fit (reported call.events) status)
    (criteria : call.fit.criteria = fit.criteria) (other : Status) :
    status = other ↔ fit.Justifies M call other := by
  have movable : ¬ fit.Justifies M call .allParametersAreStuck := not_justifies_stuck some
  have unfinished : ¬ fit.Justifies M call .minimumFound := fun justifies => steep justifies.2
  rcases closing.said with ⟨bounded, rfl, taken, unbounded⟩ | ⟨rfl, tried, rejected, small⟩
  · have accepted {other : Status} (took : other.tookStep = true) :
        call.fit.acceptedStatus fit.chiSquare bounded = other ↔ fit.Justifies M call other :=
      acceptedStatus_eq_iff criteria taken unbounded took
    cases other with
    | improving => exact accepted rfl
    | chiSquareIsOk => exact accepted rfl
    | chiSquareChangeTooSmall => exact accepted rfl
    | allParametersAreStuck => exact iff_of_false (acceptedStatus_ne rfl) movable
    | minimumFound => exact iff_of_false (acceptedStatus_ne rfl) unfinished
    | deltaIsTooSmall =>
        refine iff_of_false (acceptedStatus_ne rfl) fun justifies => ?_
        obtain ⟨report, member, taken⟩ := taken
        rw [justifies.2.1 report member] at taken
        cases taken
  · cases other with
    | improving => exact iff_of_false nofun (not_justifies_of_rejected rejected rfl)
    | chiSquareIsOk => exact iff_of_false nofun (not_justifies_of_rejected rejected rfl)
    | chiSquareChangeTooSmall => exact iff_of_false nofun (not_justifies_of_rejected rejected rfl)
    | allParametersAreStuck => exact iff_of_false nofun movable
    | minimumFound => exact iff_of_false nofun unfinished
    | deltaIsTooSmall => exact iff_of_true rfl ⟨tried, rejected, (collapsed_iff call.fit).mp small⟩

theorem Verdict.justifies_iff (verdict : Verdict M fit call status)
    (criteria : call.fit.criteria = fit.criteria) (other : Status) :
    status = other ↔ fit.Justifies M call other := by
  cases verdict with
  | stuck none silent =>
      constructor
      · rintro rfl
        exact justifies_stuck_iff.mpr none
      · intro justifies
        rcases justifies.of_silent silent with rfl | rfl
        · rfl
        · obtain ⟨p, free⟩ := justifies.1
          rw [none p] at free
          cases free
  | flat some flat silent =>
      constructor
      · rintro rfl
        exact ⟨some, flat⟩
      · intro justifies
        rcases justifies.of_silent silent with rfl | rfl
        · exact absurd justifies (not_justifies_stuck some)
        · rfl
  | closed some steep closing => exact closing.justifies_iff some steep criteria other

end Justified

/-! ## What an iteration says -/

theorem iterate_criteria {fuel : Nat} {call : Call α σ ε n m Status}
    (ends : fit.iterate M fuel = some call) : call.fit.criteria = fit.criteria := by
  rcases iterate_outcome ends with ⟨stays, _⟩ | ⟨_, before, _, _, _, _, stays, takes, same, _⟩
  · exact stays.criteria
  · rw [same]
    exact takes.stays.criteria.trans stays.criteria

theorem stays_of_rejected {fuel : Nat} {call : Call α σ ε n m Status} {status : Status}
    (ends : fit.iterate M fuel = some call) (result : call.result = .ok status)
    (rejected : ∀ report ∈ reported call.events, report.accepted = false) : fit.Stays call.fit := by
  rcases iterate_outcome ends with ⟨stays, _⟩ | ⟨_, _, _, _, _, other, _, _, _, known, took⟩
  · exact stays
  · obtain rfl : other = status := Except.ok.inj (known.symm.trans result)
    have justified := (iterate_verdict ends result).justifies_iff (iterate_criteria ends) other
    exact absurd (justified.mp rfl) (not_justifies_of_rejected rejected took)

/-- An iteration ends with the one status that is justified by the fit where it began, by the steps
that it reports, and by the chi-square or the radius that it leaves. Where no step is accepted, the
fit that it leaves is where it began. -/
theorem status_iff_justified {fuel : Nat} {call : Call α σ ε n m Status} {status : Status}
    (ends : fit.iterate M fuel = some call) (result : call.result = .ok status) :
    (∀ other, status = other ↔ fit.Justifies M call other) ∧
      ((∀ report ∈ reported call.events, report.accepted = false) → fit.Stays call.fit) :=
  ⟨(iterate_verdict ends result).justifies_iff (iterate_criteria ends),
    stays_of_rejected ends result⟩

theorem line_improving : ∃ (fit : Fit Float Unit 1 1) (call : Call Float Unit Empty 1 1 Status),
    lineStart.performAll line 9 [.prepare] = some fit ∧ fit.iterate line 9 = some call ∧
    call.result = .ok .improving ∧
    ∀ other, .improving = other ↔ fit.Justifies line call other := by
  have improves : ((lineStart.performAll line 9 [.prepare]).bind fun fit =>
      (fit.iterate line 9).map fun call => call.result.toOption) = some (some .improving) := by
    decide +kernel
  obtain ⟨fit, led, improves⟩ := Option.bind_eq_some_iff.mp improves
  obtain ⟨call, ends, result⟩ := Option.map_eq_some_iff.mp improves
  have result := ok_of_toOption result
  exact ⟨fit, call, led, ends, result, (status_iff_justified ends result).1⟩

/-- The limits and the radius that an iteration leaves can look like those of another status: an
accepted step ends at a limit with the gradient pointing outward there, and a fit that was at a
minimum from the beginning has no radius yet. -/
theorem line_resembles_others :
    (∃ (fit : Fit Float Unit 1 1) (call : Call Float Unit Empty 1 1 Status),
    lineStart.performAll line 9 [.setLimits none (some #[5.25]), .prepare] = some fit ∧
    fit.iterate line 9 = some call ∧ call.result = .ok .improving ∧
    ∀ p, call.fit.limits.atUpper p (call.fit.parameters p) = true ∧
      0 < fit.gradient (fit.jacobianAnswer line) p ∧
      0 < call.fit.gradient (call.fit.jacobianAnswer line) p) ∧
    ∃ (fit : Fit Float Unit 1 1) (call : Call Float Unit Empty 1 1 Status),
      lineStart.performAll line 9 [.setCriteria { StopCriteria.off with minGradient := 1 },
        .prepare] = some fit ∧
      fit.iterate line 9 = some call ∧ call.result = .ok .minimumFound ∧
      (∀ report ∈ reported call.events, report.accepted = false) ∧
      call.fit.trust.delta < Scalar.minPositive := by
  constructor
  · have atLimit : ((lineStart.performAll line 9
        [.setLimits none (some #[5.25]), .prepare]).bind fun fit =>
        (fit.iterate line 9).map fun call => (call.result.toOption,
          decide (∀ p, call.fit.limits.atUpper p (call.fit.parameters p) = true ∧
            0 < fit.gradient (fit.jacobianAnswer line) p ∧
            0 < call.fit.gradient (call.fit.jacobianAnswer line) p))) =
        some (some .improving, true) := by
      decide +kernel
    obtain ⟨fit, led, atLimit⟩ := Option.bind_eq_some_iff.mp atLimit
    obtain ⟨call, ends, atLimit⟩ := Option.map_eq_some_iff.mp atLimit
    obtain ⟨result, outward⟩ := Prod.mk.inj atLimit
    exact ⟨fit, call, led, ends, ok_of_toOption result, of_decide_eq_true outward⟩
  · have unset : ((lineStart.performAll line 9
        [.setCriteria { StopCriteria.off with minGradient := 1 }, .prepare]).bind fun fit =>
        (fit.iterate line 9).map fun call => (call.result.toOption,
          decide (∀ report ∈ reported call.events, report.accepted = false),
          decide (call.fit.trust.delta < Scalar.minPositive))) =
        some (some .minimumFound, true, true) := by
      decide +kernel
    obtain ⟨fit, led, unset⟩ := Option.bind_eq_some_iff.mp unset
    obtain ⟨call, ends, unset⟩ := Option.map_eq_some_iff.mp unset
    obtain ⟨result, unset⟩ := Prod.mk.inj unset
    obtain ⟨rejected, small⟩ := Prod.mk.inj unset
    exact ⟨fit, call, led, ends, ok_of_toOption result, of_decide_eq_true rejected,
      of_decide_eq_true small⟩

end LeastSquares.Fit

import LeastSquares.Proofs.Fit.Finishing
import LeastSquares.Proofs.Fit.LinearModel

/-!
# What an iteration measures

An iteration counts the parameters that are free where it begins, and then takes the norm of the
gradient over them; nothing that follows touches either number. Where no parameter is free it ends
between the two, and the fit is left with the norm that an earlier iteration measured.

The summary of a run holds the norm that the last of its iterations left.
-/

set_option autoImplicit false

namespace LeastSquares.Fit

variable {α σ ε : Type} {n m : Nat} [Scalar α] [Products α]

/-! ## Counting -/

theorem counted_freeCount (fit : Fit α σ n m) (J : DenseMatrix α m n) :
    (fit.counted J).freeCount = Fintype.card (fit.FreeParameter J) := by
  have split : n = (List.finRange n).countP (fun p => fit.free J p) +
      (List.finRange n).countP fun p => !fit.free J p := by
    have both := (List.finRange n).length_eq_countP_add_countP fun p => fit.free J p
    simpa only [List.length_finRange, Bool.not_eq_true, Bool.decide_eq_false] using both
  have left : (fit.counted J).freeCount = n - (List.finRange n).countP fun p => !fit.free J p := by
    rw [counted, stuck, ← List.countP_eq_length_filter]
  rw [left, card_eq_countP]
  exact (Nat.eq_sub_of_add_eq split.symm).symm

theorem counted_eq_zero_iff (fit : Fit α σ n m) (J : DenseMatrix α m n) :
    (fit.counted J).freeCount = 0 ↔ ∀ p, fit.free J p = false := by
  rw [counted_freeCount, Fintype.card_eq_zero_iff, isEmpty_subtype]
  simp only [Bool.not_eq_true]

/-! ## One iteration -/

/-- The later fit is what an iteration leaves that measured the gradient where this fit is. -/
structure Measures (M : Model α σ ε n m) (fit later : Fit α σ n m) : Prop where
  answered : (M.jacobian fit.model fit.parameters .zeros).failure? = none
  count : later.freeCount = Fintype.card (fit.FreeParameter (fit.jacobianAnswer M))
  norm : later.gradientNorm =
    if later.freeCount = 0 then fit.gradientNorm
    else Scalar.norm (fun p => fit.free (fit.jacobianAnswer M) p)
      (fit.gradient (fit.jacobianAnswer M))

variable {M : Model α σ ε n m} {fit later : Fit α σ n m}

theorem Measures.of_same (measures : fit.Measures M later) {last : Fit α σ n m}
    (count : last.freeCount = later.freeCount) (norm : last.gradientNorm = later.gradientNorm) :
    fit.Measures M last where
  answered := measures.answered
  count := count.trans measures.count
  norm := by
    rw [norm, count]
    exact measures.norm

theorem measures_of_answer {asked : Fit α σ n m} {J : DenseMatrix α m n}
    (answer : evaluateJacobian M { fit with iteration := fit.iteration + 1 } = (asked, .ok J))
    (count : later.freeCount = (asked.counted J).freeCount)
    (norm : later.gradientNorm =
      if (asked.counted J).freeCount = 0 then asked.gradientNorm
      else ((asked.counted J).measured J).gradientNorm) : fit.Measures M later := by
  obtain ⟨answered, same⟩ := evaluateJacobian_answer answer
  obtain rfl : J = fit.jacobianAnswer M := same
  have stays := (nextIteration_stays fit).trans (evaluateJacobian_stays answer)
  have before : asked.gradientNorm = fit.gradientNorm := by
    rw [evaluateJacobian_eq answer]
  refine ⟨answered, ?_, ?_⟩
  · rw [count, counted_freeCount]
    simp only [FreeParameter, stays.free]
  · rw [norm, count, before, ← stays.free, ← stays.gradient]
    rfl

theorem linearize_measures (M : Model α σ ε n m) (fit : Fit α σ n m) :
    (∃ next error, linearize M { fit with iteration := fit.iteration + 1 } =
      .settled (.fail next [] error)) ∨
    fit.Measures M (linearize M { fit with iteration := fit.iteration + 1 }).fit := by
  rcases linearize_cases M { fit with iteration := fit.iteration + 1 } with
    ⟨asked, error, _, settled⟩ | ⟨asked, J, answer, none, settled⟩ |
    ⟨asked, J, answer, some, _, settled⟩ | ⟨asked, J, answer, some, _, events, ready⟩
  · exact .inl ⟨asked, _, settled⟩
  · refine .inr (measures_of_answer answer ?_ ?_)
    · rw [settled]
      rfl
    · rw [settled, if_pos none]
      rfl
  · refine .inr (measures_of_answer answer ?_ ?_)
    · rw [settled]
      rfl
    · rw [settled, if_neg some]
      rfl
  · refine .inr (measures_of_answer answer ?_ ?_)
    · rw [ready]
      rfl
    · rw [ready, if_neg some]
      rfl

theorem Measures.trials {L : Linearization α n m} {fuel : Nat} {call : Call α σ ε n m Status}
    (measures : fit.Measures M later) (ends : trials M L fuel later = some call) :
    fit.Measures M call.fit := by
  apply trials_keeps (fit.Measures M) _ measures ends
  intro before measured
  have count := congrArg freeCount (before.trial_fit M L)
  have norm := congrArg gradientNorm (before.trial_fit M L)
  exact measured.of_same count norm

theorem iterate_measures {fuel : Nat} {call : Call α σ ε n m Status} {status : Status}
    (ends : fit.iterate M fuel = some call) (result : call.result = .ok status) :
    fit.Measures M call.fit := by
  rcases iterate_ended ends with ⟨_, rfl⟩ | ⟨_, settled⟩ |
    ⟨_, first, events, L, rest, ready, found, rfl⟩
  · cases result
  · rcases linearize_measures M fit with ⟨next, error, failed⟩ | measures
    · rw [failed] at settled
      cases settled
      cases result
    · rw [settled] at measures
      exact measures
  · rcases linearize_measures M fit with ⟨next, error, failed⟩ | measures
    · rw [failed] at ready
      cases ready
    · rw [ready] at measures
      have kept : fit.Measures M rest.fit := measures.trials found
      exact kept

/-! ## Whole runs -/

theorem Looped.final {fuel left made count : Nat} {status last : Status} {fit : Fit α σ n m}
    {call : Call α σ ε n m (Status × Nat)} (loops : Looped M fuel left made status fit call)
    (result : call.result = .ok (last, count)) :
    (count = made ∧ last = status ∧ call.fit = fit) ∨ ∃ k begun final, count = made + k + 1 ∧
      fit.performAll M fuel (.replicate k .iterate) = some begun ∧
      begun.iterate M fuel = some final ∧ final.result = .ok last ∧ call.fit = final.fit := by
  induction loops with
  | idle =>
      cases result
      exact .inl ⟨rfl, rfl, rfl⟩
  | failed => cases result
  | @ended _ _ _ _ fit _ _ once =>
      cases result
      exact .inr ⟨0, fit, _, rfl, rfl, once, rfl, rfl⟩
  | @onward _ _ _ _ fit next _ _ once _ _ ih =>
      have step : fit.perform M fuel .iterate = some next := by
        rw [perform, once, Option.map_some]
      rcases ih result with ⟨rfl, rfl, same⟩ | ⟨k, begun, final, counts, led, again, ended, same⟩
      · exact .inr ⟨0, fit, _, rfl, rfl, once, rfl, same⟩
      · refine .inr ⟨k + 1, begun, final, by omega, ?_, again, ended, same⟩
        rw [List.replicate_succ, performAll, step, Option.bind_some, led]

theorem runPrepared_final {fuel maxIterations : Nat} {call : Call α σ ε n m (RunSummary α)}
    {summary : RunSummary α} (ends : fit.runPrepared M fuel maxIterations = some call)
    (result : call.result = .ok summary) :
    summary.gradientNorm = call.fit.gradientNorm ∧ (summary.iterations = 0 ∨
      ∃ k begun final, summary.iterations = k + 1 ∧
        fit.performAll M fuel (.replicate k .iterate) = some begun ∧
        begun.iterate M fuel = some final ∧ final.result = .ok summary.status ∧
        call.fit = final.fit) := by
  obtain ⟨⟨last, events, ended⟩, found, rfl⟩ := Option.map_eq_some_iff.mp ends
  cases ended with
  | error error => cases result
  | ok ended =>
      cases result
      refine ⟨rfl, ?_⟩
      rcases (iterateUpTo_looped found).final rfl with ⟨none, _⟩ | ⟨k, begun, final, counts, others⟩
      · exact .inl none
      · rw [Nat.zero_add] at counts
        exact .inr ⟨k, begun, final, counts, others⟩

/-- The calls that a run stands for up to its last iteration, when it makes so many before. -/
def callsBefore (fit : Fit α σ n m) (made : Nat) : List (Request α) :=
  (if fit.prepared then [] else [.prepare]) ++ .replicate made .iterate

theorem run_final {fuel maxIterations : Nat} {call : Call α σ ε n m (RunSummary α)}
    {summary : RunSummary α} (ends : fit.run M fuel maxIterations = some call)
    (result : call.result = .ok summary) :
    summary.gradientNorm = call.fit.gradientNorm ∧ (summary.iterations = 0 ∨
      ∃ k begun final, summary.iterations = k + 1 ∧
        fit.performAll M fuel (fit.callsBefore k) = some begun ∧
        begun.iterate M fuel = some final ∧ final.result = .ok summary.status ∧
        call.fit = final.fit) := by
  rcases run_ended ends with ⟨prepared, found⟩ | ⟨_, ready, events, error, _, rfl⟩ |
    ⟨unprepared, ready, events, rest, prepares, found, rfl⟩
  · simp only [callsBefore, if_pos prepared, List.nil_append]
    exact runPrepared_final found result
  · cases result
  · have step : fit.perform M fuel .prepare = some ready := by
      rw [perform, prepares]
    simp only [callsBefore, if_neg (ne_true_of_eq_false unprepared), List.singleton_append,
      performAll, step, Option.bind_some]
    have succeeded : rest.result = .ok summary := result
    have last := runPrepared_final found succeeded
    exact last

/-! ## What is reported -/

/-- Every iteration that returns a status leaves the number of the parameters that are free where it
begins, and, if there is one, the norm of the gradient over them, for the derivatives that the model
answered with in that call. If there is none it leaves the norm that it found. The summary of a run
holds the norm that its last iteration leaves. -/
theorem measured_where_begun (M : Model α σ ε n m) (fit : Fit α σ n m) :
    (∀ fuel call status, fit.iterate M fuel = some call → call.result = .ok status →
      fit.Measures M call.fit) ∧
    ∀ fuel maxIterations call summary, fit.run M fuel maxIterations = some call →
      call.result = .ok summary → summary.gradientNorm = call.fit.gradientNorm ∧
      (summary.iterations ≠ 0 → ∃ k begun final, summary.iterations = k + 1 ∧
        fit.performAll M fuel (fit.callsBefore k) = some begun ∧
        begun.iterate M fuel = some final ∧ final.result = .ok summary.status ∧
        call.fit = final.fit ∧ begun.Measures M call.fit) := by
  constructor
  · intro fuel call status ends result
    exact iterate_measures ends result
  · intro fuel maxIterations call summary ends result
    obtain ⟨same, final⟩ := run_final ends result
    refine ⟨same, fun some => ?_⟩
    obtain ⟨k, begun, final, count, led, once, ended, left⟩ := final.resolve_left some
    refine ⟨k, begun, final, count, led, once, ended, left, ?_⟩
    rw [left]
    exact iterate_measures once ended

/-- Where the only parameter is stuck, the norm is the one from before it was; there is no gradient
that it could be the norm of. -/
theorem line_stale : ∃ (limited fit : Fit Float Unit 1 1) (call : Call Float Unit Empty 1 1 Status)
    (whole : Call Float Unit Empty 1 1 (RunSummary Float)) (summary : RunSummary Float),
    lineStart.setLimits none (some #[5.25]) = .ok limited ∧
    limited.performAll line 9 [.prepare, .iterate] = some fit ∧
    fit.iterate line 9 = some call ∧ call.result = .ok .allParametersAreStuck ∧
    fit.Measures line call.fit ∧ call.fit.freeCount = 0 ∧ 0 < call.fit.gradientNorm ∧
    limited.run line 9 9 = some whole ∧ whole.result = .ok summary ∧
    summary.status = .allParametersAreStuck ∧
    summary.gradientNorm = whole.fit.gradientNorm ∧ 0 < summary.gradientNorm := by
  have stale : ((lineStart.setLimits none (some #[5.25])).toOption.bind fun limited =>
      (limited.performAll line 9 [.prepare, .iterate]).bind fun fit =>
      (fit.iterate line 9).bind fun call => (limited.run line 9 9).map fun whole =>
        ((call.result.toOption, call.fit.freeCount, decide (0 < call.fit.gradientNorm)),
          whole.result.toOption.map fun summary =>
            (summary.status, decide (0 < summary.gradientNorm)))) =
      some ((some .allParametersAreStuck, 0, true), some (.allParametersAreStuck, true)) := by
    decide +kernel
  obtain ⟨limited, set, stale⟩ := Option.bind_eq_some_iff.mp stale
  obtain ⟨fit, led, stale⟩ := Option.bind_eq_some_iff.mp stale
  obtain ⟨call, ends, stale⟩ := Option.bind_eq_some_iff.mp stale
  obtain ⟨whole, found, stale⟩ := Option.map_eq_some_iff.mp stale
  obtain ⟨once, stale⟩ := Prod.mk.inj stale
  obtain ⟨result, once⟩ := Prod.mk.inj once
  obtain ⟨count, norm⟩ := Prod.mk.inj once
  obtain ⟨summary, done, stale⟩ := Option.map_eq_some_iff.mp stale
  obtain ⟨status, reported⟩ := Prod.mk.inj stale
  have result := ok_of_toOption result
  have done := ok_of_toOption done
  obtain ⟨same, _⟩ := (measured_where_begun line limited).2 9 9 whole summary found done
  exact ⟨limited, fit, call, whole, summary, ok_of_toOption set, led, ends, result,
    (measured_where_begun line fit).1 9 call _ ends result, count, of_decide_eq_true norm, found,
    done, status, same, of_decide_eq_true reported⟩

end LeastSquares.Fit

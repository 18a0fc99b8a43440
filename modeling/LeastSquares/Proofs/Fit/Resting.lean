import LeastSquares.Proofs.Fit.Interference
import LeastSquares.Proofs.Fit.Verdict

/-!
# Fits at rest

A fit does not remember that it is at a minimum or that all its parameters are stuck: every call
measures the gradient anew. An iteration that ends with one of these leaves all that the measurement
depends on as it was, and leaves what it measured. So the next one measures what the fit already
holds and comes to the same, and only the counters move from there on.
-/

set_option autoImplicit false

namespace LeastSquares

variable {α σ ε : Type} {n m : Nat}

def Request.iterates : Request α → Bool
  | iterate => true
  | _ => false

theorem Model.Stateless.failure {M : Model α σ ε n m} (stateless : M.Stateless) (state other : σ)
    (a : Vector α n) (buffer : DenseMatrix α m n) :
    (M.jacobian state a buffer).failure? = (M.jacobian other a buffer).failure? :=
  have same := congrArg Answer.failure? (stateless.jacobian state other a buffer)
  same

theorem Model.Stateless.buffer {M : Model α σ ε n m} (stateless : M.Stateless) (state other : σ)
    (a : Vector α n) (buffer : DenseMatrix α m n) :
    (M.jacobian state a buffer).buffer = (M.jacobian other a buffer).buffer :=
  have same := congrArg Answer.buffer (stateless.jacobian state other a buffer)
  same

namespace Fit

/-! ## Idle fits -/

/-- The later fit is the same but for the state of its model, and for so many more iterations and
calls for derivatives that it has counted. -/
def Idles (iterations calls : Nat) (fit later : Fit α σ n m) : Prop :=
  later = { fit with
    model := later.model
    iteration := fit.iteration + iterations
    jacobianCalls := fit.jacobianCalls + calls }

theorem Idles.refl (fit : Fit α σ n m) : fit.Idles 0 0 fit := rfl

theorem Idles.trans {iterations more calls others : Nat} {fit later last : Fit α σ n m}
    (first : fit.Idles iterations calls later) (second : later.Idles more others last) :
    fit.Idles (iterations + more) (calls + others) last := by
  rw [Idles] at first second ⊢
  rw [second, first, Nat.add_assoc, Nat.add_assoc]

theorem Idles.stays {iterations calls : Nat} {fit later : Fit α σ n m}
    (idles : fit.Idles iterations calls later) : fit.Stays later := by
  rw [Idles] at idles
  rw [idles]
  exact ⟨rfl, rfl, rfl, rfl, rfl, rfl, rfl, rfl⟩

/-! ## Iterations that change nothing -/

variable [Scalar α] [Products α]

/-- The fit holds what an iteration from here measures, and this ends the iteration with the status
before any trial step. -/
structure Rests (M : Model α σ ε n m) (status : Status) (fit : Fit α σ n m) : Prop where
  prepared : fit.prepared = true
  measures : fit.Measures M fit
  decided : status = .allParametersAreStuck ∧ fit.freeCount = 0 ∨
    status = .minimumFound ∧ fit.freeCount ≠ 0 ∧ fit.gradientNorm ≤ fit.criteria.minGradient

variable {M : Model α σ ε n m} {status : Status} {fit later : Fit α σ n m}

theorem Measures.stays (stateless : M.Stateless) (measures : fit.Measures M later)
    (stays : fit.Stays later) : later.Measures M later := by
  have asked : later.jacobianAnswer M = fit.jacobianAnswer M := by
    rw [jacobianAnswer, stays.parameters]
    exact stateless.buffer _ _ _ _
  constructor
  · rw [stays.parameters, stateless.failure later.model fit.model]
    exact measures.answered
  · rw [asked, measures.count]
    simp only [FreeParameter, stays.free]
  · by_cases none : later.freeCount = 0
    · rw [if_pos none]
    · have norm := measures.norm
      rw [if_neg none] at norm ⊢
      rw [norm, asked, stays.free, stays.gradient]

theorem Rests.idles (stateless : M.Stateless) (rests : fit.Rests M status)
    {iterations calls : Nat} (idles : fit.Idles iterations calls later) :
    later.Rests M status := by
  have stays := idles.stays
  have same : later.freeCount = fit.freeCount ∧ later.gradientNorm = fit.gradientNorm := by
    rw [Idles] at idles
    rw [idles]
    exact ⟨rfl, rfl⟩
  refine ⟨stays.prepared.trans rests.prepared, ?_, ?_⟩
  · exact (rests.measures.of_same same.1 same.2).stays stateless stays
  · rw [same.1, same.2, stays.criteria]
    exact rests.decided

theorem Rests.iterate (rests : fit.Rests M status) (fuel : Nat) :
    ∃ call, fit.iterate M fuel = some call ∧ call.result = .ok status ∧
      fit.Idles 1 1 call.fit := by
  let asked : Fit α σ n m := { fit with
    iteration := fit.iteration + 1
    model := (M.jacobian fit.model fit.parameters .zeros).state
    jacobianCalls := fit.jacobianCalls + 1 }
  let J := fit.jacobianAnswer M
  let advanced : Fit α σ n m := { fit with iteration := fit.iteration + 1 }
  have answered : (M.jacobian advanced.model advanced.parameters .zeros).failure? = none :=
    rests.measures.answered
  have answer : evaluateJacobian M { fit with iteration := fit.iteration + 1 } = (asked, .ok J) :=
    evaluateJacobian_of_answered answered
  have stays := (nextIteration_stays fit).trans (evaluateJacobian_stays answer)
  have count : (asked.counted J).freeCount = fit.freeCount := by
    rw [counted_freeCount, rests.measures.count]
    simp only [FreeParameter, stays.free, J]
  have counted : asked.counted J = asked := by
    have only : asked.counted J = { asked with freeCount := (asked.counted J).freeCount } := rfl
    rw [only, count]
  rw [Fit.iterate, if_pos rests.prepared]
  rcases rests.decided with ⟨rfl, none⟩ | ⟨rfl, some, small⟩
  · refine ⟨asked.conclude (asked.stuckEvents J) .allParametersAreStuck, ?_, rfl, rfl⟩
    simp only [linearize, answer, counted]
    rw [if_pos (show asked.freeCount = 0 from none)]
  · have norm : (asked.measured J).gradientNorm = fit.gradientNorm := by
      rw [rests.measures.norm, if_neg some, ← stays.free, ← stays.gradient]
      rfl
    have measured : asked.measured J = asked := by
      have only : asked.measured J =
        { asked with gradientNorm := (asked.measured J).gradientNorm } := rfl
      rw [only, norm]
    refine ⟨asked.conclude (asked.stuckEvents J) .minimumFound, ?_, rfl, rfl⟩
    simp only [linearize, answer, counted, measured]
    rw [if_neg (show asked.freeCount ≠ 0 from some),
      if_pos (show asked.gradientNorm ≤ asked.criteria.minGradient from small)]

theorem Rests.correlation (rests : fit.Rests M status) (budget : Nat) :
    fit.Idles 0 1 (fit.correlation M budget).fit ∧
      (Suffices budget fit.correlationBuffers →
        ∃ C, (fit.correlation M budget).result = .ok C) := by
  have answer := evaluateJacobian_of_answered rests.measures.answered
  rcases correlation_of_answer rests.prepared answer budget with ⟨_, served⟩ | ⟨none, starved⟩
  · rw [served]
    exact ⟨rfl, fun _ => ⟨_, rfl⟩⟩
  · rw [starved]
    exact ⟨rfl, fun room => absurd room none⟩

theorem Rests.perform (rests : fit.Rests M status) (fuel : Nat) {request : Request α}
    (only : request = .iterate ∨ ∃ budget, request = .correlation budget) :
    ∃ next, fit.perform M fuel request = some next ∧
      fit.Idles request.iterates.toNat 1 next := by
  rcases only with rfl | ⟨budget, rfl⟩
  · obtain ⟨call, ends, _, idles⟩ := rests.iterate fuel
    refine ⟨call.fit, ?_, idles⟩
    rw [Fit.perform, ends, Option.map_some]
  · exact ⟨_, rfl, (rests.correlation budget).1⟩

theorem Rests.performAll (stateless : M.Stateless) (rests : fit.Rests M status) (fuel : Nat)
    {requests : List (Request α)}
    (only : ∀ request ∈ requests, request = .iterate ∨ ∃ budget, request = .correlation budget) :
    ∃ last, fit.performAll M fuel requests = some last ∧
      fit.Idles (requests.countP Request.iterates) requests.length last := by
  induction requests generalizing fit with
  | nil => exact ⟨fit, rfl, .refl fit⟩
  | cons request rest ih =>
      obtain ⟨next, performed, idles⟩ := rests.perform fuel (only request List.mem_cons_self)
      obtain ⟨last, led, onward⟩ := ih (rests.idles stateless idles)
        fun later member => only later (List.mem_cons_of_mem _ member)
      refine ⟨last, ?_, ?_⟩
      · rw [Fit.performAll, performed, Option.bind_some, led]
      · have count : (request :: rest).countP Request.iterates =
            request.iterates.toNat + rest.countP Request.iterates := by
          rw [List.countP_cons, Nat.add_comm]
          cases request.iterates <;> rfl
        rw [count, List.length_cons, Nat.add_comm rest.length]
        exact idles.trans onward

/-! ## Where a minimum is found or nothing can move -/

theorem rests_of_iterate (stateless : M.Stateless) {fuel : Nat} {call : Call α σ ε n m Status}
    (ends : fit.iterate M fuel = some call) (result : call.result = .ok status)
    (final : status = .minimumFound ∨ status = .allParametersAreStuck) :
    call.fit.Rests M status := by
  have rests : status.tookStep = false := by
    rcases final with rfl | rfl <;> rfl
  have stays : fit.Stays call.fit := by
    rcases iterate_outcome ends with ⟨stays, _⟩ | ⟨_, _, _, _, _, other, _, _, _, known, took⟩
    · exact stays
    · cases result.symm.trans known
      rw [rests] at took
      cases took
  have measures := iterate_measures ends result
  have prepared : fit.prepared = true := by
    by_contra unprepared
    rw [iterate_unprepared (Bool.eq_false_iff.mpr unprepared)] at ends
    cases ends
    cases result
  refine ⟨stays.prepared.trans prepared, measures.stays stateless stays, ?_⟩
  have justified := (status_iff_justified ends result).1 status
  rcases final with rfl | rfl
  · obtain ⟨⟨p, free⟩, small⟩ := justified.mp rfl
    have some : call.fit.freeCount ≠ 0 := by
      rw [measures.count]
      exact (Fintype.card_pos_iff.mpr ⟨⟨p, free⟩⟩).ne'
    have norm := measures.norm
    rw [if_neg some] at norm
    refine .inr ⟨rfl, some, ?_⟩
    rw [norm, stays.criteria]
    exact small
  · have none := justifies_stuck_iff.mp (justified.mp rfl)
    refine .inl ⟨rfl, ?_⟩
    rw [measures.count, Fintype.card_eq_zero_iff, isEmpty_subtype]
    intro p
    rw [none p]
    exact Bool.false_ne_true

/-- Once an iteration of a model without a state has found a minimum, or that all parameters are
stuck, iterations and calls for the correlation in any number and order change nothing but the
counters and the state of the model. Any further iteration ends with the same status, and a call for
the correlation succeeds if there is memory for its buffers. -/
theorem performAll_idles_of_final (stateless : M.Stateless) {fuel : Nat}
    {call : Call α σ ε n m Status}
    (ends : fit.iterate M fuel = some call) (result : call.result = .ok status)
    (final : status = .minimumFound ∨ status = .allParametersAreStuck) (more : Nat)
    (requests : List (Request α))
    (only : ∀ request ∈ requests, request = .iterate ∨ ∃ budget, request = .correlation budget) :
    ∃ last, call.fit.performAll M more requests = some last ∧
      last = { call.fit with
        model := last.model
        iteration := call.fit.iteration + requests.countP Request.iterates
        jacobianCalls := call.fit.jacobianCalls + requests.length } ∧
      (∀ again, ∃ next, last.iterate M again = some next ∧ next.result = .ok status) ∧
      ∀ budget, Suffices budget last.correlationBuffers →
        ∃ C, (last.correlation M budget).result = .ok C := by
  have rests := rests_of_iterate stateless ends result final
  obtain ⟨last, led, idles⟩ := rests.performAll stateless more only
  have still := rests.idles stateless idles
  refine ⟨last, led, idles, fun again => ?_, ?_⟩
  · obtain ⟨next, ends, result, _⟩ := still.iterate again
    exact ⟨next, ends, result⟩
  · intro budget room
    exact (still.correlation budget).2 room

theorem line_stateless : line.Stateless :=
  ⟨fun _ _ _ _ => rfl, fun _ _ _ _ => rfl⟩

/-- A fit that stands still at its limit, and the same one where it began with a gradient that is
small enough. -/
theorem line_rests :
    (∃ fit call, lineStart.performAll line 9
        [.setLimits none (some #[5.25]), .prepare, .iterate] = some fit ∧
      fit.iterate line 9 = some call ∧ call.result = .ok .allParametersAreStuck ∧
      ∃ last, call.fit.performAll line 9 [.iterate, .correlation 3, .iterate] = some last ∧
        last.iteration = call.fit.iteration + 2 ∧ last.gradientNorm = call.fit.gradientNorm) ∧
    ∃ fit call, lineStart.performAll line 9
        [.setCriteria { StopCriteria.off with minGradient := 1 }, .prepare] = some fit ∧
      fit.iterate line 9 = some call ∧ call.result = .ok .minimumFound ∧
      ∃ last, call.fit.performAll line 9 [.iterate, .correlation 3, .iterate] = some last ∧
        last.iteration = call.fit.iteration + 2 ∧ last.parameters = call.fit.parameters := by
  have only : ∀ request ∈ [.iterate, .correlation 3, .iterate],
      request = .iterate ∨ ∃ budget, request = (.correlation budget : Request Float) := by
    simp
  constructor
  · have stuck : ((lineStart.performAll line 9
        [.setLimits none (some #[5.25]), .prepare, .iterate]).bind fun fit =>
        (fit.iterate line 9).map fun call => call.result.toOption) =
        some (some .allParametersAreStuck) := by
      decide +kernel
    obtain ⟨fit, led, stuck⟩ := Option.bind_eq_some_iff.mp stuck
    obtain ⟨call, ends, result⟩ := Option.map_eq_some_iff.mp stuck
    have result := ok_of_toOption result
    obtain ⟨last, onward, idles, _⟩ :=
      performAll_idles_of_final line_stateless ends result (.inr rfl) 9 _ only
    refine ⟨fit, call, led, ends, result, last, onward, ?_, ?_⟩
    · rw [idles]
      rfl
    · rw [idles]
  · have flat : ((lineStart.performAll line 9
        [.setCriteria { StopCriteria.off with minGradient := 1 }, .prepare]).bind fun fit =>
        (fit.iterate line 9).map fun call => call.result.toOption) =
        some (some .minimumFound) := by
      decide +kernel
    obtain ⟨fit, led, flat⟩ := Option.bind_eq_some_iff.mp flat
    obtain ⟨call, ends, result⟩ := Option.map_eq_some_iff.mp flat
    have result := ok_of_toOption result
    obtain ⟨last, onward, idles, _⟩ :=
      performAll_idles_of_final line_stateless ends result (.inl rfl) 9 _ only
    refine ⟨fit, call, led, ends, result, last, onward, ?_, ?_⟩
    · rw [idles]
      rfl
    · rw [idles]

end Fit

end LeastSquares

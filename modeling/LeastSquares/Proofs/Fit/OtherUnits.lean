import LeastSquares.Proofs.Fit.Affine
import LeastSquares.Proofs.Fit.Correlation
import LeastSquares.Proofs.Fit.Rescaling
import LeastSquares.Proofs.Fit.Simulation
import LeastSquares.Proofs.Fit.Throughout

/-!
# Sessions in other units

Rescaling the parameters is invisible. Let a fit be made without limits and without a bound on the
gradient, and let every Jacobian that is factored have full rank. Then a fit of the same model in
other units, from the same point, returns the same from every call and tells the same of every
trial, but for the norm of the gradient, and its parameters are those of the first fit in the other
units.
-/

set_option autoImplicit false

namespace LeastSquares

variable {σ ε ρ : Type} {n m : Nat}

def RunSummary.withGradient (g : ℝ) (summary : RunSummary ℝ) : RunSummary ℝ :=
  { summary with gradientNorm := g }

def Request.Plain : Request ℝ → Prop
  | .setCriteria criteria => criteria.minGradient = 0
  | .setLimits lower upper => lower = none ∧ upper = none
  | _ => True

/-- In the units `s` the other call leaves the same fit, and it tells and returns the same but for
norms of the gradient, which `hide` takes out of what is returned. -/
structure Call.AgreesInUnits (s : Vector ℝ n) (hide : ρ → ρ) (call other : Call ℝ σ ε n m ρ) :
    Prop where
  fit : ∃ g, other.fit = call.fit.inUnits s g
  events : other.events.map (Event.withGradient 0) = call.events.map (Event.withGradient 0)
  result : other.result.map hide = call.result.map hide

theorem hide_withGradient (g : ℝ) (events : List (Event ℝ)) :
    (events.map (Event.withGradient g)).map (Event.withGradient 0) =
      events.map (Event.withGradient 0) := by
  rw [List.map_map]
  apply List.map_congr_left
  intro event _
  cases event with
  | iteration report => rfl
  | log record => rfl
  | finish status => rfl

theorem Call.agrees_inUnits (s : Vector ℝ n) (g : ℝ) (hide : ρ → ρ) (call : Call ℝ σ ε n m ρ) :
    call.AgreesInUnits s hide (call.inUnits s g) where
  fit := ⟨g, rfl⟩
  events := hide_withGradient g call.events
  result := rfl

theorem Call.AgreesInUnits.after {s : Vector ℝ n} {hide : ρ → ρ} {call other : Call ℝ σ ε n m ρ}
    (agrees : call.AgreesInUnits s hide other) (g : ℝ) (events : List (Event ℝ)) :
    (call.after events).AgreesInUnits s hide (other.after (events.map (Event.withGradient g))) where
  fit := agrees.fit
  events := by
    simp only [Call.after, List.map_append, hide_withGradient, agrees.events]
  result := agrees.result

namespace Fit

variable {s : Vector ℝ n} {g : ℝ} {M : Model ℝ σ ε n m} {fit : Fit ℝ σ n m} {fuel : Nat}

/-! ## Correlations -/

theorem sensitivity_inUnits (fit : Fit ℝ σ n m) (J : DenseMatrix ℝ m n) (p : Fin n) (i : Fin m) :
    (fit.inUnits s g).sensitivity (J.timesUnits s) p i = fit.sensitivity J p i * s p := by
  rw [sensitivity, sensitivity, DenseMatrix.timesUnits, DenseMatrix.get_ofFn, mul_div_right_comm]
  rfl

theorem meanSensitivity_inUnits (fit : Fit ℝ σ n m) (J : DenseMatrix ℝ m n) (p : Fin n) :
    (fit.inUnits s g).meanSensitivity (J.timesUnits s) p = fit.meanSensitivity J p * s p := by
  have sums : (∑ i, if fit.active i then fit.sensitivity J p i * s p else 0) =
      (∑ i, if fit.active i then fit.sensitivity J p i else 0) * s p := by
    rw [Finset.sum_mul]
    apply Finset.sum_congr rfl
    intro i _
    rw [ite_mul, zero_mul]
  simp only [meanSensitivity, Scalar.addOver_real, sensitivity_inUnits, neg_zero, zero_add]
  rw [div_mul_eq_mul_div, ← sums]
  rfl

theorem gram_inUnits [Products ℝ] [Products.Exact] (fit : Fit ℝ σ n m)
    (J : DenseMatrix ℝ m n) (p q : Fin n) :
    ((fit.inUnits s g).gram (J.timesUnits s)).get p q =
      (fit.gram J).get p q * (s p * s q) := by
  rw [gram_eq_sum, gram_eq_sum, Finset.sum_mul]
  refine Finset.sum_congr rfl fun i _ => ?_
  rw [sensitivity_inUnits, sensitivity_inUnits, meanSensitivity_inUnits, meanSensitivity_inUnits,
    ← sub_mul, ← sub_mul, mul_mul_mul_comm]
  rfl

theorem correlations_inUnits (units : ∀ p, 0 < s p) {G H : DenseMatrix ℝ n n}
    (entries : ∀ p q, H.get p q = G.get p q * (s p * s q)) : correlations H = correlations G := by
  rw [correlations, correlations]
  congr 1
  funext p q
  have diagonal (p : Fin n) : 0 < H.get p p ↔ 0 < G.get p p := by
    rw [entries]
    exact mul_pos_iff_of_pos_right (mul_pos (units p) (units p))
  have product : 0 < s p * s q := mul_pos (units p) (units q)
  have root : √(H.get p p * H.get q q) = √(G.get p p * G.get q q) * (s p * s q) := by
    have squares : H.get p p * H.get q q =
        G.get p p * G.get q q * (s p * s q * (s p * s q)) := by
      rw [entries, entries]
      ring
    rw [squares, Real.sqrt_mul' _ (mul_self_nonneg _), Real.sqrt_mul_self product.le]
  simp only [diagonal, Scalar.sqrt_real, root, entries p q]
  rw [mul_div_mul_right _ _ product.ne']

/-! ## Single calls -/

theorem start_inUnits (s : Vector ℝ n) {model : σ} {parameters : Vector ℝ n} {target : Vector ℝ m}
    {sigma : Array ℝ} {begun : Fit ℝ σ n m}
    (started : Fit.start model parameters target sigma = .ok begun) :
    Fit.start model (LeastSquares.inUnits s parameters) target sigma =
      .ok (begun.inUnits s 0) := by
  have initial : (TrustRegion.initial : TrustRegion ℝ n).inUnits s = .initial := by
    have zeros : timesUnits s (Vector.replicate n 0) = Vector.replicate n 0 := by
      apply Vector.ext_get
      intro p
      rw [timesUnits_get, Vector.get_replicate, zero_mul]
    exact congrArg (fun scale => ({ TrustRegion.initial with scale } : TrustRegion ℝ n)) zeros
  have goes := start_elsewhere model (LeastSquares.inUnits s parameters) started
  obtain ⟨length, rfl⟩ := start_eq started
  simp only [inUnits, initial]
  exact goes

theorem setInequalities_inUnits (s : Vector ℝ n) (g : ℝ) (fit : Fit ℝ σ n m)
    (tags : Option (Array Inequality)) :
    (fit.inUnits s g).setInequalities tags =
      (fit.setInequalities tags).map (·.inUnits s g) := by
  have again : (fit.inUnits s g).prepared = fit.prepared := rfl
  simp only [setInequalities, bind, Except.bind]
  cases checkArgument "inequalities" m tags with
  | error error => rfl
  | ok tags =>
      simp only [again]
      by_cases prepared : fit.prepared = true
      · rw [if_pos prepared, if_pos prepared]
        rfl
      · rw [if_neg prepared, if_neg prepared]
        rfl

theorem setLimits_none (fit : Fit ℝ σ n m) :
    fit.setLimits none none = .ok { fit with limits := .unbounded } := by
  have ordered : (Limits.unbounded : Limits ℝ n).firstInverted? = none := by
    apply List.findSome?_eq_none_iff.mpr
    intro p _
    simp [Limits.inverted?, Limits.unbounded]
  have given : (Limits.ofVectors none none : Limits ℝ n) = .unbounded := rfl
  simp only [setLimits, checkArgument, bind, Except.bind, given, ordered]
  rfl

theorem clamp_unbounded (p : Fin n) (a : ℝ) : (Limits.unbounded : Limits ℝ n).clamp p a = a := by
  simp [Limits.clamp, Limits.unbounded]

theorem clamped_of_unbounded (limits : fit.limits = .unbounded) :
    fit.clamped = fit.parameters := by
  apply Vector.ext_get
  intro p
  rw [clamped, Vector.get_ofFn, limits, clamp_unbounded, ite_self]

theorem clampRecords_of_unbounded (limits : fit.limits = .unbounded) : fit.clampRecords = [] := by
  apply List.filterMap_eq_nil_iff.mpr
  intro p _
  rw [limits, clamp_unbounded]
  exact if_pos (beq_self_eq_true _)

theorem prepare_inUnits (units : ∀ p, 0 < s p) (limits : fit.limits = .unbounded)
    (M : Model ℝ σ ε n m) (g : ℝ) :
    (fit.inUnits s g).prepare (M.inUnits s) = (fit.prepare M).inUnits s g := by
  have again : (fit.inUnits s g).prepared = fit.prepared := rfl
  have otherLimits : (fit.inUnits s g).limits = .unbounded := limits
  have answers : (M.inUnits s).values (fit.inUnits s g).model (fit.inUnits s g).parameters
      (fit.inUnits s g).values = M.values fit.model fit.parameters fit.values := by
    simp only [inUnits, Model.inUnits, timesUnits_inUnits fun p => (units p).ne']
  simp only [prepare, again, clamped_of_unbounded otherLimits, clamped_of_unbounded limits,
    clampRecords_of_unbounded otherLimits, clampRecords_of_unbounded limits, answers]
  by_cases prepared : fit.prepared = true
  · rw [if_pos prepared, if_pos prepared]
    rfl
  · rw [if_neg prepared, if_neg prepared]
    cases (M.values fit.model fit.parameters fit.values).failure? with
    | none => rfl
    | some error => rfl

theorem correlation_inUnits [Products ℝ] [Products.Exact] (units : ∀ p, 0 < s p)
    (M : Model ℝ σ ε n m) (g : ℝ) (budget : Nat) (fit : Fit ℝ σ n m) :
    (fit.inUnits s g).correlation (M.inUnits s) budget =
      (fit.correlation M budget).inUnits s g := by
  have again : (fit.inUnits s g).prepared = fit.prepared := rfl
  simp only [correlation, again, evaluateJacobian_inUnits fun p => (units p).ne']
  by_cases prepared : fit.prepared = true
  · rw [if_pos prepared, if_pos prepared]
    cases fit.evaluateJacobian M with
    | mk asked result =>
        cases result with
        | error error => rfl
        | ok J =>
            have alike := correlations_inUnits units (gram_inUnits (g := g) asked J)
            have buffers : (asked.inUnits s g).correlationBuffers = asked.correlationBuffers := rfl
            simp only [Except.map, buffers, alike]
            cases checkBudget budget asked.correlationBuffers with
            | error error => rfl
            | ok room => rfl
  · rw [if_neg prepared, if_neg prepared]
    rfl

section Agreeing

variable [Products ℝ]

/-! ## Runs -/

theorem Plain.start {model : σ} {parameters : Vector ℝ n} {target : Vector ℝ m} {sigma : Array ℝ}
    (started : Fit.start model parameters target sigma = .ok fit) : Plain M fit where
  reachable := .start started
  limits := (start_fresh started).2
  minGradient := by
    obtain ⟨length, rfl⟩ := start_eq started
    rfl

theorem Plain.prepare (plain : Plain M fit) : Plain M (fit.prepare M).fit where
  reachable := plain.reachable.prepare
  limits := (prepare_limits M fit).trans plain.limits
  minGradient := by
    rcases fit.prepare_cases M with same | ⟨model, parameters, values, failed⟩ |
      ⟨model, parameters, values, ready⟩
    · rw [same]
      exact plain.minGradient
    · rw [failed]
      exact plain.minGradient
    · rw [ready]
      exact plain.minGradient

theorem Plain.iterate (plain : Plain M fit) {call : Call ℝ σ ε n m Status}
    (ends : fit.iterate M fuel = some call) : Plain M call.fit where
  reachable := plain.reachable.iterate ends
  limits := (iterate_settings ends).1.trans plain.limits
  minGradient := by
    rw [(iterate_settings ends).2]
    exact plain.minGradient

section Runs

variable [Products.Exact] (units : ∀ p, 0 < s p)

include units

theorem iterateUpTo_agrees {left made : Nat} {status : Status} (plain : Plain M fit)
    (throughout : iterateThroughout M fuel (FullRank M) left fit)
    (otherThroughout : iterateThroughout (M.inUnits s) fuel (FullRank (M.inUnits s)) left
      (fit.inUnits s g)) :
    Option.Rel (Call.AgreesInUnits s id) (iterateUpTo M fuel left made status fit)
      (iterateUpTo (M.inUnits s) fuel left made status (fit.inUnits s g)) := by
  induction left generalizing made status fit g with
  | zero => exact .some ⟨⟨g, rfl⟩, rfl, rfl⟩
  | succ left ih =>
      obtain ⟨full, onward⟩ := throughout
      obtain ⟨otherFull, otherOnward⟩ := otherThroughout
      obtain ⟨g', same⟩ := iterate_inUnits units plain full otherFull
      have iterates := (same fuel).1
      rw [iterateUpTo, iterateUpTo]
      cases once : fit.iterate M fuel with
      | none =>
          rw [once] at iterates
          rw [iterates]
          exact .none
      | some call =>
          rw [once] at iterates
          rw [iterates]
          obtain ⟨next, events, result⟩ := call
          cases result with
          | error error => exact .some ⟨⟨g', rfl⟩, hide_withGradient g' events, rfl⟩
          | ok status =>
              simp only [Option.map_some, Call.inUnits]
              cases terminal : status.isTerminal with
              | true => exact .some ⟨⟨g', rfl⟩, hide_withGradient g' events, rfl⟩
              | false =>
                  have goes := onward next events status once terminal
                  have otherGoes := otherOnward _ _ status iterates terminal
                  apply rel_map (ih (plain.iterate once) goes otherGoes)
                  intro call other agrees
                  exact agrees.after g' events

theorem runPrepared_agrees {maxIterations : Nat} (plain : Plain M fit)
    (throughout : iterateThroughout M fuel (FullRank M) maxIterations fit)
    (otherThroughout : iterateThroughout (M.inUnits s) fuel (FullRank (M.inUnits s)) maxIterations
      (fit.inUnits s g)) :
    Option.Rel (Call.AgreesInUnits s (RunSummary.withGradient 0))
      (fit.runPrepared M fuel maxIterations)
      ((fit.inUnits s g).runPrepared (M.inUnits s) fuel maxIterations) := by
  apply rel_map (iterateUpTo_agrees units plain throughout otherThroughout)
  rintro ⟨last, events, result⟩ ⟨otherLast, otherEvents, otherResult⟩ agrees
  obtain ⟨g', same⟩ := agrees.fit
  have results : otherResult = result := by
    have mapped := agrees.result
    rw [Except.map_id] at mapped
    exact mapped
  subst same results
  cases otherResult with
  | error error => exact ⟨⟨g', rfl⟩, agrees.events, rfl⟩
  | ok made =>
      refine ⟨⟨g', rfl⟩, ?_, rfl⟩
      simp only [List.map_append]
      rw [agrees.events]

theorem run_agrees {maxIterations : Nat} (plain : Plain M fit)
    (throughout : runThroughout M fuel (FullRank M) maxIterations fit)
    (otherThroughout : runThroughout (M.inUnits s) fuel (FullRank (M.inUnits s)) maxIterations
      (fit.inUnits s g)) :
    Option.Rel (Call.AgreesInUnits s (RunSummary.withGradient 0)) (fit.run M fuel maxIterations)
      ((fit.inUnits s g).run (M.inUnits s) fuel maxIterations) := by
  have prepares := prepare_inUnits units plain.limits M g
  rw [run, run]
  cases prepared : fit.prepared with
  | true =>
      have otherPrepared : (fit.inUnits s g).prepared = true := prepared
      rw [if_pos rfl, if_pos otherPrepared]
      exact runPrepared_agrees units plain (throughout.1 prepared) (otherThroughout.1 otherPrepared)
  | false =>
      have otherUnprepared : (fit.inUnits s g).prepared = false := prepared
      have begun := plain.prepare
      rw [if_neg Bool.false_ne_true, if_neg (ne_true_of_eq_false otherUnprepared)]
      cases ready : fit.prepare M with
      | mk next events result =>
          rw [ready] at prepares begun
          rw [prepares]
          cases result with
          | error error => exact .some ⟨⟨g, rfl⟩, hide_withGradient g events, rfl⟩
          | ok done =>
              have goes := throughout.2 prepared next events ready
              have otherGoes := otherThroughout.2 otherUnprepared _ _ prepares
              apply rel_map (runPrepared_agrees units begun goes otherGoes)
              intro call other agrees
              exact agrees.after g events

end Runs

/-! ## Sessions -/

theorem Plain.perform (plain : Plain M fit) {request : Request ℝ} (asks : request.Plain)
    {next : Fit ℝ σ n m} (performed : fit.perform M fuel request = some next) : Plain M next := by
  cases request with
  | setCriteria criteria =>
      cases performed
      exact ⟨plain.reachable.setCriteria criteria, plain.limits, asks⟩
  | setLimits lower upper =>
      obtain ⟨rfl, rfl⟩ := asks
      rw [Fit.perform, setLimits_none] at performed
      cases performed
      exact ⟨plain.reachable.setLimits (setLimits_none fit), rfl, plain.minGradient⟩
  | setInequalities tags =>
      cases performed
      cases set : fit.setInequalities tags with
      | error error => exact plain
      | ok next =>
          refine ⟨plain.reachable.setInequalities set,
            (setInequalities_limits set).trans plain.limits, ?_⟩
          obtain ⟨targets, rfl⟩ := setInequalities_eq set
          split
          · exact plain.minGradient
          · exact plain.minGradient
  | prepare =>
      cases performed
      exact plain.prepare
  | iterate =>
      obtain ⟨call, ends, rfl⟩ := Option.map_eq_some_iff.mp performed
      exact plain.iterate ends
  | run maxIterations =>
      obtain ⟨call, ends, rfl⟩ := Option.map_eq_some_iff.mp performed
      exact run_keeps (fun _ known => known.prepare) (fun _ _ known _ once => known.iterate once)
        plain (runThroughout_of_always (fun _ => trivial) maxIterations fit) ends
  | correlation budget =>
      cases performed
      have stays := correlation_stays M budget fit
      exact ⟨plain.reachable.correlation budget, stays.limits.trans plain.limits,
        (congrArg StopCriteria.minGradient stays.criteria).trans plain.minGradient⟩

/-- The other fit is this one in the units `s`, and answers alike: it tells and returns the same but
for norms of the gradient, and leaves the same in these units. Of the iterations that try steps with
a factored Jacobian this is said if both Jacobians have full rank. -/
structure AnswersInUnits (s : Vector ℝ n) (M : Model ℝ σ ε n m) (fit other : Fit ℝ σ n m) :
    Prop where
  same : ∃ g, other = fit.inUnits s g
  prepare : (fit.prepare M).AgreesInUnits s id (other.prepare (M.inUnits s))
  correlation : ∀ budget, (fit.correlation M budget).AgreesInUnits s id
    (other.correlation (M.inUnits s) budget)
  iterate : FullRank M fit → FullRank (M.inUnits s) other → ∀ fuel,
    Option.Rel (Call.AgreesInUnits s id) (fit.iterate M fuel) (other.iterate (M.inUnits s) fuel)
  reports : FullRank M fit → FullRank (M.inUnits s) other → ∀ fuel,
    (other.iterateReports (M.inUnits s) fuel).map (·.withGradient 0) =
      (fit.iterateReports M fuel).map (·.withGradient 0)
  run : ∀ fuel maxIterations, runThroughout M fuel (FullRank M) maxIterations fit →
    runThroughout (M.inUnits s) fuel (FullRank (M.inUnits s)) maxIterations other →
    Option.Rel (Call.AgreesInUnits s (RunSummary.withGradient 0)) (fit.run M fuel maxIterations)
      (other.run (M.inUnits s) fuel maxIterations)

theorem Plain.answers [Products.Exact] (plain : Plain M fit) (units : ∀ p, 0 < s p) (g : ℝ) :
    fit.AnswersInUnits s M (fit.inUnits s g) where
  same := ⟨g, rfl⟩
  prepare := by
    rw [prepare_inUnits units plain.limits]
    exact Call.agrees_inUnits s g id _
  correlation budget := by
    rw [correlation_inUnits units]
    exact Call.agrees_inUnits s g id _
  iterate full otherFull fuel := by
    obtain ⟨g', same⟩ := iterate_inUnits units plain full otherFull
    rw [(same fuel).1]
    cases fit.iterate M fuel with
    | none => exact .none
    | some call => exact .some (Call.agrees_inUnits s g' id call)
  reports full otherFull fuel := by
    obtain ⟨g', same⟩ := iterate_inUnits units plain full otherFull
    rw [(same fuel).2, List.map_map]
    rfl
  run fuel maxIterations throughout otherThroughout :=
    run_agrees units plain throughout otherThroughout

section Sessions

variable [Products.Exact] (units : ∀ p, 0 < s p)

include units

theorem perform_inUnits (plain : Plain M fit) {request : Request ℝ} (asks : request.Plain)
    (throughout : performThroughout M fuel (FullRank M) fit request)
    (otherThroughout : performThroughout (M.inUnits s) fuel (FullRank (M.inUnits s))
      (fit.inUnits s g) request) :
    Option.Rel (fun next other => ∃ g, other = next.inUnits s g) (fit.perform M fuel request)
      ((fit.inUnits s g).perform (M.inUnits s) fuel request) := by
  cases request with
  | setCriteria criteria => exact .some ⟨g, rfl⟩
  | setLimits lower upper =>
      obtain ⟨rfl, rfl⟩ := asks
      rw [perform, perform, setLimits_none, setLimits_none]
      exact .some ⟨g, rfl⟩
  | setInequalities tags =>
      rw [perform, perform, setInequalities_inUnits]
      cases fit.setInequalities tags with
      | error error => exact .some ⟨g, rfl⟩
      | ok next => exact .some ⟨g, rfl⟩
  | prepare =>
      rw [perform, perform, prepare_inUnits units plain.limits]
      exact .some ⟨g, rfl⟩
  | iterate =>
      obtain ⟨g', same⟩ := iterate_inUnits units plain throughout otherThroughout
      rw [perform, perform, (same fuel).1]
      cases fit.iterate M fuel with
      | none => exact .none
      | some call => exact .some ⟨g', rfl⟩
  | run maxIterations =>
      apply rel_map (run_agrees units plain throughout otherThroughout)
      intro call other agrees
      exact agrees.fit
  | correlation budget =>
      rw [perform, perform, correlation_inUnits units]
      exact .some ⟨g, rfl⟩

theorem performAll_inUnits {requests : List (Request ℝ)} (plain : Plain M fit)
    (asks : ∀ request ∈ requests, request.Plain)
    (throughout : Throughout M fuel (FullRank M) requests fit)
    (otherThroughout : Throughout (M.inUnits s) fuel (FullRank (M.inUnits s)) requests
      (fit.inUnits s g)) :
    Option.Rel (AnswersInUnits s M) (fit.performAll M fuel requests)
      ((fit.inUnits s g).performAll (M.inUnits s) fuel requests) := by
  induction requests generalizing fit g with
  | nil => exact .some (plain.answers units g)
  | cons request rest ih =>
      obtain ⟨here, onward⟩ := throughout
      obtain ⟨otherHere, otherOnward⟩ := otherThroughout
      have asked := asks request List.mem_cons_self
      apply rel_bind (perform_inUnits units plain asked here otherHere)
      rintro next _ performed otherPerformed ⟨g', rfl⟩
      exact ih (plain.perform asked performed)
        (fun later member => asks later (List.mem_cons_of_mem _ member))
        (onward next performed) (otherOnward _ otherPerformed)

end Sessions

end Agreeing

/-- Rescaling the parameters is invisible. Without limits and without a bound on the gradient, a fit
of the model in other units, begun at the same point, goes through any session as the original one
does, and every further call agrees as well, as long as all Jacobians that the two sessions factor
have full rank. -/
theorem session_rescaled [Products ℝ] [Products.Exact] {s : Vector ℝ n} (units : ∀ p, 0 < s p)
    (M : Model ℝ σ ε n m) (fuel : Nat) {model : σ} {parameters : Vector ℝ n} {target : Vector ℝ m}
    {sigma : Array ℝ} {begun : Fit ℝ σ n m}
    (started : Fit.start model parameters target sigma = .ok begun)
    {requests : List (Request ℝ)} (plain : ∀ request ∈ requests, request.Plain)
    (throughout : Throughout M fuel (FullRank M) requests begun)
    (otherThroughout : Throughout (M.inUnits s) fuel (FullRank (M.inUnits s)) requests
      (begun.inUnits s 0)) :
    Fit.start model (LeastSquares.inUnits s parameters) target sigma = .ok (begun.inUnits s 0) ∧
    Option.Rel (AnswersInUnits s M) (begun.performAll M fuel requests)
      ((begun.inUnits s 0).performAll (M.inUnits s) fuel requests) := by
  have fresh : Plain M begun := .start started
  exact ⟨start_inUnits s started,
    performAll_inUnits units fresh plain throughout otherThroughout⟩

/-! ## One parameter -/

theorem Plain.fullRank_of_one [Products ℝ] [Products.Exact] {M : Model ℝ σ ε 1 1}
    {fit : Fit ℝ σ 1 1} (plain : Plain M fit) : FullRank M fit := by
  intro _ first L tries
  have small : (Reduction.tolerance (max 1 1) 1 : ℝ) < 1 := Reduction.tolerance_lt_one (by decide)
  have factors := tries.problem.2.factors first
  have column : (fit.padded (fit.jacobianAnswer M)).col 0 ≠ 0 := by
    intro zero
    apply tries.padded_steep plain.minGradient.ge
    funext p
    rw [Subsingleton.elim p 0]
    change (fit.padded (fit.jacobianAnswer M)).col 0 ⬝ᵥ fit.weightedResidual.get = 0
    rw [zero, zero_dotProduct]
  have found : 0 < L.factor.rank := factors.rank_pos small column
  have bound := L.factor.rank_le_cols
  omega

theorem Gauge.returns : ∃ call, gauged.iterate (gauge id) 1 = some call := by
  obtain ⟨first, L, tries⟩ := Gauge.tries id
  obtain ⟨nothing, innerNothing⟩ := Gauge.discarded tries
  have equal (i : Fin 1) : gauged.targets.tags i = .equal := get_singleton _ i
  obtain ⟨_, _, accepted⟩ := tries.accepts_affine (Gauge.reachable rfl) rfl nothing
    (fun _ => innerNothing) gauge_affine equal rfl le_rfl
  obtain ⟨_, takes⟩ := accepted _ _ rfl
  obtain ⟨call, _, ends, _⟩ := takes 0
  exact ⟨call, ends⟩

theorem gauged_rescaled : ∃ last other,
    Gauge.unprepared.performAll (gauge id) 1 [.prepare, .iterate] = some last ∧
    (Gauge.unprepared.inUnits (Vector.replicate 1 2) 0).performAll
      ((gauge id).inUnits (Vector.replicate 1 2)) 1 [.prepare, .iterate] = some other ∧
    last.AnswersInUnits (Vector.replicate 1 2) (gauge id) other := by
  have units (p : Fin 1) : (0 : ℝ) < (Vector.replicate 1 2 : Vector ℝ 1) p := by
    rw [Vector.get_replicate]
    exact two_pos
  have plain (request : Request ℝ) (asked : request ∈ [Request.prepare, Request.iterate]) :
      request.Plain := by
    simp only [List.mem_cons, List.not_mem_nil, or_false] at asked
    rcases asked with rfl | rfl
    · trivial
    · trivial
  have throughout {M : Model ℝ Unit Empty 1 1} {fit : Fit ℝ Unit 1 1} (begun : Plain M fit) :
      Throughout M 1 (FullRank M) [.prepare, .iterate] fit := by
    refine ⟨trivial, fun next performed => ⟨?_, fun _ _ => trivial⟩⟩
    cases performed
    exact begun.prepare.fullRank_of_one
  have other := start_inUnits (Vector.replicate 1 2) Gauge.starts
  obtain ⟨-, related⟩ := session_rescaled units (gauge id) 1 Gauge.starts plain
    (throughout (.start Gauge.starts)) (throughout (.start other))
  obtain ⟨call, ends⟩ := Gauge.returns
  have led : Gauge.unprepared.performAll (gauge id) 1 [.prepare, .iterate] = some call.fit := by
    change (((Gauge.unprepared.prepare (gauge id)).fit.iterate (gauge id) 1).map (·.fit)).bind _ = _
    rw [Gauge.prepares rfl, ends]
    rfl
  rw [led] at related
  generalize (Gauge.unprepared.inUnits (Vector.replicate 1 2) 0).performAll
    ((gauge id).inUnits (Vector.replicate 1 2)) 1 [.prepare, .iterate] = reached at related ⊢
  cases related with
  | some answers => exact ⟨_, _, led, rfl, answers⟩

end Fit

end LeastSquares

import LeastSquares.Proofs.Fit.Requests

/-!
# Models that answer alike

A model simulates another if it answers alike: `view` reads the state of the other off its own,
where it may keep more. Every call on a fit then does the same with either model, and leaves fits
that differ in the state of the model only. The number of calls for derivatives that a fit has
counted makes no difference either: it is carried along, and the summary of a run tells it.
-/

set_option autoImplicit false

namespace LeastSquares

variable {α σ τ ε β ρ : Type} {n m : Nat}

def Answer.mapState (view : τ → σ) (answer : Answer τ ε β) : Answer σ ε β :=
  { answer with state := view answer.state }

/-- `N` answers as `M` does in the state that `view` reads off its own. -/
structure Model.Simulates (N : Model α τ ε n m) (M : Model α σ ε n m) (view : τ → σ) : Prop where
  values (state : τ) (a : Vector α n) (buffer : Vector α m) :
    M.values (view state) a buffer = (N.values state a buffer).mapState view
  jacobian (state : τ) (a : Vector α n) (buffer : DenseMatrix α m n) :
    M.jacobian (view state) a buffer = (N.jacobian state a buffer).mapState view

def Fit.mapModel (view : τ → σ) (fit : Fit α τ n m) : Fit α σ n m :=
  { fit with model := view fit.model }

def Fit.viewed (view : τ → σ) (extra : Nat) (fit : Fit α τ n m) : Fit α σ n m :=
  { fit with model := view fit.model, jacobianCalls := fit.jacobianCalls + extra }

def Call.viewed (view : τ → σ) (extra : Nat) (call : Call α τ ε n m ρ) : Call α σ ε n m ρ :=
  { call with fit := call.fit.viewed view extra }

def Prospect.viewed (view : τ → σ) (extra : Nat) : Prospect α τ ε n m → Prospect α σ ε n m
  | .settled call => .settled (call.viewed view extra)
  | .ready fit events problem => .ready (fit.viewed view extra) events problem

def Trial.viewed (view : τ → σ) (extra : Nat) : Trial α τ ε n m → Trial α σ ε n m
  | .settled call => .settled (call.viewed view extra)
  | .rejected fit events => .rejected (fit.viewed view extra) events

def Call.mapResult {β : Type} (f : ρ → β) (call : Call α σ ε n m ρ) : Call α σ ε n m β :=
  { fit := call.fit, events := call.events, result := call.result.map f }

def RunSummary.counting (extra : Nat) (summary : RunSummary α) : RunSummary α :=
  { summary with jacobianCalls := summary.jacobianCalls + extra }

/-! ## Calls that may not return -/

theorem rel_of_map_eq {β γ δ : Type} {R : β → γ → Prop} {f : β → δ} {g : γ → δ} {first : Option β}
    {second : Option γ} (same : first.map f = second.map g) (each : ∀ a b, f a = g b → R a b) :
    Option.Rel R first second := by
  cases first with
  | none =>
      cases second with
      | none => exact .none
      | some value => cases same
  | some value =>
      cases second with
      | none => cases same
      | some other => exact .some (each value other (Option.some.inj same))

theorem rel_map {β γ β' γ' : Type} {R : β → γ → Prop} {R' : β' → γ' → Prop} {f : β → β'}
    {g : γ → γ'} {first : Option β} {second : Option γ} (related : Option.Rel R first second)
    (each : ∀ a b, R a b → R' (f a) (g b)) : Option.Rel R' (first.map f) (second.map g) := by
  cases related with
  | none => exact .none
  | some related => exact .some (each _ _ related)

theorem rel_bind {β γ β' γ' : Type} {R : β → γ → Prop} {R' : β' → γ' → Prop} {f : β → Option β'}
    {g : γ → Option γ'} {first : Option β} {second : Option γ} (related : Option.Rel R first second)
    (each : ∀ a b, first = some a → second = some b → R a b → Option.Rel R' (f a) (g b)) :
    Option.Rel R' (first.bind f) (second.bind g) := by
  cases related with
  | none => exact .none
  | some related => exact each _ _ rfl rfl related

namespace Fit

variable {N : Model α τ ε n m} {M : Model α σ ε n m} {view : τ → σ}

/-! ## Calls of the model -/

theorem evaluateAt_viewed (same : N.Simulates M view) (extra : Nat) (fit : Fit α τ n m)
    (a : Vector α n) :
    (fit.viewed view extra).evaluateAt M a =
      ((fit.evaluateAt N a).1.viewed view extra, (fit.evaluateAt N a).2) := by
  have answers := same.values fit.model a fit.spare
  simp only [evaluateAt, viewed, answers, Answer.mapState]
  cases (N.values fit.model a fit.spare).failure? with
  | none => rfl
  | some error => rfl

variable [Scalar α]

theorem evaluateJacobian_viewed (same : N.Simulates M view) (extra : Nat) (fit : Fit α τ n m) :
    (fit.viewed view extra).evaluateJacobian M =
      ((fit.evaluateJacobian N).1.viewed view extra, (fit.evaluateJacobian N).2) := by
  have answers := same.jacobian fit.model fit.parameters .zeros
  simp only [evaluateJacobian, viewed, answers, Answer.mapState]
  cases (N.jacobian fit.model fit.parameters .zeros).failure? with
  | none => rw [Nat.add_right_comm]
  | some error => rfl

theorem prepare_viewed (same : N.Simulates M view) (extra : Nat) (fit : Fit α τ n m) :
    (fit.viewed view extra).prepare M = (fit.prepare N).viewed view extra := by
  have again : (fit.viewed view extra).prepared = fit.prepared := rfl
  have answers : M.values (fit.viewed view extra).model (fit.viewed view extra).clamped
      (fit.viewed view extra).values = (N.values fit.model fit.clamped fit.values).mapState view :=
    same.values fit.model fit.clamped fit.values
  simp only [prepare, again, answers, Answer.mapState]
  by_cases prepared : fit.prepared = true
  · rw [if_pos prepared, if_pos prepared]
    rfl
  · rw [if_neg prepared, if_neg prepared]
    cases (N.values fit.model fit.clamped fit.values).failure? with
    | none => rfl
    | some error => rfl

theorem correlation_viewed [Products α] (same : N.Simulates M view) (extra budget : Nat)
    (fit : Fit α τ n m) :
    (fit.viewed view extra).correlation M budget =
      (fit.correlation N budget).viewed view extra := by
  have again : (fit.viewed view extra).prepared = fit.prepared := rfl
  simp only [correlation, again]
  by_cases prepared : fit.prepared = true
  · rw [if_pos prepared, if_pos prepared, evaluateJacobian_viewed same extra]
    cases fit.evaluateJacobian N with
    | mk asked result =>
      cases result with
      | error error => rfl
      | ok J =>
        have buffers : (asked.viewed view extra).correlationBuffers =
            asked.correlationBuffers := rfl
        simp only [buffers]
        cases checkBudget budget asked.correlationBuffers with
        | error error => rfl
        | ok room => rfl
  · rw [if_neg prepared, if_neg prepared]
    rfl

/-! ## Setters -/

theorem setLimits_viewed (view : τ → σ) (extra : Nat) (fit : Fit α τ n m)
    (lower upper : Option (Array α)) :
    (fit.viewed view extra).setLimits lower upper =
      (fit.setLimits lower upper).map (·.viewed view extra) := by
  simp only [setLimits, bind, Except.bind]
  cases checkArgument "a_min" n lower with
  | error error => rfl
  | ok lower =>
      cases checkArgument "a_max" n upper with
      | error error => rfl
      | ok upper =>
          simp only
          cases (Limits.ofVectors lower upper).firstInverted? with
          | none => rfl
          | some inverted => rfl

theorem setInequalities_viewed (view : τ → σ) (extra : Nat) (fit : Fit α τ n m)
    (tags : Option (Array Inequality)) :
    (fit.viewed view extra).setInequalities tags =
      (fit.setInequalities tags).map (·.viewed view extra) := by
  have again : (fit.viewed view extra).prepared = fit.prepared := rfl
  simp only [setInequalities, bind, Except.bind]
  cases checkArgument "inequalities" m tags with
  | error error => rfl
  | ok tags =>
      simp only [again]
      by_cases prepared : fit.prepared = true
      · rw [if_pos prepared, if_pos prepared]
        rfl
      · rw [if_neg prepared, if_neg prepared]
        rfl

/-! ## Iterations -/

theorem linearize_viewed [Products α] (same : N.Simulates M view) (extra : Nat)
    (fit : Fit α τ n m) :
    linearize M (fit.viewed view extra) = (linearize N fit).viewed view extra := by
  simp only [linearize, evaluateJacobian_viewed same extra]
  cases fit.evaluateJacobian N with
  | mk asked result =>
      cases result with
      | error error => rfl
      | ok J =>
          let measured := (asked.counted J).measured J
          by_cases none : (asked.counted J).freeCount = 0
          · simp only [if_pos none]
            exact if_pos none
          · simp only [if_neg none]
            by_cases small : measured.gradientNorm ≤ measured.criteria.minGradient
            · rw [if_pos small]
              exact (if_neg none).trans (if_pos small)
            · rw [if_neg small]
              exact (if_neg none).trans (if_neg small)

theorem judge_viewed (view : τ → σ) (extra : Nat) (L : Linearization α n m)
    (proposal : Proposal α n) (fit : Fit α τ n m) (values : Vector α m) :
    (judge L proposal (fit.viewed view extra) values : Trial α σ ε n m) =
      (judge L proposal fit values).viewed view extra := by
  simp only [judge]
  by_cases better : fit.chiSquareAt values < fit.chiSquare
  · rw [if_pos better]
    exact if_pos better
  · rw [if_neg better]
    refine (if_neg better).trans ?_
    by_cases collapsed : (fit.adapted L proposal values).collapsed = true
    · rw [if_pos collapsed]
      exact if_pos collapsed
    · rw [if_neg collapsed]
      exact if_neg collapsed

theorem trial_viewed (same : N.Simulates M view) (extra : Nat) (L : Linearization α n m)
    (fit : Fit α τ n m) :
    (fit.viewed view extra).trial M L = (fit.trial N L).viewed view extra := by
  have again : (fit.viewed view extra).propose L = fit.propose L := rfl
  simp only [trial, again]
  cases fit.propose L with
  | error error => rfl
  | ok proposal =>
      have asks : ((fit.viewed view extra).proposed proposal).evaluateAt M proposal.move.next = _ :=
        evaluateAt_viewed same extra (fit.proposed proposal) proposal.move.next
      simp only [asks]
      cases (fit.proposed proposal).evaluateAt N proposal.move.next with
      | mk asked result =>
          cases result with
          | error error => rfl
          | ok values => exact judge_viewed view extra L proposal asked values

theorem trials_viewed (same : N.Simulates M view) (extra : Nat) (L : Linearization α n m)
    (fuel : Nat) (fit : Fit α τ n m) :
    trials M L fuel (fit.viewed view extra) = (trials N L fuel fit).map (·.viewed view extra) := by
  induction fuel generalizing fit with
  | zero => rfl
  | succ fuel ih =>
      rw [trials, trials, trial_viewed same extra L fit]
      cases fit.trial N L with
      | settled call => rfl
      | rejected next events =>
          simp only [Trial.viewed, ih, Option.map_map]
          rfl

variable [Products α]

theorem iterate_viewed (same : N.Simulates M view) (extra fuel : Nat) (fit : Fit α τ n m) :
    (fit.viewed view extra).iterate M fuel = (fit.iterate N fuel).map (·.viewed view extra) := by
  have linear := linearize_viewed same extra { fit with iteration := fit.iteration + 1 }
  rw [iterate, iterate]
  by_cases prepared : fit.prepared = true
  · rw [if_pos prepared]
    refine (if_pos prepared).trans ?_
    change (match linearize M (viewed view extra { fit with iteration := fit.iteration + 1 }) with
      | .settled call => _
      | .ready fit events problem => _) = _
    rw [linear]
    cases linearize N { fit with iteration := fit.iteration + 1 } with
    | settled call => rfl
    | ready first events problem =>
        simp only [Prospect.viewed, trials_viewed same extra, Option.map_map]
        rfl
  · rw [if_neg prepared]
    exact if_neg prepared

/-! ## Runs -/

theorem iterateUpTo_viewed (same : N.Simulates M view) (extra fuel left made : Nat)
    (status : Status) (fit : Fit α τ n m) :
    iterateUpTo M fuel left made status (fit.viewed view extra) =
      (iterateUpTo N fuel left made status fit).map (·.viewed view extra) := by
  induction left generalizing made status fit with
  | zero => rfl
  | succ left ih =>
      rw [iterateUpTo, iterateUpTo, iterate_viewed same extra]
      cases fit.iterate N fuel with
      | none => rfl
      | some call =>
          obtain ⟨next, events, result⟩ := call
          cases result with
          | error error => rfl
          | ok status =>
              simp only [Option.map_some, Call.viewed]
              by_cases finished : status.isTerminal = true
              · rw [if_pos finished, if_pos finished]
                rfl
              · rw [if_neg finished, if_neg finished, ih, Option.map_map, Option.map_map]
                rfl

theorem runPrepared_viewed (same : N.Simulates M view) (extra fuel maxIterations : Nat)
    (fit : Fit α τ n m) :
    (fit.viewed view extra).runPrepared M fuel maxIterations =
      (fit.runPrepared N fuel maxIterations).map fun call =>
        (call.viewed view extra).mapResult (RunSummary.counting extra) := by
  rw [runPrepared, runPrepared, iterateUpTo_viewed same extra, Option.map_map, Option.map_map]
  congr 1
  funext call
  obtain ⟨last, events, result⟩ := call
  cases result with
  | error error => rfl
  | ok made => rfl

theorem run_viewed (same : N.Simulates M view) (extra fuel maxIterations : Nat)
    (fit : Fit α τ n m) :
    (fit.viewed view extra).run M fuel maxIterations =
      (fit.run N fuel maxIterations).map fun call =>
        (call.viewed view extra).mapResult (RunSummary.counting extra) := by
  rw [run, run]
  by_cases prepared : fit.prepared = true
  · rw [if_pos prepared, ← runPrepared_viewed same extra]
    exact if_pos prepared
  · rw [if_neg prepared, prepare_viewed same extra]
    refine (if_neg prepared).trans ?_
    cases fit.prepare N with
    | mk ready events result =>
        cases result with
        | error error => rfl
        | ok done =>
            simp only [Call.viewed, runPrepared_viewed same extra, Option.map_map]
            rfl

/-! ## Sessions -/

theorem perform_viewed (same : N.Simulates M view) (extra fuel : Nat) (request : Request α)
    (fit : Fit α τ n m) :
    (fit.viewed view extra).perform M fuel request =
      (fit.perform N fuel request).map (·.viewed view extra) := by
  cases request with
  | setCriteria criteria => rfl
  | setLimits lower upper =>
      rw [perform, perform, setLimits_viewed]
      cases fit.setLimits lower upper with
      | error error => rfl
      | ok next => rfl
  | setInequalities tags =>
      rw [perform, perform, setInequalities_viewed]
      cases fit.setInequalities tags with
      | error error => rfl
      | ok next => rfl
  | prepare =>
      rw [perform, perform, prepare_viewed same extra]
      rfl
  | iterate =>
      rw [perform, perform, iterate_viewed same extra, Option.map_map, Option.map_map]
      rfl
  | run maxIterations =>
      rw [perform, perform, run_viewed same extra, Option.map_map, Option.map_map]
      rfl
  | correlation budget =>
      rw [perform, perform, correlation_viewed same extra]
      rfl

theorem performAll_viewed (same : N.Simulates M view) (extra fuel : Nat)
    (requests : List (Request α)) (fit : Fit α τ n m) :
    (fit.viewed view extra).performAll M fuel requests =
      (fit.performAll N fuel requests).map (·.viewed view extra) := by
  induction requests generalizing fit with
  | nil => rfl
  | cons request rest ih =>
      rw [performAll, performAll, perform_viewed same]
      cases fit.perform N fuel request with
      | none => rfl
      | some next => exact ih next

theorem performAll_simulated (same : N.Simulates M view) {fuel : Nat} {requests : List (Request α)}
    {fit : Fit α τ n m} {last : Fit α σ n m}
    (led : (fit.mapModel view).performAll M fuel requests = some last) :
    ∃ other, fit.performAll N fuel requests = some other ∧ other.mapModel view = last := by
  have alike := (performAll_viewed same 0 fuel requests fit).symm.trans led
  exact Option.map_eq_some_iff.mp alike

end Fit

end LeastSquares

import LeastSquares.Proofs.Fit.Failure
import LeastSquares.Proofs.Fit.Trace

/-!
# What a fit counts

A fit counts the calls of its model that succeeded and the iterations that were made since it was
prepared. A logged model keeps every call that is made of it, with its outcome, so that the counters
can be compared with the calls; and the preparations and iterations that a session makes, those of
whole runs among them, tell whether a fit is prepared and how many iterations it counts.
-/

set_option autoImplicit false

namespace LeastSquares

variable {α σ ε β : Type} {n m : Nat}

/-! ## Logged models -/

inductive ModelCall where
  | values (succeeded : Bool)
  | jacobian (succeeded : Bool)
deriving DecidableEq

structure Logged (σ : Type) where
  state : σ
  calls : List ModelCall

def Answer.succeeded (answer : Answer σ ε β) : Bool := answer.failure?.isNone

def Model.logged (M : Model α σ ε n m) : Model α (Logged σ) ε n m where
  values logged a buffer :=
    let answer := M.values logged.state a buffer
    answer.mapState fun state => { state, calls := logged.calls ++ [.values answer.succeeded] }
  jacobian logged a buffer :=
    let answer := M.jacobian logged.state a buffer
    answer.mapState fun state => { state, calls := logged.calls ++ [.jacobian answer.succeeded] }

theorem Model.logged_simulates (M : Model α σ ε n m) : M.logged.Simulates M Logged.state :=
  ⟨fun _ _ _ => rfl, fun _ _ _ => rfl⟩

theorem Model.logged_values (M : Model α σ ε n m) (logged : Logged σ) (a : Vector α n)
    (buffer : Vector α m) : (M.logged.values logged a buffer).state.calls =
      logged.calls ++ [.values (M.logged.values logged a buffer).failure?.isNone] :=
  rfl

theorem Model.logged_jacobian (M : Model α σ ε n m) (logged : Logged σ) (a : Vector α n)
    (buffer : DenseMatrix α m n) : (M.logged.jacobian logged a buffer).state.calls =
      logged.calls ++ [.jacobian (M.logged.jacobian logged a buffer).failure?.isNone] :=
  rfl

namespace Fit

def logging (fit : Fit α σ n m) : Fit α (Logged σ) n m :=
  fit.mapModel fun state => { state, calls := [] }

/-- The counters of a fit are the numbers of calls in the log of its model that succeeded. -/
structure Tallied (fit : Fit α (Logged σ) n m) : Prop where
  values : fit.valueCalls = fit.model.calls.count (.values true)
  jacobians : fit.jacobianCalls = fit.model.calls.count (.jacobian true)

variable {M : Model α σ ε n m} {fit asked : Fit α (Logged σ) n m}

theorem Tallied.evaluateAt {a : Vector α n} {result : Except ε (Vector α m)}
    (tallied : fit.Tallied) (answer : fit.evaluateAt M.logged a = (asked, result)) :
    asked.Tallied := by
  have logs := M.logged_values fit.model a fit.spare
  simp only [Fit.evaluateAt] at answer
  split at answer
  · rename_i failed
    cases answer
    constructor
    · simp [logs, failed, tallied.values]
    · simp [logs, tallied.jacobians]
  · rename_i succeeded
    cases answer
    constructor
    · simp [logs, succeeded, tallied.values]
    · simp [logs, tallied.jacobians]

variable [Scalar α]

theorem Tallied.evaluateJacobian {result : Except ε (DenseMatrix α m n)} (tallied : fit.Tallied)
    (answer : fit.evaluateJacobian M.logged = (asked, result)) : asked.Tallied := by
  have logs := M.logged_jacobian fit.model fit.parameters .zeros
  simp only [Fit.evaluateJacobian] at answer
  split at answer
  · rename_i failed
    cases answer
    constructor
    · simp [logs, tallied.values]
    · simp [logs, failed, tallied.jacobians]
  · rename_i succeeded
    cases answer
    constructor
    · simp [logs, tallied.values]
    · simp [logs, succeeded, tallied.jacobians]

theorem Tallied.prepare (tallied : fit.Tallied) : (fit.prepare M.logged).fit.Tallied := by
  have logs := M.logged_values fit.model fit.clamped fit.values
  cases prepared : fit.prepared with
  | true =>
      rw [prepare_refused prepared]
      exact tallied
  | false =>
      obtain ⟨answer, answers, ⟨error, failed, _, left⟩ | ⟨succeeded, _, left⟩⟩ :=
        prepare_outcome M.logged prepared
      · rw [answers] at logs
        rw [left]
        constructor
        · simp [logs, failed, tallied.values]
        · simp [logs, tallied.jacobians]
      · rw [answers] at logs
        rw [left]
        constructor
        · simp [refresh, logs, succeeded, tallied.values]
        · simp [refresh, logs, tallied.jacobians]

theorem Tallied.linearize [Products α] (tallied : fit.Tallied) :
    (linearize M.logged fit).fit.Tallied := by
  have asks : (fit.evaluateJacobian M.logged).1.Tallied :=
    tallied.evaluateJacobian (Prod.eta _).symm
  rw [linearize_fit]
  exact ⟨asks.values, asks.jacobians⟩

theorem Tallied.trial (tallied : fit.Tallied) (L : Linearization α n m) :
    (fit.trial M.logged L).fit.Tallied := by
  have proposed (proposal : Proposal α n) : (fit.proposed proposal).Tallied :=
    ⟨tallied.values, tallied.jacobians⟩
  rcases fit.trial_cases M.logged L with ⟨error, _, failed⟩ |
    ⟨proposal, asked, error, _, answer, failed⟩ | ⟨proposal, asked, values, _, answer, judged⟩
  · rw [failed]
    exact tallied
  · rw [failed]
    exact (proposed proposal).evaluateAt answer
  · have asks := (proposed proposal).evaluateAt answer
    rw [judged]
    rcases asked.judge_cases (ε := ε) L proposal values with ⟨_, status, settled⟩ |
      ⟨_, _, settled⟩ | ⟨_, _, again⟩
    · rw [settled]
      exact ⟨asks.values, asks.jacobians⟩
    · rw [settled]
      exact ⟨asks.values, asks.jacobians⟩
    · rw [again]
      exact ⟨asks.values, asks.jacobians⟩

theorem Tallied.correlation [Products α] (tallied : fit.Tallied) (budget : Nat) :
    (fit.correlation M.logged budget).fit.Tallied :=
  correlation_keeps Tallied budget tallied fun answer => tallied.evaluateJacobian answer

theorem Tallied.perform [Products α] {fuel : Nat} {request : Request α} {later : Fit α
    (Logged σ) n m}
    (tallied : fit.Tallied) (performed : fit.perform M.logged fuel request = some later) :
    later.Tallied := by
  refine perform_keeps (I := Tallied) ?_ ?_ ?_ ?_ ?_ ?_ tallied performed
  · intro fit criteria tallied
    exact ⟨tallied.values, tallied.jacobians⟩
  · intro lower upper _ fit next tallied set
    obtain ⟨limits, rfl⟩ := setLimits_eq set
    exact ⟨tallied.values, tallied.jacobians⟩
  · intro tags _ fit next tallied set
    obtain ⟨targets, rfl⟩ := setInequalities_eq set
    split
    · exact ⟨tallied.values, tallied.jacobians⟩
    · exact ⟨tallied.values, tallied.jacobians⟩
  · intro fit tallied
    exact tallied.prepare
  · intro fit call tallied ends
    refine iterate_keeps Tallied ?_ ?_ ?_ tallied ends
    · intro fit tallied
      exact ⟨tallied.values, tallied.jacobians⟩
    · intro fit tallied
      exact tallied.linearize
    · intro L fit tallied
      exact tallied.trial L
  · intro fit budget tallied
    exact tallied.correlation budget

/-! ## Preparations and iterations -/

end Fit

/-- A preparation or an iteration that a session makes, be it as part of a run. -/
inductive Deed where
  | prepare (succeeded : Bool)
  | iterate
deriving DecidableEq

def Deed.advance : Bool × Nat → Deed → Bool × Nat
  | (prepared, iterations), prepare succeeded => (prepared || succeeded, iterations)
  | (prepared, iterations), iterate => (prepared, iterations + prepared.toNat)

theorem Deed.foldl_advance_prepared (deeds : List Deed) (iterations : Nat) :
    deeds.foldl Deed.advance (true, iterations) = (true, iterations + deeds.count .iterate) := by
  induction deeds generalizing iterations with
  | nil => rfl
  | cons deed rest ih =>
      cases deed with
      | prepare succeeded =>
          rw [List.foldl_cons, Deed.advance, Bool.true_or, ih]
          simp
      | iterate =>
          rw [List.foldl_cons, Deed.advance, ih, List.count_cons_self]
          simp
          omega

theorem Deed.foldl_advance_unprepared (deeds : List Deed) (iterations : Nat) :
    deeds.foldl Deed.advance (false, iterations) = (decide (.prepare true ∈ deeds),
      iterations + (deeds.dropWhile (· != .prepare true)).count .iterate) := by
  induction deeds generalizing iterations with
  | nil => rfl
  | cons deed rest ih =>
      cases deed with
      | prepare succeeded =>
          cases succeeded with
          | true =>
              rw [List.foldl_cons, Deed.advance, Bool.false_or, foldl_advance_prepared]
              simp
          | false =>
              rw [List.foldl_cons, Deed.advance, Bool.false_or, ih]
              simp
      | iterate =>
          rw [List.foldl_cons, Deed.advance, ih]
          simp

namespace Fit

/-- The later fit is prepared and has counted iterations as these deeds tell. -/
def Progresses (fit later : Fit α σ n m) (deeds : List Deed) : Prop :=
  (later.prepared, later.iteration) = deeds.foldl Deed.advance (fit.prepared, fit.iteration)

theorem Progresses.trans {fit middle later : Fit α σ n m} {first second : List Deed}
    (before : fit.Progresses middle first) (after : middle.Progresses later second) :
    fit.Progresses later (first ++ second) := by
  rw [Progresses, List.foldl_append, ← before]
  exact after

theorem progresses_nil {fit later : Fit α σ n m} (prepared : later.prepared = fit.prepared)
    (iteration : later.iteration = fit.iteration) : fit.Progresses later [] := by
  rw [Progresses, prepared, iteration]
  rfl

variable [Scalar α]

section Deeds

variable [Products α] (M : Model α σ ε n m)

def iteratesDeeds (fuel : Nat) : (left : Nat) → Fit α σ n m → List Deed
  | 0, _ => []
  | left + 1, fit =>
    .iterate :: match fit.iterate M fuel with
      | some { fit, events := _, result := .ok status } =>
          if status.isTerminal then [] else iteratesDeeds fuel left fit
      | _ => []

def runDeeds (fuel maxIterations : Nat) (fit : Fit α σ n m) : List Deed :=
  if fit.prepared then fit.iteratesDeeds M fuel maxIterations
  else
    match fit.prepare M with
    | { fit := _, events := _, result := .error _ } => [.prepare false]
    | { fit, events := _, result := .ok () } =>
      .prepare true :: fit.iteratesDeeds M fuel maxIterations

def performDeeds (fuel : Nat) (request : Request α) (fit : Fit α σ n m) : List Deed :=
  match request with
  | .prepare => [.prepare (fit.prepare M).result.isOk]
  | .iterate => [.iterate]
  | .run maxIterations => fit.runDeeds M fuel maxIterations
  | _ => []

/-- The preparations and iterations of a session, in order. -/
def deeds (fuel : Nat) : List (Request α) → Fit α σ n m → List Deed
  | [], _ => []
  | request :: rest, fit =>
    fit.performDeeds M fuel request ++
      match fit.perform M fuel request with
      | none => []
      | some next => deeds fuel rest next

end Deeds

section Progress

variable {M : Model α σ ε n m} {fuel : Nat}

theorem prepare_progresses (M : Model α σ ε n m) (fit : Fit α σ n m) :
    fit.Progresses (fit.prepare M).fit [.prepare (fit.prepare M).result.isOk] := by
  cases prepared : fit.prepared with
  | true =>
      rw [prepare_refused prepared, Progresses, prepared]
      exact Prod.ext prepared rfl
  | false =>
      obtain ⟨answer, _, ⟨error, _, failed, left⟩ | ⟨_, succeeded, left⟩⟩ :=
        prepare_outcome M prepared
      · rw [Progresses, left, failed, prepared]
        rfl
      · rw [Progresses, left, succeeded, prepared]
        rfl

variable [Products α]

theorem linearize_iteration (M : Model α σ ε n m) (fit : Fit α σ n m) :
    (linearize M fit).fit.iteration = fit.iteration := by
  have asks := congrArg Fit.iteration (evaluateJacobian_fit M fit)
  exact (congrArg Fit.iteration (linearize_fit M fit)).trans asks

theorem iterate_counted {fit : Fit α σ n m} {call : Call α σ ε n m Status}
    (prepared : fit.prepared = true) (ends : fit.iterate M fuel = some call) :
    call.fit.iteration = fit.iteration + 1 := by
  have begun := linearize_iteration M { fit with iteration := fit.iteration + 1 }
  rcases iterate_ended ends with ⟨unprepared, _⟩ | ⟨_, prospect⟩ |
    ⟨_, first, events, L, rest, prospect, found, rfl⟩
  · rw [prepared] at unprepared
    cases unprepared
  · rw [prospect] at begun
    exact begun
  · rw [prospect] at begun
    have tried := trialsReports_tried (M := M) (L := L) fuel first
    rw [trialsWithin_eq found] at tried
    exact tried.iteration.trans begun

theorem iterate_progresses {fit : Fit α σ n m} {call : Call α σ ε n m Status}
    (ends : fit.iterate M fuel = some call) : fit.Progresses call.fit [.iterate] := by
  have kept := (iterateReports_iterated M fuel fit).prepared
  rw [iterateWithin_eq ends] at kept
  cases prepared : fit.prepared with
  | true =>
      rw [Progresses, kept, iterate_counted prepared ends, prepared]
      rfl
  | false =>
      rw [iterate_unprepared prepared] at ends
      cases ends
      rw [Progresses, prepared]
      exact Prod.ext prepared rfl

theorem Looped.progresses {left made : Nat} {status : Status} {fit : Fit α σ n m}
    {call : Call α σ ε n m (Status × Nat)} (loops : Looped M fuel left made status fit call) :
    fit.Progresses call.fit (fit.iteratesDeeds M fuel left) := by
  induction loops with
  | idle => exact progresses_nil rfl rfl
  | failed once =>
      rw [iteratesDeeds, once]
      exact iterate_progresses once
  | ended once terminal =>
      simp only [iteratesDeeds, once, if_pos terminal]
      exact iterate_progresses once
  | onward once goes _ ih =>
      simp only [iteratesDeeds, once, if_neg (ne_true_of_eq_false goes)]
      exact (iterate_progresses once).trans ih

theorem runPrepared_progresses {maxIterations : Nat} {fit : Fit α σ n m}
    {call : Call α σ ε n m (RunSummary α)}
    (ends : fit.runPrepared M fuel maxIterations = some call) :
    fit.Progresses call.fit (fit.iteratesDeeds M fuel maxIterations) := by
  obtain ⟨made, found, rfl⟩ := Option.map_eq_some_iff.mp ends
  have progress := (iterateUpTo_looped found).progresses
  split
  · exact progress
  · exact progress

theorem run_progresses {maxIterations : Nat} {fit : Fit α σ n m}
    {call : Call α σ ε n m (RunSummary α)} (ends : fit.run M fuel maxIterations = some call) :
    fit.Progresses call.fit (fit.runDeeds M fuel maxIterations) := by
  rw [runDeeds]
  have first := prepare_progresses M fit
  rcases run_ended ends with ⟨prepared, loops⟩ | ⟨unprepared, ready, events, error, failed, rfl⟩ |
    ⟨unprepared, ready, events, rest, begun, found, rfl⟩
  · rw [if_pos prepared]
    exact runPrepared_progresses loops
  · rw [if_neg (ne_true_of_eq_false unprepared), failed]
    rw [failed] at first
    exact first
  · rw [if_neg (ne_true_of_eq_false unprepared), begun]
    rw [begun] at first
    have onward : ready.Progresses rest.fit _ := runPrepared_progresses found
    exact first.trans onward

theorem perform_progresses {request : Request α} {fit next : Fit α σ n m}
    (performed : fit.perform M fuel request = some next) :
    fit.Progresses next (fit.performDeeds M fuel request) := by
  cases request with
  | setCriteria criteria =>
      cases performed
      exact progresses_nil rfl rfl
  | setLimits lower upper =>
      cases performed
      cases set : fit.setLimits lower upper with
      | error error => exact progresses_nil rfl rfl
      | ok next =>
          obtain ⟨limits, rfl⟩ := setLimits_eq set
          exact progresses_nil rfl rfl
  | setInequalities tags =>
      cases performed
      cases set : fit.setInequalities tags with
      | error error => exact progresses_nil rfl rfl
      | ok next =>
          obtain ⟨targets, rfl⟩ := setInequalities_eq set
          change fit.Progresses (ite _ _ _) []
          split
          · exact progresses_nil rfl rfl
          · exact progresses_nil rfl rfl
  | prepare =>
      cases performed
      exact prepare_progresses M fit
  | iterate =>
      obtain ⟨call, ends, rfl⟩ := Option.map_eq_some_iff.mp performed
      exact iterate_progresses ends
  | run maxIterations =>
      obtain ⟨call, ends, rfl⟩ := Option.map_eq_some_iff.mp performed
      exact run_progresses ends
  | correlation budget =>
      cases performed
      have stays := correlation_stays M budget fit
      apply progresses_nil stays.prepared
      refine correlation_keeps (·.iteration = fit.iteration) budget rfl fun answer => ?_
      rw [evaluateJacobian_eq answer]

theorem performAll_progresses {requests : List (Request α)} {fit last : Fit α σ n m}
    (led : fit.performAll M fuel requests = some last) :
    fit.Progresses last (fit.deeds M fuel requests) := by
  induction requests generalizing fit with
  | nil =>
      cases led
      exact progresses_nil rfl rfl
  | cons request rest ih =>
      obtain ⟨next, performed, led⟩ := Option.bind_eq_some_iff.mp led
      rw [deeds, performed]
      exact (perform_progresses performed).trans (ih led)

end Progress

/-! ## Calls that are refused -/

section Refusals

variable (M : Model α σ ε n m) (fuel : Nat) (fit : Fit α σ n m)

theorem prepare_refused_iff :
    (fit.prepare M).result = .error .alreadyPrepared ↔ fit.prepared = true := by
  cases prepared : fit.prepared with
  | true =>
      rw [prepare_refused prepared]
      simp [Call.fail]
  | false =>
      obtain ⟨answer, _, ⟨error, _, failed, _⟩ | ⟨_, succeeded, _⟩⟩ := prepare_outcome M prepared
      · simp [failed]
      · simp [succeeded]

variable [Products α]

theorem iterate_refused_iff :
    (∃ call, fit.iterate M fuel = some call ∧ call.result = .error .notPrepared) ↔
      fit.prepared = false := by
  constructor
  · rintro ⟨call, ends, refused⟩
    by_contra ready
    have prepared : fit.prepared = true := Bool.not_eq_false _ ▸ ready
    rcases iterate_error prepared ends refused with ⟨own, other⟩ | ⟨_, _, _, _, other, _⟩
    · cases other
    · cases other
  · intro unprepared
    exact ⟨_, iterate_unprepared unprepared, rfl⟩

theorem correlation_refused_iff (budget : Nat) :
    (fit.correlation M budget).result = .error .notPrepared ↔ fit.prepared = false := by
  rcases fit.correlation_cases M budget with ⟨unprepared, refused⟩ | ⟨prepared,
    ⟨_, _, _, failed⟩ | ⟨_, _, _, ⟨_, served⟩ | ⟨_, starved⟩⟩⟩
  · simp [refused, unprepared, Call.fail]
  · simp [failed, prepared, Call.fail]
  · simp [served, prepared]
  · simp [starved, prepared, Call.fail]

/-- The calls of the model that requests make, in order, those of a call that is not over among
them. -/
def modelCalls (requests : List (Request α)) : List ModelCall :=
  (fit.logging.performAllWithin M.logged fuel requests).model.calls

theorem modelCalls_of_kept {request : Request α}
    (kept : fit.logging.perform M.logged fuel request = some fit.logging) :
    fit.modelCalls M fuel [request] = [] := by
  rw [modelCalls, performAllWithin_singleton, performWithin_eq kept]
  rfl

variable {M fit}

theorem iterate_refused {call : Call α σ ε n m Status} (ends : fit.iterate M fuel = some call)
    (refused : call.result = .error .notPrepared) :
    call = .fail fit [] .notPrepared ∧ fit.modelCalls M fuel [.iterate] = [] := by
  have unprepared := (iterate_refused_iff M fuel fit).mp ⟨call, ends, refused⟩
  have idle : fit.logging.prepared = false := unprepared
  rw [iterate_unprepared unprepared] at ends
  cases ends
  refine ⟨rfl, modelCalls_of_kept M fuel fit ?_⟩
  rw [perform, iterate_unprepared idle]
  rfl

theorem correlation_refused {budget : Nat}
    (refused : (fit.correlation M budget).result = .error .notPrepared) :
    fit.correlation M budget = .fail fit [] .notPrepared ∧
      fit.modelCalls M fuel [.correlation budget] = [] := by
  have unprepared := (correlation_refused_iff M fit budget).mp refused
  have idle : fit.logging.prepared = false := unprepared
  refine ⟨correlation_unprepared unprepared, modelCalls_of_kept M fuel fit ?_⟩
  rw [perform, correlation_unprepared idle]
  rfl

theorem prepare_repeated (refused : (fit.prepare M).result = .error .alreadyPrepared) :
    fit.prepare M = .fail fit [] .alreadyPrepared ∧ fit.modelCalls M fuel [.prepare] = [] := by
  have prepared := (prepare_refused_iff M fit).mp refused
  have ready : fit.logging.prepared = true := prepared
  refine ⟨prepare_refused prepared, modelCalls_of_kept M fuel fit ?_⟩
  rw [perform, prepare_refused ready]
  rfl

end Refusals

/-! ## Sessions -/

section Sessions

variable {M : Model α σ ε n m} {model : σ} {parameters : Vector α n} {target : Vector α m}
  {sigma : Array α} {first fit : Fit α σ n m} {fuel : Nat} {requests : List (Request α)}

theorem start_tallied (started : Fit.start model parameters target sigma = .ok first) :
    first.logging.Tallied ∧ first.iteration = 0 := by
  obtain ⟨length, rfl⟩ := start_eq started
  exact ⟨⟨rfl, rfl⟩, rfl⟩

variable [Products α]

theorem performAll_tallied (started : Fit.start model parameters target sigma = .ok first)
    (led : first.performAll M fuel requests = some fit) :
    fit.valueCalls = (first.modelCalls M fuel requests).count (.values true) ∧
      fit.jacobianCalls = (first.modelCalls M fuel requests).count (.jacobian true) := by
  have begun : first.logging.mapModel Logged.state = first := rfl
  rw [← begun] at led
  obtain ⟨logged, found, rfl⟩ := performAll_simulated M.logged_simulates led
  have tallied : logged.Tallied := by
    apply performAll_keeps _ (start_tallied started).1 found
    intro request _ fit next tallied performed
    exact tallied.perform performed
  rw [modelCalls, performAllWithin_eq found]
  exact ⟨tallied.values, tallied.jacobians⟩

theorem performAll_deeds (started : Fit.start model parameters target sigma = .ok first)
    (led : first.performAll M fuel requests = some fit) :
    fit.prepared = decide (.prepare true ∈ first.deeds M fuel requests) ∧
      fit.iteration =
        ((first.deeds M fuel requests).dropWhile (· != .prepare true)).count .iterate := by
  have progress := performAll_progresses led
  rw [Progresses, (start_fresh started).1, (start_tallied started).2,
    Deed.foldl_advance_unprepared, Nat.zero_add] at progress
  exact Prod.mk.inj progress

/-- In every session, the counters of a fit are the numbers of calls of its model that succeeded and
of iterations that were made once it was prepared. Iterating and correlating are refused just if no
preparation has succeeded, and preparing just if one has; what is refused changes nothing and does
not call the model. -/
theorem session_counts (started : Fit.start model parameters target sigma = .ok first)
    (led : first.performAll M fuel requests = some fit) :
    fit.valueCalls = (first.modelCalls M fuel requests).count (.values true) ∧
    fit.jacobianCalls = (first.modelCalls M fuel requests).count (.jacobian true) ∧
    fit.iteration =
      ((first.deeds M fuel requests).dropWhile (· != .prepare true)).count .iterate ∧
    (∀ more, (∃ call, fit.iterate M more = some call ∧ call.result = .error .notPrepared) ↔
      .prepare true ∉ first.deeds M fuel requests) ∧
    (∀ budget, (fit.correlation M budget).result = .error .notPrepared ↔
      .prepare true ∉ first.deeds M fuel requests) ∧
    ((fit.prepare M).result = .error .alreadyPrepared ↔
      .prepare true ∈ first.deeds M fuel requests) ∧
    (∀ more call, fit.iterate M more = some call → call.result = .error .notPrepared →
      call = .fail fit [] .notPrepared ∧ fit.modelCalls M more [.iterate] = []) ∧
    (∀ budget, (fit.correlation M budget).result = .error .notPrepared →
      fit.correlation M budget = .fail fit [] .notPrepared ∧
        fit.modelCalls M fuel [.correlation budget] = []) ∧
    ((fit.prepare M).result = .error .alreadyPrepared →
      fit.prepare M = .fail fit [] .alreadyPrepared ∧ fit.modelCalls M fuel [.prepare] = []) := by
  obtain ⟨values, jacobians⟩ := performAll_tallied started led
  obtain ⟨prepared, iteration⟩ := performAll_deeds started led
  have ready : fit.prepared = true ↔ .prepare true ∈ first.deeds M fuel requests := by
    rw [prepared, decide_eq_true_iff]
  have unready : fit.prepared = false ↔ .prepare true ∉ first.deeds M fuel requests := by
    rw [prepared, decide_eq_false_iff_not]
  refine ⟨values, jacobians, iteration, ?_, ?_, ?_, ?_, ?_, ?_⟩
  · intro more
    exact (iterate_refused_iff M more fit).trans unready
  · intro budget
    exact (correlation_refused_iff M fit budget).trans unready
  · exact (prepare_refused_iff M fit).trans ready
  · intro more call ends refused
    exact iterate_refused more ends refused
  · intro budget refused
    exact correlation_refused fuel refused
  · exact prepare_repeated fuel

end Sessions

/-- The model of one point whose value is the square of the parameter, and which fails at every
third call, the first one included. -/
def moody : Model Float Nat Unit 1 1 where
  values calls a _ :=
    { state := calls + 1
      buffer := a.map fun x => x * x
      failure? := if calls % 3 = 0 then some () else none }
  jacobian calls a _ :=
    { state := calls + 1
      buffer := .ofFn fun _ p => a p + a p
      failure? := if calls % 3 = 0 then some () else none }

def moodyStart : Fit Float Nat 1 1 := { lineStart with model := 0 }

/-- A preparation that fails, an iteration that is refused, a run that prepares the fit and fails,
iterations that fail and succeed, a preparation that is refused, and correlations for which the
model or the memory fails. -/
def moodySession : List (Request Float) :=
  [.prepare, .iterate, .run 2, .correlation 0, .iterate, .iterate, .prepare, .correlation 3]

theorem moody_counts : ∃ fit,
    Fit.start 0 #v[(5 : Float)] #v[(8 : Float)] #[(2 : Float)] = .ok moodyStart ∧
    moodyStart.performAll moody 20 moodySession = some fit ∧
    moodyStart.deeds moody 20 moodySession = [.prepare false, .iterate, .prepare true, .iterate,
      .iterate, .iterate, .prepare false] ∧
    fit.valueCalls = 2 ∧ fit.jacobianCalls = 4 ∧ fit.iteration = 3 ∧
    (fit.prepare moody).result = .error .alreadyPrepared := by
  have started : Fit.start 0 #v[(5 : Float)] #v[(8 : Float)] #[(2 : Float)] = .ok moodyStart :=
    start_model 0 lineStart_started
  have ended : (moodyStart.performAll moody 20 moodySession).isSome = true := by decide +kernel
  have deeds : moodyStart.deeds moody 20 moodySession = [.prepare false, .iterate, .prepare true,
      .iterate, .iterate, .iterate, .prepare false] := by
    decide +kernel
  have calls : (moodyStart.modelCalls moody 20 moodySession).count (.values true) = 2 ∧
      (moodyStart.modelCalls moody 20 moodySession).count (.jacobian true) = 4 := by
    decide +kernel
  obtain ⟨fit, led⟩ := Option.isSome_iff_exists.mp ended
  obtain ⟨values, jacobians, iteration, _, _, refused, _⟩ := session_counts started led
  rw [calls.1] at values
  rw [calls.2] at jacobians
  rw [deeds] at iteration refused
  exact ⟨fit, started, led, deeds, values, jacobians, iteration, refused.mpr (by decide)⟩

end Fit

end LeastSquares

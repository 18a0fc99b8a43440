import LeastSquares.Proofs.Fit.Trace

/-!
# The trace of a session

The reports of calls that follow each other are one trace, until the targets are told to ask for
something else: then chi-square changes without a report. A session that is not prepared reports
nothing, and preparing it sets the chi-square that its first report begins with.
-/

set_option autoImplicit false

namespace LeastSquares.Fit

variable {α σ ε : Type} [Scalar α] {n m : Nat}

/-! ## Reports of calls -/

section Reports

variable [Products α] (M : Model α σ ε n m)

def iteratesReports (fuel : Nat) : (left : Nat) → Fit α σ n m → List (IterationReport α)
  | 0, _ => []
  | left + 1, fit =>
    match fit.iterate M fuel with
    | none => fit.iterateReports M fuel
    | some { fit := _, events, result := .error _ } => reported events
    | some { fit, events, result := .ok status } =>
      if status.isTerminal then reported events
      else reported events ++ iteratesReports fuel left fit

def runReports (fuel maxIterations : Nat) (fit : Fit α σ n m) : List (IterationReport α) :=
  if fit.prepared then fit.iteratesReports M fuel maxIterations
  else
    match fit.prepare M with
    | { fit := _, events, result := .error _ } => reported events
    | { fit, events, result := .ok () } =>
      reported events ++ fit.iteratesReports M fuel maxIterations

def performReports (fuel : Nat) (request : Request α) (fit : Fit α σ n m) :
    List (IterationReport α) :=
  match request with
  | .prepare => reported (fit.prepare M).events
  | .iterate => fit.iterateReports M fuel
  | .run maxIterations => fit.runReports M fuel maxIterations
  | .correlation budget => reported (fit.correlation M budget).events
  | _ => []

/-- The reports of a session, the last call of which may not be over. -/
def performAllReports (fuel : Nat) : List (Request α) → Fit α σ n m → List (IterationReport α)
  | [], _ => []
  | request :: rest, fit =>
    match fit.perform M fuel request with
    | none => fit.performReports M fuel request
    | some next => fit.performReports M fuel request ++ performAllReports fuel rest next

end Reports

section Runs

variable [Products α] {M : Model α σ ε n m} {fuel : Nat}

theorem Looped.reports_eq {left made : Nat} {status : Status} {fit : Fit α σ n m}
    {call : Call α σ ε n m (Status × Nat)} (loops : Looped M fuel left made status fit call) :
    reported call.events = fit.iteratesReports M fuel left := by
  induction loops with
  | idle => rfl
  | failed once => simp only [iteratesReports, once, Call.fail]
  | ended once terminal => simp only [iteratesReports, once, if_pos terminal]
  | onward once goes _ ih =>
      simp only [iteratesReports, once, if_neg (ne_true_of_eq_false goes), Call.after,
        reported_append, ih]

theorem runPrepared_reports {maxIterations : Nat} {fit : Fit α σ n m}
    {call : Call α σ ε n m (RunSummary α)}
    (ends : fit.runPrepared M fuel maxIterations = some call) :
    reported call.events = fit.iteratesReports M fuel maxIterations := by
  obtain ⟨made, found, rfl⟩ := Option.map_eq_some_iff.mp ends
  rw [← (iterateUpTo_looped found).reports_eq]
  split
  · rfl
  · rename_i status iterations _
    have last : reported (if status.isTerminal then [] else [Event.finish status] :
        List (Event α)) = [] := by
      split
      · rfl
      · rfl
    rw [reported_append, last, List.append_nil]

theorem runReports_eq {maxIterations : Nat} {fit : Fit α σ n m}
    {call : Call α σ ε n m (RunSummary α)} (ends : fit.run M fuel maxIterations = some call) :
    reported call.events = fit.runReports M fuel maxIterations := by
  rw [runReports]
  rcases run_ended ends with ⟨prepared, loops⟩ | ⟨unprepared, ready, events, error, failed, rfl⟩ |
    ⟨unprepared, ready, events, rest, begun, found, rfl⟩
  · rw [if_pos prepared]
    exact runPrepared_reports loops
  · rw [if_neg (ne_true_of_eq_false unprepared), failed]
    rfl
  · rw [if_neg (ne_true_of_eq_false unprepared), begun, Call.after, reported_append,
      runPrepared_reports found]

theorem iteratesReports_advances (left : Nat) (fit : Fit α σ n m) :
    fit.Advances (fit.iteratesWithin M fuel left) (fit.iteratesReports M fuel left) := by
  induction left generalizing fit with
  | zero => exact ⟨rfl, rfl, rfl⟩
  | succ left ih =>
      have iterated := (iterateReports_iterated M fuel fit).toAdvances
      rw [iteratesWithin, iteratesReports]
      cases once : fit.iterate M fuel with
      | none => exact iterated
      | some call =>
          rw [iterateWithin_eq once, ← (iterateReports_eq once).1] at iterated
          obtain ⟨next, events, result⟩ := call
          cases result with
          | error error => exact iterated
          | ok status =>
              dsimp only at iterated ⊢
              split
              · exact iterated
              · exact iterated.append (ih next)

end Runs

/-! ## Sessions -/

/-- The later fit is where these reports lead to, whether or not the fit is prepared. -/
structure Traced (fit later : Fit α σ n m) (reports : List (IterationReport α)) : Prop where
  prepared : fit.prepared = true → later.prepared = true
  silent : later.prepared = false → reports = []
  follows : ∃ chiSquare, (fit.prepared = true → chiSquare = fit.chiSquare) ∧
    Follows chiSquare reports later.chiSquare
  /-- Preparing is the only other call for values that counts. -/
  calls : later.valueCalls + fit.prepared.toNat =
    fit.valueCalls + later.prepared.toNat + reports.length

theorem Traced.trans {fit middle later : Fit α σ n m} {first second : List (IterationReport α)}
    (before : fit.Traced middle first) (after : middle.Traced later second) :
    fit.Traced later (first ++ second) where
  prepared := fun ready => after.prepared (before.prepared ready)
  silent := by
    intro unprepared
    have idle : middle.prepared = false := by
      by_contra ready
      rw [after.prepared (Bool.not_eq_false _ ▸ ready)] at unprepared
      cases unprepared
    rw [before.silent idle, after.silent unprepared, List.append_nil]
  follows := by
    obtain ⟨chiSquare, begins, leads⟩ := before.follows
    obtain ⟨middleChiSquare, goesOn, ends⟩ := after.follows
    cases ready : middle.prepared with
    | true =>
        rw [goesOn ready] at ends
        exact ⟨chiSquare, begins, leads.append ends⟩
    | false =>
        refine ⟨middleChiSquare, ?_, ?_⟩
        · intro prepared
          rw [before.prepared prepared] at ready
          cases ready
        · rw [before.silent ready]
          exact ends
  calls := by
    have one := before.calls
    have other := after.calls
    rw [List.length_append]
    omega

theorem Advances.traced {fit later : Fit α σ n m} {reports : List (IterationReport α)}
    (advances : fit.Advances later reports) (idle : fit.prepared = false → reports = []) :
    fit.Traced later reports where
  prepared := fun ready => advances.prepared.trans ready
  silent := fun unprepared => idle (advances.prepared.symm.trans unprepared)
  follows := ⟨fit.chiSquare, fun _ => rfl, advances.follows⟩
  calls := by
    rw [advances.calls, advances.prepared]
    omega

theorem traced_nil {fit later : Fit α σ n m} (chiSquare : later.chiSquare = fit.chiSquare)
    (calls : later.valueCalls = fit.valueCalls) (prepared : later.prepared = fit.prepared) :
    fit.Traced later [] :=
  Advances.traced ⟨chiSquare, calls, prepared⟩ fun _ => rfl

section Calls

variable (M : Model α σ ε n m) (fuel : Nat)

theorem prepare_quiet (fit : Fit α σ n m) : Quiet (fit.prepare M).events := by
  have records : Quiet fit.clampRecords := by
    intro event member
    obtain ⟨p, _, given⟩ := List.mem_filterMap.mp member
    dsimp only at given
    split at given
    · cases given
    · cases given
      exact ⟨_, rfl⟩
  simp only [prepare]
  split
  · exact quiet_nil
  · split
    · exact records
    · exact quiet_append records (quiet_singleton _)

theorem prepare_traced (fit : Fit α σ n m) : fit.Traced (fit.prepare M).fit [] := by
  by_cases before : fit.prepared = true
  · rw [prepare_refused before]
    exact traced_nil rfl rfl rfl
  · have unprepared : fit.prepared = false := Bool.eq_false_iff.mpr before
    obtain ⟨answer, _, ⟨error, _, _, failed⟩ | ⟨_, _, ready⟩⟩ := prepare_outcome M unprepared
    · rw [failed]
      exact traced_nil rfl rfl rfl
    · rw [ready]
      constructor
      · intro _
        rfl
      · intro _
        rfl
      · exact ⟨_, fun prepared => absurd prepared before, rfl⟩
      · rw [unprepared]
        rfl

variable [Products α]

theorem correlation_reported (budget : Nat) (fit : Fit α σ n m) :
    reported (fit.correlation M budget).events = [] :=
  congrArg reported (correlation_events M budget fit)

theorem correlation_traced (budget : Nat) (fit : Fit α σ n m) :
    fit.Traced (fit.correlation M budget).fit [] := by
  have stays := correlation_stays M budget fit
  apply traced_nil stays.chiSquare _ stays.prepared
  refine correlation_keeps (·.valueCalls = fit.valueCalls) budget rfl fun answer => ?_
  rw [evaluateJacobian_eq answer]

theorem iterateReports_traced (fit : Fit α σ n m) :
    fit.Traced (fit.iterateWithin M fuel) (fit.iterateReports M fuel) := by
  apply (iterateReports_iterated M fuel fit).toAdvances.traced
  intro unprepared
  rw [iterateReports, if_neg (ne_true_of_eq_false unprepared)]

theorem runReports_traced (maxIterations : Nat) (fit : Fit α σ n m) :
    fit.Traced (fit.runWithin M fuel maxIterations) (fit.runReports M fuel maxIterations) := by
  rw [runWithin, runReports]
  by_cases prepared : fit.prepared = true
  · rw [if_pos prepared, if_pos prepared]
    apply (iteratesReports_advances maxIterations fit).traced
    intro unprepared
    exact absurd prepared (ne_true_of_eq_false unprepared)
  · rw [if_neg prepared, if_neg prepared]
    have begun := prepare_traced M fit
    have quiet := reported_of_quiet (prepare_quiet M fit)
    have unprepared : fit.prepared = false := Bool.eq_false_iff.mpr prepared
    obtain ⟨answer, _, ⟨error, _, failed, _⟩ | ⟨_, succeeded, ready⟩⟩ :=
      prepare_outcome M unprepared
    · cases call : fit.prepare M with
      | mk next events result =>
          rw [call] at begun quiet failed
          obtain rfl : result = .error (.model error) := failed
          dsimp only at begun quiet ⊢
          rw [quiet]
          exact begun
    · have made : (fit.prepare M).fit.prepared = true := by
        rw [ready]
        rfl
      cases call : fit.prepare M with
      | mk next events result =>
          rw [call] at begun quiet succeeded made
          obtain rfl : result = .ok () := succeeded
          dsimp only at begun quiet made ⊢
          rw [quiet]
          apply begun.trans
          apply (iteratesReports_advances maxIterations next).traced
          intro again
          exact absurd made (ne_true_of_eq_false again)

theorem performReports_traced {request : Request α} (same : request.setsInequalities = false)
    (fit : Fit α σ n m) :
    fit.Traced (fit.performWithin M fuel request) (fit.performReports M fuel request) := by
  cases request with
  | setCriteria criteria => exact traced_nil rfl rfl rfl
  | setLimits lower upper =>
      change fit.Traced ((fit.setLimits lower upper).toOption.getD fit) []
      cases set : fit.setLimits lower upper with
      | error error => exact traced_nil rfl rfl rfl
      | ok next =>
          obtain ⟨limits, rfl⟩ := setLimits_eq set
          exact traced_nil rfl rfl rfl
  | setInequalities tags => cases same
  | prepare =>
      rw [performReports, reported_of_quiet (prepare_quiet M fit)]
      exact prepare_traced M fit
  | iterate => exact iterateReports_traced M fuel fit
  | run maxIterations => exact runReports_traced M fuel maxIterations fit
  | correlation budget =>
      rw [performReports, correlation_reported]
      exact correlation_traced M budget fit

theorem performAllReports_traced {requests : List (Request α)}
    (same : ∀ request ∈ requests, request.setsInequalities = false) (fit : Fit α σ n m) :
    fit.Traced (fit.performAllWithin M fuel requests) (fit.performAllReports M fuel requests) := by
  induction requests generalizing fit with
  | nil => exact traced_nil rfl rfl rfl
  | cons request rest ih =>
      have once := performReports_traced M fuel (same request List.mem_cons_self) fit
      rw [performAllWithin, performAllReports]
      cases performed : fit.perform M fuel request with
      | none => exact once
      | some next =>
          rw [performWithin_eq performed] at once
          have others := ih (fun later member => same later (List.mem_cons_of_mem _ member)) next
          exact once.trans others

end Calls

/-- The reports between two changes of what the targets ask for are an exact trace of the run,
whatever has been called before, and also if the last call is never over. -/
theorem session_traced [Products α] (M : Model α σ ε n m) (fuel : Nat) (fit : Fit α σ n m)
    {requests : List (Request α)}
    (same : ∀ request ∈ requests, request.setsInequalities = false) :
    (∀ report ∈ fit.performAllReports M fuel requests,
      report.accepted = decide (report.trialChiSquare < report.chiSquare)) ∧
    ((fit.performAllReports M fuel requests).IsChain fun report next =>
      next.chiSquare = if report.accepted then report.trialChiSquare else report.chiSquare) ∧
    (fit.prepared = true → ∀ report ∈ (fit.performAllReports M fuel requests).head?,
      report.chiSquare = fit.chiSquare) ∧
    (fit.performAllWithin M fuel requests).valueCalls + fit.prepared.toNat =
      fit.valueCalls + (fit.performAllWithin M fuel requests).prepared.toNat +
        (fit.performAllReports M fuel requests).length ∧
    (∀ fit : Fit α σ n m,
      (∃ iteration gradientNorm, ∀ report ∈ fit.iterateReports M fuel,
        report.iteration = iteration ∧ report.gradientNorm = gradientNorm) ∧
      (∀ report ∈ (fit.iterateReports M fuel).dropLast, report.accepted = false) ∧
      ∀ call, fit.iterate M fuel = some call →
        reported call.events = fit.iterateReports M fuel ∧
        ∀ status, call.result = .ok status → status.Fits (fit.iterateReports M fuel)) ∧
    (∀ (fit : Fit α σ n m) (maxIterations : Nat) (call : Call α σ ε n m (RunSummary α)),
      fit.run M fuel maxIterations = some call →
        reported call.events = fit.runReports M fuel maxIterations) ∧
    ∀ (S : Session σ n m) (finishes : Bool) (ρ : Type) (call : Call Float σ ε n m ρ),
      S.reporter = .caller (.recorder finishes) →
        (S.reply call).produced.received.filterMap Received.report? = reported call.events ∧
        (S.reply call).session.reporter = S.reporter := by
  have traced := performAllReports_traced M fuel same fit
  obtain ⟨chiSquare, begins, follows⟩ := traced.follows
  refine ⟨follows.accepted, follows.chain, ?_, traced.calls, ?_, ?_, ?_⟩
  · intro prepared report first
    rw [follows.head report first, begins prepared]
  · intro fit
    have iterated := iterateReports_iterated M fuel fit
    refine ⟨⟨_, _, iterated.labels⟩, iterated.front, ?_⟩
    intro call ends
    exact iterateReports_eq ends
  · intro fit maxIterations call ends
    exact runReports_eq ends
  · intro S finishes ρ call recorder
    exact Session.reply_recorder recorder call

theorem line_traced :
    (lineStart.performAllReports line 20 [.prepare, .iterate, .prepare, .iterate]).length = 2 ∧
    (lineStart.performAllReports line 20 [.prepare, .iterate, .prepare, .iterate]).IsChain
      fun report next =>
        next.chiSquare = if report.accepted then report.trialChiSquare else report.chiSquare := by
  constructor
  · decide +kernel
  · exact (session_traced line 20 lineStart (by decide)).2.1

end LeastSquares.Fit

import LeastSquares.Proofs.Fit.Recording
import LeastSquares.Report.Session

/-!
# The trace that reports leave

Each trial at which the model answered leaves one report. The reports of a session are an exact
trace of its run: a step is accepted just if its chi-square is lower, and the next report goes on
from the chi-square that the fit then has. This holds across failed calls, iterations of a whole run
and calls that are never over, as long as nobody changes what the targets ask for.
-/

set_option autoImplicit false

namespace LeastSquares

variable {α σ ε ρ : Type} {n m : Nat}

/-! ## Reports among events -/

def Event.report? : Event α → Option (IterationReport α)
  | .iteration report => some report
  | _ => none

def reported (events : List (Event α)) : List (IterationReport α) :=
  events.filterMap Event.report?

theorem reported_append (first second : List (Event α)) :
    reported (first ++ second) = reported first ++ reported second :=
  List.filterMap_append

/-- These events are log records only, of which no reporter is told. -/
def Quiet (events : List (Event α)) : Prop := ∀ event ∈ events, ∃ record, event = .log record

theorem quiet_nil : Quiet ([] : List (Event α)) := by
  intro event member
  cases member

theorem quiet_append {first second : List (Event α)} (before : Quiet first)
    (after : Quiet second) : Quiet (first ++ second) := by
  intro event member
  rcases List.mem_append.mp member with here | there
  · exact before event here
  · exact after event there

theorem quiet_singleton (record : LogRecord α) : Quiet [.log record] := by
  intro event member
  exact ⟨record, List.mem_singleton.mp member⟩

theorem reported_of_quiet {events : List (Event α)} (quiet : Quiet events) :
    reported events = [] := by
  apply List.filterMap_eq_nil_iff.mpr
  intro event member
  obtain ⟨record, rfl⟩ := quiet event member
  rfl

theorem Proposal.quiet_events (proposal : Proposal α n) : Quiet proposal.events := by
  intro event member
  obtain ⟨seen, _, rfl⟩ := List.mem_map.mp member
  exact ⟨_, rfl⟩

inductive Notice (α : Type) where
  | iteration (report : IterationReport α)
  | finish (status : Status)

def Event.notice? : Event α → Option (Notice α)
  | .log _ => none
  | .iteration report => some (.iteration report)
  | .finish status => some (.finish status)

/-- The calls of a reporter that events come to, in order. -/
def noticed (events : List (Event α)) : List (Notice α) := events.filterMap Event.notice?

theorem noticed_append (first second : List (Event α)) :
    noticed (first ++ second) = noticed first ++ noticed second :=
  List.filterMap_append

def Received.report? : Received → Option (IterationReport Float)
  | .iteration report => some report
  | .finish _ => none

def Notice.received? (finishes : Bool) : Notice Float → Option Received
  | .iteration report => some (.iteration report)
  | .finish status => if finishes then some (.finish status) else none

theorem Reporter.recorder_receives (filter : LogFilter) (finishes : Bool)
    (events : List (Event Float)) :
    ((Reporter.caller (.recorder finishes)).onEvents filter events).2.received =
      (noticed events).filterMap (Notice.received? finishes) ∧
    ((Reporter.caller (.recorder finishes)).onEvents filter events).1 =
      .caller (.recorder finishes) := by
  induction events with
  | nil => exact ⟨rfl, rfl⟩
  | cons event rest ih =>
      obtain ⟨received, same⟩ := ih
      have step : ((Reporter.caller (.recorder finishes)).onEvent filter event).1 =
          .caller (.recorder finishes) := by
        cases event with
        | log record => rfl
        | iteration report => rfl
        | finish status => rfl
      have first : ((Reporter.caller (.recorder finishes)).onEvent filter event).2.received =
          (noticed [event]).filterMap (Notice.received? finishes) := by
        cases event with
        | log record => rfl
        | iteration report => rfl
        | finish status => cases finishes <;> rfl
      have split : noticed (event :: rest) = noticed [event] ++ noticed rest :=
        noticed_append [event] rest
      constructor
      · simp only [onEvents, step]
        rw [split, List.filterMap_append, ← first, ← received]
        rfl
      · simp only [onEvents, step]
        exact same

theorem Reporter.recorder_reported (filter : LogFilter) (finishes : Bool)
    (events : List (Event Float)) :
    ((Reporter.caller (.recorder finishes)).onEvents filter events).2.received.filterMap
      Received.report? = reported events := by
  rw [(recorder_receives filter finishes events).1, noticed, List.filterMap_filterMap,
    List.filterMap_filterMap, reported]
  congr 1
  funext event
  cases event with
  | log record => rfl
  | iteration report => rfl
  | finish status => cases finishes <;> rfl

theorem Session.reply_recorder {S : Session σ n m} {finishes : Bool}
    (recorder : S.reporter = .caller (.recorder finishes)) (call : Call Float σ ε n m ρ) :
    (S.reply call).produced.received.filterMap Received.report? = reported call.events ∧
      (S.reply call).session.reporter = S.reporter := by
  rw [Session.reply, recorder]
  exact ⟨Reporter.recorder_reported S.filter finishes call.events,
    (Reporter.recorder_receives S.filter finishes call.events).2⟩

/-! ## Traces -/

section Follows

variable [Scalar α]

/-- Reports that begin at this chi-square, accept just what lowers it, and end at the last one. -/
def Follows : α → List (IterationReport α) → α → Prop
  | chiSquare, [], last => last = chiSquare
  | chiSquare, report :: rest, last =>
      report.chiSquare = chiSquare ∧
        report.accepted = decide (report.trialChiSquare < report.chiSquare) ∧
        Follows (if report.accepted then report.trialChiSquare else report.chiSquare) rest last

theorem Follows.append {first second : List (IterationReport α)} {chiSquare middle last : α}
    (before : Follows chiSquare first middle) (after : Follows middle second last) :
    Follows chiSquare (first ++ second) last := by
  induction first generalizing chiSquare with
  | nil =>
      obtain rfl : middle = chiSquare := before
      exact after
  | cons report rest ih =>
      obtain ⟨begins, accepts, onward⟩ := before
      exact ⟨begins, accepts, ih onward⟩

theorem Follows.head {reports : List (IterationReport α)} {chiSquare last : α}
    (follows : Follows chiSquare reports last) :
    ∀ report ∈ reports.head?, report.chiSquare = chiSquare := by
  intro report first
  cases reports with
  | nil => cases first
  | cons head rest =>
      obtain rfl : head = report := Option.some.inj first
      exact follows.1

theorem Follows.accepted {reports : List (IterationReport α)} {chiSquare last : α}
    (follows : Follows chiSquare reports last) :
    ∀ report ∈ reports, report.accepted = decide (report.trialChiSquare < report.chiSquare) := by
  induction reports generalizing chiSquare with
  | nil =>
      intro report member
      cases member
  | cons head rest ih =>
      obtain ⟨_, accepts, onward⟩ := follows
      intro report member
      rcases List.mem_cons.mp member with rfl | later
      · exact accepts
      · exact ih onward report later

theorem Follows.chain {reports : List (IterationReport α)} {chiSquare last : α}
    (follows : Follows chiSquare reports last) : reports.IsChain fun report next =>
      next.chiSquare = if report.accepted then report.trialChiSquare else report.chiSquare := by
  induction reports generalizing chiSquare with
  | nil => exact .nil
  | cons head rest ih =>
      obtain ⟨_, _, onward⟩ := follows
      cases rest with
      | nil => exact .singleton head
      | cons next others => exact .cons_cons onward.1 (ih onward)

end Follows

/-- What the reports of an iteration with this status look like. -/
def Status.Fits : Status → List (IterationReport α) → Prop
  | .improving, reports | .chiSquareIsOk, reports | .chiSquareChangeTooSmall, reports =>
      ∃ last ∈ reports.getLast?, last.accepted = true
  | .deltaIsTooSmall, reports => reports ≠ [] ∧ ∀ report ∈ reports, report.accepted = false
  | .minimumFound, reports | .allParametersAreStuck, reports => reports = []

theorem Status.fits_of_tookStep {status : Status} (took : status.tookStep = true)
    {reports : List (IterationReport α)} {last : IterationReport α}
    (ends : last ∈ reports.getLast?) (accepted : last.accepted = true) : status.Fits reports := by
  cases status with
  | improving => exact ⟨last, ends, accepted⟩
  | chiSquareIsOk => exact ⟨last, ends, accepted⟩
  | chiSquareChangeTooSmall => exact ⟨last, ends, accepted⟩
  | minimumFound => cases took
  | allParametersAreStuck => cases took
  | deltaIsTooSmall => cases took

/-- Reports of rejected trials in front change nothing of it, once there is a report. -/
theorem Status.Fits.cons {status : Status} {reports : List (IterationReport α)}
    (fits : status.Fits reports) (some : reports ≠ []) {report : IterationReport α}
    (rejected : report.accepted = false) : status.Fits (report :: reports) := by
  have last : (report :: reports).getLast? = reports.getLast? := by
    rw [List.getLast?_cons_of_ne_nil some]
  cases status with
  | improving =>
      rw [Fits, last]
      exact fits
  | chiSquareIsOk =>
      rw [Fits, last]
      exact fits
  | chiSquareChangeTooSmall =>
      rw [Fits, last]
      exact fits
  | minimumFound => exact absurd fits some
  | allParametersAreStuck => exact absurd fits some
  | deltaIsTooSmall =>
      constructor
      · exact List.cons_ne_nil _ _
      · intro other member
        rcases List.mem_cons.mp member with rfl | later
        · exact rejected
        · exact fits.2 other later

/-! ## Trials -/

def Trial.events : Trial α σ ε n m → List (Event α)
  | .settled call => call.events
  | .rejected _ events => events

namespace Fit

theorem conclude_reported (fit : Fit α σ n m) (events : List (Event α)) (status : Status) :
    reported (fit.conclude events status : Call α σ ε n m Status).events = reported events := by
  have last : reported (if status.isTerminal then
      [Event.log (.terminated fit.iteration status fit.chiSquare), .finish status]
      else []) = [] := by
    split
    · rfl
    · rfl
  rw [conclude, reported_append, last, List.append_nil]

theorem deficientEvents_quiet (fit : Fit α σ n m) (L : Linearization α n m) :
    Quiet (fit.deficientEvents L) := by
  rw [deficientEvents]
  split
  · exact quiet_nil
  · exact quiet_singleton _

theorem evaluateAt_failed {M : Model α σ ε n m} {fit asked : Fit α σ n m} {a : Vector α n}
    {error : ε} (answer : fit.evaluateAt M a = (asked, .error error)) :
    asked.valueCalls = fit.valueCalls := by
  simp only [evaluateAt] at answer
  split at answer
  · cases answer
    rfl
  · cases answer

theorem evaluateAt_succeeded {M : Model α σ ε n m} {fit asked : Fit α σ n m} {a : Vector α n}
    {values : Vector α m} (answer : fit.evaluateAt M a = (asked, .ok values)) :
    asked.valueCalls = fit.valueCalls + 1 := by
  simp only [evaluateAt] at answer
  split at answer
  · cases answer
  · cases answer
    rfl

variable [Scalar α]

/-- The later fit is where these reports lead to from the fit. -/
structure Advances (fit later : Fit α σ n m) (reports : List (IterationReport α)) : Prop where
  follows : Follows fit.chiSquare reports later.chiSquare
  calls : later.valueCalls = fit.valueCalls + reports.length
  prepared : later.prepared = fit.prepared

theorem Advances.append {fit middle later : Fit α σ n m} {first second : List (IterationReport α)}
    (before : fit.Advances middle first) (after : middle.Advances later second) :
    fit.Advances later (first ++ second) where
  follows := before.follows.append after.follows
  calls := by
    rw [after.calls, before.calls, List.length_append]
    omega
  prepared := after.prepared.trans before.prepared

structure Iterated (fit later : Fit α σ n m) (reports : List (IterationReport α)) : Prop extends
    fit.Advances later reports where
  labels : ∀ report ∈ reports,
    report.iteration = later.iteration ∧ report.gradientNorm = later.gradientNorm
  /-- Only the last report can be that of an accepted step. -/
  front : ∀ report ∈ reports.dropLast, report.accepted = false

structure Tried (fit later : Fit α σ n m) (reports : List (IterationReport α)) : Prop extends
    fit.Iterated later reports where
  iteration : later.iteration = fit.iteration
  gradientNorm : later.gradientNorm = fit.gradientNorm

theorem Tried.refl (fit : Fit α σ n m) : fit.Tried fit [] where
  follows := rfl
  calls := rfl
  prepared := rfl
  labels := by
    intro report member
    cases member
  front := by
    intro report member
    cases member
  iteration := rfl
  gradientNorm := rfl

theorem Tried.cons {fit next later : Fit α σ n m} {report : IterationReport α}
    {rest : List (IterationReport α)} (once : fit.Tried next [report])
    (rejected : report.accepted = false) (others : next.Tried later rest) :
    fit.Tried later (report :: rest) where
  toAdvances := once.toAdvances.append others.toAdvances
  labels := by
    intro other member
    rcases List.mem_cons.mp member with rfl | tail
    · have here := once.labels other List.mem_cons_self
      rw [others.iteration, others.gradientNorm]
      exact here
    · exact others.labels other tail
  front := by
    intro other member
    cases rest with
    | nil => cases member
    | cons second more =>
        rw [List.dropLast_cons_cons] at member
        rcases List.mem_cons.mp member with rfl | tail
        · exact rejected
        · exact others.front other tail
  iteration := others.iteration.trans once.iteration
  gradientNorm := others.gradientNorm.trans once.gradientNorm

section Trials

variable (M : Model α σ ε n m) (L : Linearization α n m)

theorem asked_tried {fit asked later : Fit α σ n m} {proposal : Proposal α n} {values : Vector α m}
    (answer : (fit.proposed proposal).evaluateAt M proposal.move.next = (asked, .ok values))
    (chiSquare : later.chiSquare =
      if asked.chiSquareAt values < asked.chiSquare then asked.chiSquareAt values
      else asked.chiSquare)
    (calls : later.valueCalls = asked.valueCalls) (prepared : later.prepared = asked.prepared)
    (iteration : later.iteration = asked.iteration)
    (gradientNorm : later.gradientNorm = asked.gradientNorm) :
    fit.Tried later [asked.report L proposal values] := by
  have counted : asked.valueCalls = (fit.proposed proposal).valueCalls + 1 :=
    evaluateAt_succeeded answer
  obtain ⟨begins, number, norm, ready⟩ : asked.chiSquare = fit.chiSquare ∧
      asked.iteration = fit.iteration ∧ asked.gradientNorm = fit.gradientNorm ∧
      asked.prepared = fit.prepared := by
    rw [evaluateAt_eq answer]
    exact ⟨rfl, rfl, rfl, rfl⟩
  exact
    { follows := by
        refine ⟨begins, rfl, chiSquare.trans ?_⟩
        simp only [report, decide_eq_true_eq]
      calls := by
        rw [calls, counted]
        rfl
      prepared := prepared.trans ready
      labels := by
        intro report member
        obtain rfl := List.mem_singleton.mp member
        exact ⟨iteration.symm, gradientNorm.symm⟩
      front := by
        intro report member
        cases member
      iteration := iteration.trans number
      gradientNorm := gradientNorm.trans norm }

theorem trialEvents_reported (asked : Fit α σ n m) (proposal : Proposal α n)
    (values : Vector α m) :
    reported (asked.trialEvents L proposal values) = [asked.report L proposal values] := by
  rw [trialEvents, reported_append, reported_of_quiet proposal.quiet_events]
  rfl

/-- What a trial reports: nothing if it fails, and else one step, which is accepted just if it ends
the iteration at a new point. -/
theorem trial_reports (fit : Fit α σ n m) :
    (∃ call error, fit.trial M L = .settled call ∧ call.result = .error error ∧
      reported call.events = [] ∧ fit.Tried call.fit []) ∨
    ∃ report, reported (fit.trial M L).events = [report] ∧
      fit.Tried (fit.trial M L).fit [report] ∧
      ((report.accepted = true ∧ ∃ call status, fit.trial M L = .settled call ∧
          call.result = .ok status ∧ status.tookStep = true) ∨
        (report.accepted = false ∧ ((∃ call, fit.trial M L = .settled call ∧
          call.result = .ok .deltaIsTooSmall) ∨
            ∃ next events, fit.trial M L = .rejected next events))) := by
  rcases fit.trial_cases M L with ⟨error, _, failed⟩ |
    ⟨proposal, asked, error, step, answer, failed⟩ |
    ⟨proposal, asked, values, step, answer, judged⟩
  · exact .inl ⟨_, _, failed, rfl, rfl, Tried.refl fit⟩
  · refine .inl ⟨_, _, failed, rfl, reported_of_quiet proposal.quiet_events, ?_⟩
    have calls := evaluateAt_failed answer
    rw [Call.fail, evaluateAt_eq answer, calls]
    exact { Tried.refl fit with }
  · refine .inr ⟨asked.report L proposal values, ?_⟩
    by_cases better : asked.chiSquareAt values < asked.chiSquare
    · let taken := (asked.adapted L proposal values).take proposal values
      let last : Call α σ ε n m Status := taken.conclude (asked.trialEvents L proposal values)
        (taken.acceptedStatus asked.chiSquare proposal.move.bounded)
      have settled : fit.trial M L = .settled last := by
        rw [judged]
        exact if_pos better
      rw [settled]
      refine ⟨?_, ?_, .inl ⟨decide_eq_true better, last, _, rfl, rfl,
        taken.acceptedStatus_tookStep _ _⟩⟩
      · exact (conclude_reported _ _ _).trans (trialEvents_reported L asked proposal values)
      · exact asked_tried M L answer (if_pos better).symm rfl rfl rfl rfl
    · have rejected : (asked.report L proposal values).accepted = false := decide_eq_false better
      rcases asked.judge_cases (ε := ε) L proposal values with ⟨less, _⟩ | ⟨_, _, finished⟩ |
        ⟨_, _, again⟩
      · exact absurd less better
      · rw [judged, finished]
        refine ⟨?_, ?_, .inr ⟨rejected, .inl ⟨_, rfl, rfl⟩⟩⟩
        · exact (conclude_reported _ _ _).trans (trialEvents_reported L asked proposal values)
        · exact asked_tried M L answer (if_neg better).symm rfl rfl rfl rfl
      · rw [judged, again]
        refine ⟨?_, ?_, .inr ⟨rejected, .inr ⟨_, _, rfl⟩⟩⟩
        · exact trialEvents_reported L asked proposal values
        · exact asked_tried M L answer (if_neg better).symm rfl rfl rfl rfl

def trialsReports : (fuel : Nat) → Fit α σ n m → List (IterationReport α)
  | 0, _ => []
  | fuel + 1, fit =>
    match fit.trial M L with
    | .settled call => reported call.events
    | .rejected next events => reported events ++ trialsReports fuel next

variable {M L}

theorem trialsReports_tried (fuel : Nat) (fit : Fit α σ n m) :
    fit.Tried (fit.trialsWithin M L fuel) (fit.trialsReports M L fuel) := by
  induction fuel generalizing fit with
  | zero => exact Tried.refl fit
  | succ fuel ih =>
      rw [trialsWithin, trialsReports]
      rcases fit.trial_reports M L with ⟨call, error, settled, _, silent, tried⟩ |
        ⟨report, said, tried, ⟨_, call, status, settled, _, _⟩ |
          ⟨rejected, ⟨call, settled, _⟩ | ⟨next, events, again⟩⟩⟩
      · rw [settled]
        dsimp only
        rw [silent]
        exact tried
      · rw [settled] at said tried ⊢
        have reports : reported call.events = [report] := said
        dsimp only
        rw [reports]
        exact tried
      · rw [settled] at said tried ⊢
        have reports : reported call.events = [report] := said
        dsimp only
        rw [reports]
        exact tried
      · rw [again] at said tried ⊢
        have reports : reported events = [report] := said
        dsimp only
        rw [reports]
        exact tried.cons rejected (ih next)

theorem trialsReports_eq {fuel : Nat} {fit : Fit α σ n m} {call : Call α σ ε n m Status}
    (ends : trials M L fuel fit = some call) :
    reported call.events = fit.trialsReports M L fuel ∧
      ∀ status, call.result = .ok status →
        fit.trialsReports M L fuel ≠ [] ∧ status.Fits (fit.trialsReports M L fuel) := by
  induction fuel generalizing fit call with
  | zero => cases ends
  | succ fuel ih =>
      rw [trials] at ends
      rw [trialsReports]
      rcases fit.trial_reports M L with ⟨last, error, settled, failed, silent, _⟩ |
        ⟨report, said, _, ⟨accepted, last, status, settled, result, took⟩ |
          ⟨rejected, ⟨last, settled, result⟩ | ⟨next, events, again⟩⟩⟩
      · rw [settled] at ends ⊢
        cases ends
        refine ⟨rfl, ?_⟩
        intro status succeeded
        rw [failed] at succeeded
        cases succeeded
      · rw [settled] at ends said ⊢
        cases ends
        have reports : reported call.events = [report] := said
        refine ⟨rfl, ?_⟩
        intro other succeeded
        rw [result] at succeeded
        cases succeeded
        dsimp only
        rw [reports]
        exact ⟨List.cons_ne_nil _ _, Status.fits_of_tookStep took rfl accepted⟩
      · rw [settled] at ends said ⊢
        cases ends
        have reports : reported call.events = [report] := said
        refine ⟨rfl, ?_⟩
        intro other succeeded
        rw [result] at succeeded
        cases succeeded
        dsimp only
        rw [reports]
        refine ⟨List.cons_ne_nil _ _, List.cons_ne_nil _ _, ?_⟩
        intro other member
        obtain rfl := List.mem_singleton.mp member
        exact rejected
      · rw [again] at ends said ⊢
        obtain ⟨rest, found, rfl⟩ := Option.map_eq_some_iff.mp ends
        have reports : reported events = [report] := said
        obtain ⟨same, fits⟩ := ih found
        dsimp only
        rw [reports]
        constructor
        · rw [Call.after, reported_append, reports, same]
        · intro status succeeded
          obtain ⟨some, fitting⟩ := fits status succeeded
          exact ⟨List.cons_ne_nil _ _, fitting.cons some rejected⟩

end Trials

/-! ## Iterations -/

section Iterations

variable [Products α] (M : Model α σ ε n m)

theorem stuckEvents_quiet (fit : Fit α σ n m) (J : DenseMatrix α m n) :
    Quiet (fit.stuckEvents J) := by
  intro event member
  obtain ⟨p, _, rfl⟩ := List.mem_map.mp member
  exact ⟨_, rfl⟩

theorem linearize_quiet {fit first : Fit α σ n m} {events : List (Event α)}
    {L : Linearization α n m} (ready : linearize M fit = .ready first events L) :
    Quiet events := by
  rw [linearize] at ready
  cases answer : fit.evaluateJacobian M with
  | mk asked result =>
      rw [answer] at ready
      cases result with
      | error error => cases ready
      | ok J =>
          dsimp only at ready
          split at ready
          · cases ready
          · split at ready
            · cases ready
            · cases ready
              exact quiet_append (stuckEvents_quiet asked J) (deficientEvents_quiet _ _)

theorem linearize_reported (fit : Fit α σ n m) :
    (∀ call, linearize M fit = .settled call → reported call.events = []) ∧
    ∀ first events L, linearize M fit = .ready first events L → reported events = [] := by
  constructor
  · intro call settled
    rcases linearize_cases M fit with ⟨asked, error, _, finished⟩ | ⟨asked, J, _, _, finished⟩ |
      ⟨asked, J, _, _, _, finished⟩ | ⟨asked, J, _, _, _, events, ready⟩
    · rw [finished] at settled
      cases settled
      rfl
    · rw [finished] at settled
      cases settled
      exact (conclude_reported _ _ _).trans (reported_of_quiet (stuckEvents_quiet asked J))
    · rw [finished] at settled
      cases settled
      exact (conclude_reported _ _ _).trans (reported_of_quiet (stuckEvents_quiet asked J))
    · rw [ready] at settled
      cases settled
  · intro first events L ready
    exact reported_of_quiet (linearize_quiet M ready)

theorem linearize_advances (fit : Fit α σ n m) : fit.Advances (linearize M fit).fit [] := by
  have stays := linearize_stays M fit
  have asks := congrArg Fit.valueCalls (evaluateJacobian_fit M fit)
  have calls := (congrArg Fit.valueCalls (linearize_fit M fit)).trans asks
  exact ⟨stays.chiSquare, calls, stays.prepared⟩

/-- The reports of an iteration, which may not be over after `fuel` trial steps. -/
def iterateReports (fuel : Nat) (fit : Fit α σ n m) : List (IterationReport α) :=
  if fit.prepared then
    match linearize M { fit with iteration := fit.iteration + 1 } with
    | .settled call => reported call.events
    | .ready first events L => reported events ++ first.trialsReports M L fuel
  else []

theorem iterateReports_iterated (fuel : Nat) (fit : Fit α σ n m) :
    fit.Iterated (fit.iterateWithin M fuel) (fit.iterateReports M fuel) := by
  rw [iterateWithin, iterateReports]
  split
  · have begun := linearize_advances M { fit with iteration := fit.iteration + 1 }
    have silent := linearize_reported M { fit with iteration := fit.iteration + 1 }
    cases prospect : linearize M { fit with iteration := fit.iteration + 1 } with
    | settled call =>
        rw [prospect] at begun
        dsimp only
        rw [silent.1 call prospect]
        exact
          { begun with
            labels := by
              intro report member
              cases member
            front := by
              intro report member
              cases member }
    | ready first events L =>
        rw [prospect] at begun
        have tried := trialsReports_tried (M := M) (L := L) fuel first
        have whole := begun.append tried.toAdvances
        dsimp only
        rw [silent.2 first events L prospect, List.nil_append]
        exact { whole with labels := tried.labels, front := tried.front }
  · exact { Tried.refl fit with }

variable {M}

theorem iterateReports_eq {fuel : Nat} {fit : Fit α σ n m} {call : Call α σ ε n m Status}
    (ends : fit.iterate M fuel = some call) :
    reported call.events = fit.iterateReports M fuel ∧
      ∀ status, call.result = .ok status → status.Fits (fit.iterateReports M fuel) := by
  rw [iterateReports]
  have silent := linearize_reported M { fit with iteration := fit.iteration + 1 }
  rcases iterate_ended ends with ⟨unprepared, rfl⟩ | ⟨prepared, prospect⟩ |
    ⟨prepared, first, events, L, rest, prospect, found, rfl⟩
  · rw [if_neg (ne_true_of_eq_false unprepared)]
    refine ⟨rfl, ?_⟩
    intro status succeeded
    cases succeeded
  · rw [if_pos prepared, prospect]
    refine ⟨rfl, ?_⟩
    intro status succeeded
    dsimp only
    rw [silent.1 call prospect]
    rcases linearize_settled prospect succeeded with rfl | ⟨rfl, _⟩
    · rfl
    · rfl
  · obtain ⟨same, fits⟩ := trialsReports_eq found
    rw [if_pos prepared, prospect]
    dsimp only
    rw [silent.2 first events L prospect, List.nil_append]
    constructor
    · rw [Call.after, reported_append, silent.2 first events L prospect, same]
      rfl
    · intro status succeeded
      exact (fits status succeeded).2

end Iterations

end Fit

end LeastSquares

import LeastSquares.Proofs.Fit.SessionTrace

/-!
# The end of a run

A run that succeeds finishes exactly once, with its status and after all of its reports, and a run
that fails does not finish. The finish comes from the last iteration if its status is terminal, and
from the run itself if not, so every way through the two loops has to meet just one of them.
-/

set_option autoImplicit false

namespace LeastSquares

variable {α σ ε ρ : Type} {n m : Nat}

/-! ## What a reporter is told -/

def Event.isFinish : Event α → Bool
  | .finish _ => true
  | _ => false

def Unfinished (events : List (Event α)) : Prop := ∀ event ∈ events, event.isFinish = false

theorem unfinished_append {first second : List (Event α)} (before : Unfinished first)
    (after : Unfinished second) : Unfinished (first ++ second) := by
  intro event member
  rcases List.mem_append.mp member with here | there
  · exact before event here
  · exact after event there

theorem unfinished_of_quiet {events : List (Event α)} (quiet : Quiet events) :
    Unfinished events := by
  intro event member
  obtain ⟨record, rfl⟩ := quiet event member
  rfl

theorem noticed_of_unfinished {events : List (Event α)} (unfinished : Unfinished events) :
    noticed events = (reported events).map .iteration := by
  induction events with
  | nil => rfl
  | cons event rest ih =>
      have others := ih fun later member => unfinished later (List.mem_cons_of_mem _ member)
      cases event with
      | log record => exact others
      | iteration report => exact congrArg (Notice.iteration report :: ·) others
      | finish status => cases unfinished _ List.mem_cons_self

def Finishes (events : List (Event α)) (status : Status) : Prop :=
  ∃ before, events = before ++ [.finish status] ∧ Unfinished before

theorem Finishes.after {before events : List (Event α)} {status : Status}
    (finishes : Finishes events status) (unfinished : Unfinished before) :
    Finishes (before ++ events) status := by
  obtain ⟨front, rfl, silent⟩ := finishes
  refine ⟨before ++ front, ?_, unfinished_append unfinished silent⟩
  rw [List.append_assoc]

theorem Finishes.noticed {events : List (Event α)} {status : Status}
    (finishes : Finishes events status) :
    noticed events = (reported events).map .iteration ++ [.finish status] := by
  obtain ⟨before, rfl, unfinished⟩ := finishes
  rw [noticed_append, noticed_of_unfinished unfinished, reported_append]
  simp [reported, Event.report?, LeastSquares.noticed, Event.notice?]

/-- The events with which a call concludes, given the status it ends with: a terminal status is
finished with, and nothing else is. -/
def Concludes (events : List (Event α)) : Except (FitError ε) Status → Prop
  | .error _ => Unfinished events
  | .ok status => if status.isTerminal then Finishes events status else Unfinished events

theorem Concludes.after {before events : List (Event α)} {result : Except (FitError ε) Status}
    (concludes : Concludes events result) (unfinished : Unfinished before) :
    Concludes (before ++ events) result := by
  cases result with
  | error error => exact unfinished_append unfinished concludes
  | ok status =>
      by_cases terminal : status.isTerminal = true
      · simp only [Concludes, if_pos terminal] at concludes ⊢
        exact concludes.after unfinished
      · simp only [Concludes, if_neg terminal] at concludes ⊢
        exact unfinished_append unfinished concludes

namespace Fit

theorem conclude_concludes (fit : Fit α σ n m) {events : List (Event α)}
    (unfinished : Unfinished events) (status : Status) :
    Concludes (fit.conclude events status : Call α σ ε n m Status).events
      (fit.conclude events status : Call α σ ε n m Status).result := by
  simp only [conclude, Concludes]
  by_cases terminal : status.isTerminal = true
  · rw [if_pos terminal, if_pos terminal]
    refine ⟨events ++ [.log (.terminated fit.iteration status fit.chiSquare)], ?_, ?_⟩
    · simp
    · apply unfinished_append unfinished
      simp [Unfinished, Event.isFinish]
  · rw [if_neg terminal, if_neg terminal, List.append_nil]
    exact unfinished

/-- What a run tells when it ends: its status if it succeeds, and nothing if it fails. -/
def Announces (events : List (Event α)) : Except (FitError ε) (RunSummary α) → Prop
  | .error _ => Unfinished events
  | .ok summary => Finishes events summary.status

theorem Announces.after {before events : List (Event α)}
    {result : Except (FitError ε) (RunSummary α)} (announces : Announces events result)
    (unfinished : Unfinished before) : Announces (before ++ events) result := by
  cases result with
  | error error => exact unfinished_append unfinished announces
  | ok summary => exact Finishes.after announces unfinished

variable [Scalar α] {M : Model α σ ε n m} {L : Linearization α n m}

/-! ## Iterations -/

theorem trialEvents_unfinished (fit : Fit α σ n m) (proposal : Proposal α n)
    (values : Vector α m) : Unfinished (fit.trialEvents L proposal values) := by
  apply unfinished_append (unfinished_of_quiet proposal.quiet_events)
  simp [Unfinished, Event.isFinish]

theorem trial_concludes (M : Model α σ ε n m) (L : Linearization α n m) (fit : Fit α σ n m) :
    (∀ call, fit.trial M L = .settled call → Concludes call.events call.result) ∧
      ∀ next events, fit.trial M L = .rejected next events → Unfinished events := by
  rcases fit.trial_cases M L with ⟨error, _, failed⟩ |
    ⟨proposal, asked, error, _, _, failed⟩ | ⟨proposal, asked, values, _, _, judged⟩
  · rw [failed]
    constructor
    · rintro call ⟨⟩ event ⟨⟩
    · rintro next events ⟨⟩
  · rw [failed]
    constructor
    · rintro call ⟨⟩
      exact unfinished_of_quiet proposal.quiet_events
    · rintro next events ⟨⟩
  · have silent := asked.trialEvents_unfinished (L := L) proposal values
    rw [judged]
    rcases asked.judge_cases (ε := ε) L proposal values with ⟨_, status, settled⟩ |
      ⟨_, _, settled⟩ | ⟨_, _, again⟩
    · rw [settled]
      constructor
      · rintro call ⟨⟩
        exact conclude_concludes _ silent status
      · rintro next events ⟨⟩
    · rw [settled]
      constructor
      · rintro call ⟨⟩
        exact conclude_concludes _ silent .deltaIsTooSmall
      · rintro next events ⟨⟩
    · rw [again]
      constructor
      · rintro call ⟨⟩
      · rintro next events ⟨⟩
        exact silent

theorem trials_concludes {fuel : Nat} {fit : Fit α σ n m} {call : Call α σ ε n m Status}
    (ends : trials M L fuel fit = some call) : Concludes call.events call.result := by
  induction fuel generalizing fit call with
  | zero => cases ends
  | succ fuel ih =>
      obtain ⟨settles, rejects⟩ := fit.trial_concludes M L
      rcases trials_ended ends with ended | ⟨next, events, rest, rejected, found, rfl⟩
      · exact settles call ended
      · exact (ih found).after (rejects next events rejected)

variable [Products α]

theorem linearize_concludes {fit : Fit α σ n m} {call : Call α σ ε n m Status}
    (settled : linearize M fit = .settled call) : Concludes call.events call.result := by
  rcases linearize_cases M fit with ⟨asked, error, _, finished⟩ | ⟨asked, J, _, _, finished⟩ |
    ⟨asked, J, _, _, _, finished⟩ | ⟨asked, J, _, _, _, events, ready⟩
  · rw [finished] at settled
    cases settled
    exact unfinished_of_quiet quiet_nil
  · rw [finished] at settled
    cases settled
    exact conclude_concludes _ (unfinished_of_quiet (stuckEvents_quiet asked J)) _
  · rw [finished] at settled
    cases settled
    exact conclude_concludes _ (unfinished_of_quiet (stuckEvents_quiet asked J)) _
  · rw [ready] at settled
    cases settled

theorem iterate_concludes {fuel : Nat} {fit : Fit α σ n m} {call : Call α σ ε n m Status}
    (ends : fit.iterate M fuel = some call) : Concludes call.events call.result := by
  rcases iterate_ended ends with ⟨_, rfl⟩ | ⟨_, settled⟩ |
    ⟨_, first, events, L, rest, ready, found, rfl⟩
  · exact unfinished_of_quiet quiet_nil
  · exact linearize_concludes settled
  · have silent := unfinished_of_quiet (linearize_quiet M ready)
    exact (trials_concludes found).after silent

/-! ## Runs -/

/-- A loop of iterations finishes if the last one does: the ones before it go on, and so have not
finished. -/
theorem Looped.concludes {fuel left made : Nat} {status : Status} {fit : Fit α σ n m}
    {call : Call α σ ε n m (Status × Nat)} (loops : Looped M fuel left made status fit call)
    (goes : status.isTerminal = false) : Concludes call.events (call.result.map Prod.fst) := by
  induction loops with
  | idle =>
      simp only [Except.map, Concludes, goes]
      rintro event ⟨⟩
  | failed once => exact iterate_concludes once
  | ended once => exact iterate_concludes once
  | @onward _ _ _ last _ _ events _ once onward _ ih =>
      have concludes : Concludes events (.ok last : Except (FitError ε) Status) :=
        iterate_concludes once
      simp only [Concludes, if_neg (ne_true_of_eq_false onward)] at concludes
      exact (ih onward).after concludes

theorem runPrepared_announces {fuel maxIterations : Nat} {fit : Fit α σ n m}
    {call : Call α σ ε n m (RunSummary α)}
    (ends : fit.runPrepared M fuel maxIterations = some call) :
    Announces call.events call.result := by
  obtain ⟨made, found, rfl⟩ := Option.map_eq_some_iff.mp ends
  have concludes := (iterateUpTo_looped found).concludes rfl
  obtain ⟨last, events, result⟩ := made
  cases result with
  | error error => exact concludes
  | ok ended =>
      obtain ⟨status, iterations⟩ := ended
      simp only [Except.map, Concludes] at concludes
      by_cases terminal : status.isTerminal = true
      · rw [if_pos terminal] at concludes
        simp only [if_pos terminal, List.append_nil]
        exact concludes
      · rw [if_neg terminal] at concludes
        simp only [if_neg terminal]
        exact ⟨events, rfl, concludes⟩

theorem run_announces {fuel maxIterations : Nat} {fit : Fit α σ n m}
    {call : Call α σ ε n m (RunSummary α)} (ends : fit.run M fuel maxIterations = some call) :
    Announces call.events call.result := by
  have silent := unfinished_of_quiet (prepare_quiet M fit)
  rcases run_ended ends with ⟨_, loops⟩ | ⟨_, ready, events, error, failed, rfl⟩ |
    ⟨_, ready, events, rest, begun, found, rfl⟩
  · exact runPrepared_announces loops
  · rw [failed] at silent
    exact silent
  · rw [begun] at silent
    exact (runPrepared_announces found).after silent

/-- The calls with which a run ends what it tells. -/
def announced : Except (FitError ε) (RunSummary α) → List (Notice α)
  | .error _ => []
  | .ok summary => [.finish summary.status]

theorem run_noticed {fuel maxIterations : Nat} {fit : Fit α σ n m}
    {call : Call α σ ε n m (RunSummary α)} (ends : fit.run M fuel maxIterations = some call) :
    noticed call.events =
      (fit.runReports M fuel maxIterations).map .iteration ++ announced call.result := by
  have announces := run_announces ends
  rw [← runReports_eq ends]
  cases result : call.result with
  | error error =>
      rw [result] at announces
      rw [announced, List.append_nil]
      exact noticed_of_unfinished announces
  | ok summary =>
      rw [result] at announces
      exact Finishes.noticed announces

end Fit

/-! ## Sessions -/

def Reporter.onNotice (filter : LogFilter) (reporter : Reporter) : Notice Float → Reporter
  | .iteration report => (reporter.onIteration report).1
  | .finish status => (reporter.onFinish filter status).1

theorem Reporter.onEvents_noticed (filter : LogFilter) (reporter : Reporter)
    (events : List (Event Float)) : (reporter.onEvents filter events).1 =
      (noticed events).foldl (Reporter.onNotice filter) reporter := by
  induction events generalizing reporter with
  | nil => rfl
  | cons event rest ih =>
      cases event with
      | log record => exact ih reporter
      | iteration report => exact ih (reporter.onIteration report).1
      | finish status => exact ih (reporter.onFinish filter status).1

theorem ok_of_toOption {result : Except ε ρ} {value : ρ}
    (succeeded : result.toOption = some value) : result = .ok value := by
  cases result with
  | error error => cases succeeded
  | ok other =>
      cases succeeded
      rfl

theorem Produced.append_nothing (produced : Produced) : produced ++ .nothing = produced := by
  change Produced.append produced .nothing = produced
  simp only [append, nothing, List.append_nil]
  change (⟨Printed.append produced.printed .nothing, produced.received⟩ : Produced) = produced
  simp only [Printed.append, Printed.nothing, List.append_nil]

namespace Session

variable {M : Model Float σ ε n m} {fuel maxIterations : Nat} {elapsed : String}
  {S : Session σ n m} {reply : Reply σ ε n m (RunSummary Float)}

def timing (S : Session σ n m) (elapsed : String) : Except (FitError ε) ρ → Produced
  | .error _ => .nothing
  | .ok _ =>
      if S.reporter.isOwn then
        { printed := .lines S.filter ["time: " ++ elapsed], received := [] }
      else .nothing

def timed (S : Session σ n m) (elapsed : String) (call : Call Float σ ε n m ρ) :
    Reply σ ε n m ρ :=
  { S.reply call with produced := (S.reply call).produced ++ S.timing elapsed call.result }

theorem run_timed [Products Float] (M : Model Float σ ε n m) (fuel maxIterations : Nat)
    (elapsed : String)
    (S : Session σ n m) : S.run M fuel maxIterations elapsed =
      (S.fit.run M fuel maxIterations).map (S.timed elapsed) := by
  rw [run]
  congr 1
  funext call
  obtain ⟨last, events, result⟩ := call
  cases result with
  | error error => simp only [timed, timing, Produced.append_nothing, reply]
  | ok summary =>
      simp only [timed, timing, reply]
      by_cases own : S.reporter.isOwn = true
      · rw [if_pos own, if_pos own]
      · rw [if_neg own, if_neg own, Produced.append_nothing]

theorem timed_received (S : Session σ n m) (elapsed : String) (call : Call Float σ ε n m ρ) :
    (S.timed elapsed call).produced.received = (S.reply call).produced.received := by
  have silent : (S.timing elapsed call.result).received = [] := by
    cases call.result with
    | error error => rfl
    | ok value => simp only [timing, apply_ite Produced.received, Produced.nothing, ite_self]
  exact (congrArg (_ ++ ·) silent).trans (List.append_nil _)

/-- Each run of a session that succeeds finishes exactly once: the reporter gets the reports of the
run, then its status, and no other call. A run that fails makes its reports only. -/
theorem run_finishes [Products Float] (ends : S.run M fuel maxIterations elapsed = some reply) :
    ∃ call notices, S.fit.run M fuel maxIterations = some call ∧ reply.result = call.result ∧
      noticed call.events = notices ∧
      (∀ summary, reply.result = .ok summary → notices =
        (S.fit.runReports M fuel maxIterations).map .iteration ++ [.finish summary.status]) ∧
      (∀ error, reply.result = .error error →
        notices = (S.fit.runReports M fuel maxIterations).map .iteration) ∧
      reply.session.reporter = notices.foldl (Reporter.onNotice S.filter) S.reporter ∧
      ∀ finishes, S.reporter = .caller (.recorder finishes) →
        reply.produced.received = notices.filterMap (Notice.received? finishes) := by
  rw [run_timed] at ends
  obtain ⟨call, ended, rfl⟩ := Option.map_eq_some_iff.mp ends
  have told := Fit.run_noticed ended
  refine ⟨call, noticed call.events, ended, rfl, rfl, ?_, ?_, ?_, ?_⟩
  · intro summary succeeded
    have succeeded : call.result = .ok summary := succeeded
    rw [told, succeeded, Fit.announced]
  · intro error failed
    have failed : call.result = .error error := failed
    rw [told, failed, Fit.announced, List.append_nil]
  · exact Reporter.onEvents_noticed S.filter S.reporter call.events
  · intro finishes recorder
    rw [timed_received, Session.reply, recorder]
    exact (Reporter.recorder_receives S.filter finishes call.events).1

def heardLine : Session Unit 1 1 :=
  (Session.ofFit none Fit.lineStart).setReporter (.recorder true)

/-- Two iterations are not enough for the line, so the run itself finishes. -/
theorem line_finishes : ∃ reply summary,
    heardLine.run Fit.line 20 2 "1 s" = some reply ∧ reply.result = .ok summary ∧
      summary.status = .improving ∧
      reply.produced.received =
        (Fit.lineStart.runReports Fit.line 20 2).map .iteration ++ [.finish .improving] := by
  have improves : (heardLine.run Fit.line 20 2 "1 s").bind
      (fun reply => reply.result.toOption.map RunSummary.status) = some .improving := by
    decide +kernel
  obtain ⟨reply, ends, succeeded⟩ := Option.bind_eq_some_iff.mp improves
  obtain ⟨call, notices, _, _, _, succeeds, _, _, recorder⟩ := run_finishes ends
  obtain ⟨summary, result, improving⟩ := Option.map_eq_some_iff.mp succeeded
  have result := ok_of_toOption result
  have received := recorder true rfl
  rw [succeeds summary result, improving, List.filterMap_append, List.filterMap_map] at received
  refine ⟨reply, summary, ends, result, improving, received.trans ?_⟩
  rw [← List.filterMap_eq_map]
  rfl

end Session

end LeastSquares

import LeastSquares.Proofs.Fit.Finishing

/-!
# Runs in parts

A run that stops because it has made the allowed number of iterations can be gone on with. The two
runs come to what one run of both lengths comes to, with the iterations of the two added up: no
iteration can tell whether the one before it belonged to the same run. What tells them apart is that
the first part is finished, and that a session with a table of its own prints a time for each part.
-/

set_option autoImplicit false

namespace LeastSquares

variable {α σ ε : Type} {n m : Nat}

def RunSummary.continuing (iterations : Nat) (summary : RunSummary α) : RunSummary α :=
  { summary with iterations := iterations + summary.iterations }

namespace Fit

variable [Scalar α] {M : Model α σ ε n m} {L : Linearization α n m} {fuel more : Nat}

/-! ## Calls that are over -/

theorem trials_longer (enough : fuel ≤ more) {fit : Fit α σ n m} {call : Call α σ ε n m Status}
    (ends : trials M L fuel fit = some call) : trials M L more fit = some call := by
  induction fuel generalizing more fit call with
  | zero => cases ends
  | succ fuel ih =>
      obtain ⟨more, rfl⟩ := Nat.exists_eq_succ_of_ne_zero (Nat.ne_zero_of_lt enough)
      rcases trials_ended ends with ended | ⟨next, events, rest, rejected, found, rfl⟩
      · rw [trials, ended]
      · have onward := ih (Nat.le_of_succ_le_succ enough) found
        simp only [trials, rejected, onward, Option.map_some]

theorem prepare_readies {fit ready : Fit α σ n m} {events : List (Event α)}
    (unprepared : fit.prepared = false)
    (begun : fit.prepare M = { fit := ready, events, result := .ok () }) :
    ready.prepared = true := by
  obtain ⟨_, _, ⟨_, _, failed, _⟩ | ⟨_, _, left⟩⟩ := prepare_outcome M unprepared
  · rw [begun] at failed
    cases failed
  · rw [begun] at left
    have left : ready = _ := left
    rw [left]
    rfl

variable [Products α]

theorem iterate_longer (enough : fuel ≤ more) {fit : Fit α σ n m} {call : Call α σ ε n m Status}
    (ends : fit.iterate M fuel = some call) : fit.iterate M more = some call := by
  rcases iterate_ended ends with ⟨unprepared, rfl⟩ | ⟨prepared, settled⟩ |
    ⟨prepared, first, events, L, rest, ready, found, rfl⟩
  · exact iterate_unprepared unprepared
  · rw [iterate, if_pos prepared, settled]
  · have onward := trials_longer enough found
    simp only [iterate, if_pos prepared, ready, onward, Option.map_some]

theorem Looped.longer {left made : Nat} {status : Status} {fit : Fit α σ n m}
    {call : Call α σ ε n m (Status × Nat)} (loops : Looped M fuel left made status fit call)
    (enough : fuel ≤ more) : iterateUpTo M more left made status fit = some call := by
  induction loops with
  | idle => rfl
  | failed once => rw [iterateUpTo, iterate_longer enough once, Call.fail]
  | ended once terminal =>
      simp only [iterateUpTo, iterate_longer enough once, if_pos terminal]
  | onward once goes _ ih =>
      simp only [iterateUpTo, iterate_longer enough once, if_neg (ne_true_of_eq_false goes), ih,
        Option.map_some]

theorem runPrepared_longer (enough : fuel ≤ more) {maxIterations : Nat} {fit : Fit α σ n m}
    {call : Call α σ ε n m (RunSummary α)}
    (ends : fit.runPrepared M fuel maxIterations = some call) :
    fit.runPrepared M more maxIterations = some call := by
  obtain ⟨made, found, rfl⟩ := Option.map_eq_some_iff.mp ends
  rw [runPrepared, (iterateUpTo_looped found).longer enough, Option.map_some]

theorem run_of_prepared {fit : Fit α σ n m} (prepared : fit.prepared = true) (M : Model α σ ε n m)
    (fuel maxIterations : Nat) :
    fit.run M fuel maxIterations = fit.runPrepared M fuel maxIterations :=
  if_pos prepared

theorem run_of_preparing {fit ready : Fit α σ n m} {events : List (Event α)}
    (unprepared : fit.prepared = false)
    (begun : fit.prepare M = { fit := ready, events, result := .ok () })
    (fuel maxIterations : Nat) :
    fit.run M fuel maxIterations =
      (ready.runPrepared M fuel maxIterations).map (·.after events) := by
  rw [run, if_neg (ne_true_of_eq_false unprepared), begun]

theorem run_longer (enough : fuel ≤ more) {maxIterations : Nat} {fit : Fit α σ n m}
    {call : Call α σ ε n m (RunSummary α)} (ends : fit.run M fuel maxIterations = some call) :
    fit.run M more maxIterations = some call := by
  rcases run_ended ends with ⟨prepared, loops⟩ | ⟨unprepared, ready, events, error, failed, rfl⟩ |
    ⟨unprepared, ready, events, rest, begun, found, rfl⟩
  · rw [run_of_prepared prepared]
    exact runPrepared_longer enough loops
  · rw [run, if_neg (ne_true_of_eq_false unprepared), failed, Call.fail]
  · rw [run_of_preparing unprepared begun, runPrepared_longer enough found, Option.map_some]

/-! ## Loops of iterations -/

theorem iterateUpTo_counts (M : Model α σ ε n m) (fuel base left made : Nat) (status : Status)
    (fit : Fit α σ n m) :
    iterateUpTo M fuel left (base + made) status fit =
      (iterateUpTo M fuel left made status fit).map (·.mapResult (Prod.map id (base + ·))) := by
  induction left generalizing made status fit with
  | zero => rfl
  | succ left ih =>
      rw [iterateUpTo, iterateUpTo]
      cases fit.iterate M fuel with
      | none => rfl
      | some first =>
          obtain ⟨next, events, result⟩ := first
          cases result with
          | error error => rfl
          | ok status =>
              dsimp only
              by_cases terminal : status.isTerminal = true
              · rw [if_pos terminal, if_pos terminal]
                rfl
              · rw [if_neg terminal, if_neg terminal, Nat.add_assoc, ih, Option.map_map,
                  Option.map_map]
                rfl

/-- A loop that may still go on when it stops is the first part of every longer one. -/
theorem Looped.add {left made count : Nat} {status last : Status} {fit : Fit α σ n m}
    {first : Call α σ ε n m (Status × Nat)} (loops : Looped M fuel left made status fit first)
    (stopped : first.result = .ok (last, count)) (goes : last.isTerminal = false) (others : Nat) :
    iterateUpTo M fuel (left + others) made status fit =
      (iterateUpTo M fuel others count last first.fit).map (·.after first.events) := by
  induction loops with
  | idle =>
      cases stopped
      rw [Nat.zero_add]
      exact Option.map_id'.symm
  | failed => cases stopped
  | ended _ terminal =>
      cases stopped
      rw [terminal] at goes
      cases goes
  | onward once onward _ ih =>
      rw [Nat.succ_add]
      simp only [iterateUpTo, once, if_neg (ne_true_of_eq_false onward)]
      rw [ih stopped, Option.map_map]
      congr 1
      funext call
      simp only [Function.comp_apply, Call.after, List.append_assoc]

/-! ## Runs -/

theorem iterateUpTo_prepared {left made : Nat} {status : Status} {fit : Fit α σ n m}
    {call : Call α σ ε n m (Status × Nat)} (prepared : fit.prepared = true)
    (ends : iterateUpTo M fuel left made status fit = some call) : call.fit.prepared = true := by
  refine (iterateUpTo_looped ends).keeps (I := fun fit => fit.prepared = true)
    (P := fun _ => True) (fun fit call prepared _ once => ?_) prepared
    (iterateThroughout_of_always (fun _ => trivial) left fit)
  have kept := (iterateReports_iterated M fuel fit).prepared
  rw [iterateWithin_eq once] at kept
  exact kept.trans prepared

def resumed (before : List (Event α)) (iterations : Nat)
    (call : Call α σ ε n m (RunSummary α)) : Call α σ ε n m (RunSummary α) :=
  (call.mapResult (RunSummary.continuing iterations)).after before

theorem runPrepared_add {maxIterations : Nat} {fit : Fit α σ n m}
    {first : Call α σ ε n m (RunSummary α)} {made : RunSummary α}
    (ends : fit.runPrepared M fuel maxIterations = some first) (stopped : first.result = .ok made)
    (goes : made.status = .improving) :
    ∃ before, first.events = before ++ [.finish .improving] ∧
      ∀ others, fit.runPrepared M fuel (maxIterations + others) =
        (first.fit.runPrepared M fuel others).map (resumed before made.iterations) := by
  obtain ⟨loop, found, rfl⟩ := Option.map_eq_some_iff.mp ends
  obtain ⟨last, events, result⟩ := loop
  cases result with
  | error error => cases stopped
  | ok ended =>
      obtain ⟨status, count⟩ := ended
      cases stopped
      have goes : status = .improving := goes
      subst goes
      refine ⟨events, rfl, ?_⟩
      intro others
      have counts := iterateUpTo_counts M fuel count others 0 .improving last
      rw [Nat.add_zero] at counts
      rw [runPrepared, runPrepared, (iterateUpTo_looped found).add rfl rfl, counts, Option.map_map,
        Option.map_map, Option.map_map]
      congr 1
      funext call
      obtain ⟨onward, later, result⟩ := call
      cases result with
      | error error => rfl
      | ok ended =>
          simp only [Function.comp_apply, Call.mapResult, Call.after, resumed, Except.map,
            List.append_assoc]
          rfl

theorem runPrepared_prepared {maxIterations : Nat} {fit : Fit α σ n m}
    {call : Call α σ ε n m (RunSummary α)} (prepared : fit.prepared = true)
    (ends : fit.runPrepared M fuel maxIterations = some call) : call.fit.prepared = true := by
  obtain ⟨loop, found, rfl⟩ := Option.map_eq_some_iff.mp ends
  have kept := iterateUpTo_prepared prepared found
  split
  · exact kept
  · exact kept

/-- A run that has stopped improving is the first part of every longer run: what the longer one does
is what the first part does, without its finish, and then what a run from there does. -/
theorem run_add {maxIterations : Nat} {fit : Fit α σ n m}
    {first : Call α σ ε n m (RunSummary α)} {made : RunSummary α}
    (ends : fit.run M fuel maxIterations = some first) (stopped : first.result = .ok made)
    (goes : made.status = .improving) :
    ∃ before, first.events = before ++ [.finish .improving] ∧
      ∀ others, fit.run M fuel (maxIterations + others) =
        (first.fit.run M fuel others).map (resumed before made.iterations) := by
  rcases run_ended ends with ⟨prepared, loops⟩ | ⟨_, ready, events, error, _, rfl⟩ |
    ⟨unprepared, ready, events, part, begun, found, rfl⟩
  · obtain ⟨before, told, splits⟩ := runPrepared_add loops stopped goes
    refine ⟨before, told, ?_⟩
    intro others
    rw [run_of_prepared prepared, run_of_prepared (runPrepared_prepared prepared loops), splits]
  · cases stopped
  · obtain ⟨before, told, splits⟩ := runPrepared_add found stopped goes
    have onward := runPrepared_prepared (prepare_readies unprepared begun) found
    refine ⟨events ++ before, ?_, ?_⟩
    · simp only [Call.after, told, List.append_assoc]
    · intro others
      rw [run_of_preparing unprepared begun, Call.after_fit, run_of_prepared onward, splits,
        Option.map_map]
      congr 1
      funext call
      simp only [Function.comp_apply, resumed, Call.after, List.append_assoc]

end Fit

/-! ## Sessions -/

namespace Session

variable {M : Model Float σ ε n m} {fuel most : Nat} {elapsed : String} {S : Session σ n m}
  {first : Reply σ ε n m (RunSummary Float)} {made : RunSummary Float}

/-- What a whole run comes to, and what the second of two parts does. The whole run leaves the same
fit and model, and returns the same with all iterations counted. Where the reporter is told of the
second part alone, it is told of both without a finish between them. -/
structure Rejoins (S later : Session σ n m) (before : List (Event Float)) (iterations : Nat)
    (elapsed remaining : String) (second whole : Reply σ ε n m (RunSummary Float)) : Prop where
  fit : whole.session.fit = second.session.fit
  result : whole.result = second.result.map (RunSummary.continuing iterations)
  told : ∃ events,
    second = later.timed remaining { fit := second.session.fit, events, result := second.result } ∧
    whole = S.timed elapsed
      { fit := whole.session.fit, events := before ++ events, result := whole.result }

/-- A run that has stopped improving may be gone on with, and nothing but its finish and the time
that it printed tells it from the first part of a longer run. -/
theorem run_splits [Products Float] (ends : S.run M fuel most elapsed = some first)
    (stopped : first.result = .ok made) (goes : made.status = .improving) :
    ∃ before,
      first = S.timed elapsed { fit := first.session.fit
                                events := before ++ [.finish .improving]
                                result := .ok made } ∧
      ∀ more ≥ fuel, ∀ others remaining total,
        Option.Rel (Rejoins S first.session before made.iterations total remaining)
          (first.session.run M more others remaining) (S.run M more (most + others) total) := by
  rw [run_timed] at ends
  obtain ⟨call, ended, rfl⟩ := Option.map_eq_some_iff.mp ends
  have stopped : call.result = .ok made := stopped
  obtain ⟨before, told, _⟩ := Fit.run_add ended stopped goes
  refine ⟨before, ?_, ?_⟩
  · obtain ⟨last, events, result⟩ := call
    cases stopped
    cases told
    rfl
  · intro more enough others remaining total
    obtain ⟨again, same, splits⟩ := Fit.run_add (Fit.run_longer enough ended) stopped goes
    obtain rfl : before = again := List.append_cancel_right (told.symm.trans same)
    rw [run_timed, run_timed, splits, Option.map_map]
    change Option.Rel _ ((call.fit.run M more others).map _) _
    cases call.fit.run M more others with
    | none => exact .none
    | some second => exact .some ⟨rfl, rfl, second.events, rfl, rfl⟩

def verboseLine : Session Unit 1 1 := (Session.ofFit none Fit.lineStart).setVerbose true

theorem line_splits : ∃ first second whole,
    verboseLine.run Fit.line 20 1 "1 s" = some first ∧
    first.session.run Fit.line 20 1 "2 s" = some second ∧
    verboseLine.run Fit.line 20 2 "3 s" = some whole ∧
    whole.session.fit = second.session.fit ∧
    whole.result = second.result.map (RunSummary.continuing 1) := by
  have improves : (verboseLine.run Fit.line 20 1 "1 s").bind (fun first =>
      first.result.toOption.map fun made => (made.status, made.iterations)) =
        some (.improving, 1) := by
    decide +kernel
  have returns : (verboseLine.run Fit.line 20 2 "3 s").isSome = true := by
    rw [run_timed, Option.isSome_map]
    decide +kernel
  obtain ⟨first, ends, succeeded⟩ := Option.bind_eq_some_iff.mp improves
  obtain ⟨made, stopped, summary⟩ := Option.map_eq_some_iff.mp succeeded
  obtain ⟨goes, iterations⟩ := Prod.mk.inj summary
  obtain ⟨before, _, splits⟩ := run_splits ends (ok_of_toOption stopped) goes
  obtain ⟨whole, total⟩ := Option.isSome_iff_exists.mp returns
  have rejoins := splits 20 (Nat.le_refl 20) 1 "2 s" "3 s"
  rw [show 1 + 1 = 2 from rfl, total] at rejoins
  cases last : first.session.run Fit.line 20 1 "2 s" with
  | none =>
      rw [last] at rejoins
      cases rejoins
  | some second =>
      rw [last] at rejoins
      cases rejoins with
      | some rejoins =>
          refine ⟨first, second, whole, ends, last, total, rejoins.fit, ?_⟩
          rw [rejoins.result, iterations]

/-- Each of two runs prints a time, and one run of both prints one. The finish of the first run
prints none. -/
theorem verboseLine_prints_times : ∃ first second whole,
    verboseLine.run Fit.line 20 1 "1 s" = some first ∧
    first.result.toOption.map RunSummary.status = some .improving ∧
    first.session.run Fit.line 20 1 "1 s" = some second ∧
    verboseLine.run Fit.line 20 2 "1 s" = some whole ∧
    (first.produced ++ second.produced).printed.output.count "time: 1 s" = 2 ∧
    whole.produced.printed.output.count "time: 1 s" = 1 ∧
    ((Reporter.own ⟨(Fit.lineStart.runReports Fit.line 20 1).toArray⟩).onFinish none
      .improving).2.printed.output.count "time: 1 s" = 0 := by
  have parts : ((verboseLine.run Fit.line 20 1 "1 s").bind fun first =>
      (first.session.run Fit.line 20 1 "1 s").map fun second =>
        (first.result.toOption.map RunSummary.status,
          (first.produced ++ second.produced).printed.output.count "time: 1 s")) =
      some (some .improving, 2) := by
    decide +kernel
  have once : ((verboseLine.run Fit.line 20 2 "1 s").map fun whole =>
      whole.produced.printed.output.count "time: 1 s") = some 1 := by
    decide +kernel
  obtain ⟨first, begun, rest⟩ := Option.bind_eq_some_iff.mp parts
  obtain ⟨second, ended, twice⟩ := Option.map_eq_some_iff.mp rest
  obtain ⟨whole, ends, count⟩ := Option.map_eq_some_iff.mp once
  obtain ⟨improving, twice⟩ := Prod.mk.inj twice
  exact ⟨first, second, whole, begun, improving, ended, ends, twice, count, by decide +kernel⟩

end Session

end LeastSquares

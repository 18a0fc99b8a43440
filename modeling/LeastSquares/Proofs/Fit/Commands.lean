import LeastSquares.Proofs.Fit.Finishing

/-!
# Commands

A command is a public call on a session, those that only concern its reporter included. What it does
to the fit of the session is what the call of the same name does to a fit.
-/

set_option autoImplicit false

namespace LeastSquares

variable {σ ε ρ : Type} {n m : Nat}

/-- A public call on a session. A run is told the time that it takes, and a call for the correlation
how many buffers there is memory for. -/
inductive Command where
  | setCriteria (criteria : StopCriteria Float)
  | setLimits (lower upper : Option (Array Float))
  | setInequalities (tags : Option (Array Inequality))
  | setReporter (reporter : CallerReporter)
  | setVerbose (verbose : Bool)
  | prepare
  | iterate
  | run (maxIterations : Nat) (elapsed : String)
  | correlation (budget : Nat)

def Command.request? : Command → Option (Request Float)
  | .setCriteria criteria => some (.setCriteria criteria)
  | .setLimits lower upper => some (.setLimits lower upper)
  | .setInequalities tags => some (.setInequalities tags)
  | .setReporter _ => none
  | .setVerbose _ => none
  | .prepare => some .prepare
  | .iterate => some .iterate
  | .run maxIterations _ => some (.run maxIterations)
  | .correlation budget => some (.correlation budget)

inductive Outcome (ε : Type) (n : Nat) where
  | set (result : Except (SetupError Float) Unit)
  | prepared (result : Except (FitError ε) Unit)
  | iterated (result : Except (FitError ε) Status)
  | ran (result : Except (FitError ε) (RunSummary Float))
  | correlated (result : Except (FitError ε) (DenseMatrix Float n n))

structure Response (σ ε : Type) (n m : Nat) where
  session : Session σ n m
  produced : Produced
  outcome : Outcome ε n

def Reply.response (outcome : Except (FitError ε) ρ → Outcome ε n) (reply : Reply σ ε n m ρ) :
    Response σ ε n m :=
  { session := reply.session, produced := reply.produced, outcome := outcome reply.result }

namespace Session

/-- The response to a setter, which leaves the session as it is if it fails. -/
def set (S : Session σ n m) : Except (SetupError Float) (Fit Float σ n m) → Response σ ε n m
  | .error error => { session := S, produced := .nothing, outcome := .set (.error error) }
  | .ok fit => { session := { S with fit }, produced := .nothing, outcome := .set (.ok ()) }

/-- The response to a command; `none` if an iteration is not over after `fuel` trial steps. -/
def obey [Products Float] (M : Model Float σ ε n m) (fuel : Nat) :
    Command → Session σ n m → Option (Response σ ε n m)
  | .setCriteria criteria, S => some (S.set (.ok (S.fit.setCriteria criteria)))
  | .setLimits lower upper, S => some (S.set (S.fit.setLimits lower upper))
  | .setInequalities tags, S => some (S.set (S.fit.setInequalities tags))
  | .setReporter reporter, S =>
      some { session := S.setReporter reporter, produced := .nothing, outcome := .set (.ok ()) }
  | .setVerbose verbose, S =>
      some { session := S.setVerbose verbose, produced := .nothing, outcome := .set (.ok ()) }
  | .prepare, S => some ((S.prepare M).response .prepared)
  | .iterate, S => (S.iterate M fuel).map (·.response .iterated)
  | .run maxIterations elapsed, S => (S.run M fuel maxIterations elapsed).map (·.response .ran)
  | .correlation budget, S => some ((S.correlationWithin budget M).response .correlated)

def obeyAll [Products Float] (M : Model Float σ ε n m) (fuel : Nat) :
    List Command → Session σ n m → Option (Session σ n m)
  | [], S => some S
  | command :: rest, S =>
      (S.obey M fuel command).bind fun response => obeyAll M fuel rest response.session

theorem set_fit (S : Session σ n m)
    (result : Except (SetupError Float) (Fit Float σ n m)) :
    (S.set result : Response σ ε n m).session.fit = result.toOption.getD S.fit := by
  cases result with
  | error error => rfl
  | ok fit => rfl

theorem setVerbose_fit (S : Session σ n m) (verbose : Bool) :
    (S.setVerbose verbose).fit = S.fit := by
  simp only [setVerbose]
  split
  · rfl
  · rfl
  · rfl

theorem obey_fit [Products Float] (M : Model Float σ ε n m) (fuel : Nat) (command : Command)
    (S : Session σ n m) :
    (S.obey M fuel command).map (·.session.fit) =
      command.request?.elim (some S.fit) fun request => S.fit.perform M fuel request := by
  cases command with
  | setCriteria criteria => rfl
  | setLimits lower upper => exact congrArg some (set_fit S (S.fit.setLimits lower upper))
  | setInequalities tags => exact congrArg some (set_fit S (S.fit.setInequalities tags))
  | setReporter reporter => rfl
  | setVerbose verbose => exact congrArg some (setVerbose_fit S verbose)
  | prepare => rfl
  | iterate =>
      rw [obey, iterate, Option.map_map, Option.map_map]
      rfl
  | run maxIterations elapsed =>
      rw [obey, run_timed, Option.map_map, Option.map_map]
      rfl
  | correlation budget => rfl

theorem obeyAll_fit [Products Float] (M : Model Float σ ε n m) (fuel : Nat)
    (commands : List Command)
    (S : Session σ n m) :
    (S.obeyAll M fuel commands).map (·.fit) =
      S.fit.performAll M fuel (commands.filterMap Command.request?) := by
  induction commands generalizing S with
  | nil => rfl
  | cons command rest ih =>
      have once := obey_fit M fuel command S
      cases kind : command.request? with
      | none =>
          rw [kind] at once
          obtain ⟨response, obeyed, same⟩ := Option.map_eq_some_iff.mp once
          rw [obeyAll, obeyed, Option.bind_some, List.filterMap_cons_none kind, ih, same]
      | some request =>
          rw [kind, Option.elim_some] at once
          rw [obeyAll, List.filterMap_cons_some kind, Fit.performAll, ← once]
          cases S.obey M fuel command with
          | none => rfl
          | some response => exact ih response.session

end Session

end LeastSquares

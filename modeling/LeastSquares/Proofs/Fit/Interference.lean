import LeastSquares.Proofs.Fit.Commands

/-!
# Calls for the correlation

A call for the correlation evaluates the derivatives where the fit is, and leaves nothing behind but
the state of the model and one more call counted. If the answers of the model do not depend on its
state, such calls can be put in anywhere: every other call does and returns the same, and tells the
reporter the same.
-/

set_option autoImplicit false

namespace LeastSquares

variable {α σ ε ρ : Type} {n m : Nat}

/-! ## Models without a state -/

/-- The answers of the model do not depend on its state. -/
structure Model.Stateless (M : Model α σ ε n m) : Prop where
  values (state other : σ) (a : Vector α n) (buffer : Vector α m) :
    (M.values state a buffer).mapState (fun _ => ()) =
      (M.values other a buffer).mapState fun _ => ()
  jacobian (state other : σ) (a : Vector α n) (buffer : DenseMatrix α m n) :
    (M.jacobian state a buffer).mapState (fun _ => ()) =
      (M.jacobian other a buffer).mapState fun _ => ()

/-- The model that always answers as this one does in the given state. -/
def Model.forgetful (M : Model α σ ε n m) (state : σ) : Model α Unit ε n m where
  values _ a buffer := (M.values state a buffer).mapState fun _ => ()
  jacobian _ a buffer := (M.jacobian state a buffer).mapState fun _ => ()

theorem Model.Stateless.simulates {M : Model α σ ε n m} (stateless : M.Stateless) (state : σ) :
    M.Simulates (M.forgetful state) fun _ => () where
  values other a buffer := stateless.values state other a buffer
  jacobian other a buffer := stateless.jacobian state other a buffer

/-! ## Fits with other counts -/

/-- The other fit is the same but for the state of its model, and for `extra` more calls for
derivatives that it has counted. -/
def Fit.Matches (extra : Nat) (fit other : Fit α σ n m) : Prop :=
  other = { fit with model := other.model, jacobianCalls := fit.jacobianCalls + extra }

theorem Fit.matches_iff {extra : Nat} {fit other : Fit α σ n m} :
    fit.Matches extra other ↔
      fit.viewed (fun _ => ()) extra = other.viewed (fun _ => ()) 0 := by
  constructor
  · intro same
    rw [same]
    rfl
  · intro same
    exact (congrArg (Fit.viewed (fun _ => other.model) 0) same).symm

theorem Fit.Matches.refl (fit : Fit α σ n m) : fit.Matches 0 fit := rfl

theorem Fit.Matches.trans {first second : Nat} {fit other last : Fit α σ n m}
    (same : fit.Matches first other) (again : other.Matches second last) :
    fit.Matches (first + second) last := by
  rw [Fit.Matches] at same again ⊢
  rw [again, same, Nat.add_assoc]

/-- The other call does the same, with more calls for derivatives counted, and returns the same but
for `change`. -/
structure Call.Matches (extra : Nat) (change : ρ → ρ) (call other : Call α σ ε n m ρ) :
    Prop where
  fit : call.fit.Matches extra other.fit
  events : other.events = call.events
  result : other.result = call.result.map change

theorem Call.matches_of_viewed {extra : Nat} {change : ρ → ρ} {call other : Call α σ ε n m ρ}
    (same : (call.viewed (fun _ => ()) extra).mapResult change = other.viewed (fun _ => ()) 0) :
    call.Matches extra change other where
  fit := Fit.matches_iff.mpr (congrArg Call.fit same)
  events := (congrArg Call.events same).symm
  result := (congrArg Call.result same).symm

theorem Call.mapResult_id (call : Call α σ ε n m ρ) : call.mapResult id = call := by
  rw [Call.mapResult, Except.map_id]
  rfl

namespace Fit

section Calls

variable [Scalar α] {M : Model α σ ε n m} {extra : Nat} {fit other : Fit α σ n m}

theorem prepare_matches (stateless : M.Stateless) (same : fit.Matches extra other) :
    (fit.prepare M).Matches extra id (other.prepare M) := by
  have simulates := stateless.simulates fit.model
  have plain := prepare_viewed simulates extra fit
  rw [matches_iff.mp same, prepare_viewed simulates 0 other] at plain
  apply Call.matches_of_viewed
  rw [Call.mapResult_id, plain]

theorem correlation_matches [Products α] (stateless : M.Stateless) (budget : Nat)
    (same : fit.Matches extra other) :
    (fit.correlation M budget).Matches extra id (other.correlation M budget) := by
  have simulates := stateless.simulates fit.model
  have plain := correlation_viewed simulates extra budget fit
  rw [matches_iff.mp same, correlation_viewed simulates 0 budget other] at plain
  apply Call.matches_of_viewed
  rw [Call.mapResult_id, plain]

theorem iterate_matches [Products α] (stateless : M.Stateless) (fuel : Nat)
    (same : fit.Matches extra other) :
    Option.Rel (Call.Matches extra id) (fit.iterate M fuel) (other.iterate M fuel) := by
  have simulates := stateless.simulates fit.model
  have plain := iterate_viewed simulates extra fuel fit
  rw [matches_iff.mp same, iterate_viewed simulates 0 fuel other] at plain
  apply rel_of_map_eq plain.symm
  intro call again alike
  apply Call.matches_of_viewed
  rw [Call.mapResult_id, alike]

theorem run_matches [Products α] (stateless : M.Stateless) (fuel maxIterations : Nat)
    (same : fit.Matches extra other) :
    Option.Rel (Call.Matches extra (RunSummary.counting extra)) (fit.run M fuel maxIterations)
      (other.run M fuel maxIterations) := by
  have simulates := stateless.simulates fit.model
  have plain := run_viewed simulates extra fuel maxIterations fit
  rw [matches_iff.mp same, run_viewed simulates 0 fuel maxIterations other] at plain
  apply rel_of_map_eq plain.symm
  intro call again alike
  apply Call.matches_of_viewed
  exact alike.trans (Call.mapResult_id _)

def evaluates (M : Model α σ ε n m) (fit : Fit α σ n m) : Bool :=
  fit.prepared && (fit.evaluateJacobian M).2.isOk

theorem evaluateJacobian_matches (M : Model α σ ε n m) (fit : Fit α σ n m) :
    fit.Matches (fit.evaluateJacobian M).2.isOk.toNat (fit.evaluateJacobian M).1 := by
  simp only [evaluateJacobian]
  cases (M.jacobian fit.model fit.parameters .zeros).failure? with
  | some error => rfl
  | none => rfl

/-- With any model, a call for the correlation leaves the same fit. It counts if it gets its
derivatives, also if there is no memory for what is made of them. -/
theorem correlation_leaves [Products α] (M : Model α σ ε n m) (budget : Nat) (fit : Fit α σ n m) :
    fit.Matches (fit.evaluates M).toNat (fit.correlation M budget).fit := by
  have asks := evaluateJacobian_matches M fit
  rcases fit.correlation_cases M budget with ⟨unprepared, refused⟩ | ⟨prepared, ends⟩
  · rw [refused, evaluates, unprepared]
    rfl
  · rw [evaluates, prepared, Bool.true_and]
    rcases ends with ⟨_, _, answer, failed⟩ | ⟨_, _, answer, ⟨_, served⟩ | ⟨_, starved⟩⟩
    · rw [failed]
      rw [answer] at asks ⊢
      exact asks
    · rw [served]
      rw [answer] at asks ⊢
      exact asks
    · rw [starved]
      rw [answer] at asks ⊢
      exact asks

end Calls

end Fit

/-! ## Sessions with other counts -/

def Outcome.counting (extra : Nat) : Outcome ε n → Outcome ε n
  | .ran result => .ran (result.map (RunSummary.counting extra))
  | other => other

namespace Session

structure Matches (extra : Nat) (S other : Session σ n m) : Prop where
  fit : S.fit.Matches extra other.fit
  reporter : other.reporter = S.reporter
  filter : other.filter = S.filter

end Session

structure Response.Matches (extra : Nat) (response other : Response σ ε n m) : Prop where
  session : response.session.Matches extra other.session
  produced : other.produced = response.produced
  outcome : other.outcome = response.outcome.counting extra

namespace Session

variable {M : Model Float σ ε n m} {extra fuel : Nat} {S T : Session σ n m}

theorem set_matches (same : S.Matches extra T)
    {result other : Except (SetupError Float) (Fit Float σ n m)}
    (alike : result.map (Fit.viewed (fun _ => ()) extra) = other.map (Fit.viewed (fun _ => ()) 0)) :
    (S.set result : Response σ ε n m).Matches extra (T.set other) := by
  cases result with
  | error error =>
      cases other with
      | error other =>
          cases alike
          exact ⟨same, rfl, rfl⟩
      | ok fit => cases alike
  | ok fit =>
      cases other with
      | error other => cases alike
      | ok other =>
          have fits := Fit.matches_iff.mpr (Except.ok.inj alike)
          exact ⟨⟨fits, same.reporter, same.filter⟩, rfl, rfl⟩

theorem reply_matches (same : S.Matches extra T) {change : ρ → ρ}
    {call other : Call Float σ ε n m ρ} (alike : call.Matches extra change other)
    (outcome : Except (FitError ε) ρ → Outcome ε n)
    (carries : ∀ result, outcome (result.map change) = (outcome result).counting extra) :
    ((S.reply call).response outcome).Matches extra ((T.reply other).response outcome) := by
  have told : T.reporter.onEvents T.filter other.events =
      S.reporter.onEvents S.filter call.events := by
    rw [same.reporter, same.filter, alike.events]
  refine ⟨⟨alike.fit, ?_, same.filter⟩, congrArg Prod.snd told, ?_⟩
  · exact congrArg Prod.fst told
  · exact (congrArg outcome alike.result).trans (carries call.result)

theorem reply_agrees (same : S.Matches extra T) {call other : Call Float σ ε n m ρ}
    (alike : call.Matches extra id other) (outcome : Except (FitError ε) ρ → Outcome ε n)
    (plain : ∀ result, (outcome result).counting extra = outcome result) :
    ((S.reply call).response outcome).Matches extra ((T.reply other).response outcome) := by
  apply reply_matches same alike outcome
  intro result
  rw [Except.map_id, id, plain]

theorem timed_matches (same : S.Matches extra T) (elapsed : String)
    {call other : Call Float σ ε n m (RunSummary Float)}
    (alike : call.Matches extra (RunSummary.counting extra) other) :
    ((S.timed elapsed call).response .ran).Matches extra
      ((T.timed elapsed other).response .ran) := by
  have replies := reply_matches same alike .ran fun _ => rfl
  refine ⟨replies.session, ?_, replies.outcome⟩
  have times : T.timing elapsed other.result = S.timing elapsed call.result := by
    rw [alike.result]
    cases call.result with
    | error error => rfl
    | ok summary => simp only [Except.map, timing, same.reporter, same.filter]
  exact congrArg₂ Produced.append replies.produced times

theorem setVerbose_matches (same : S.Matches extra T) (verbose : Bool) :
    (S.setVerbose verbose).Matches extra (T.setVerbose verbose) := by
  simp only [setVerbose, same.reporter]
  split
  · exact ⟨same.fit, rfl, same.filter⟩
  · exact ⟨same.fit, rfl, same.filter⟩
  · exact same

theorem obey_matches [Products Float] (stateless : M.Stateless) (fuel : Nat)
    (same : S.Matches extra T)
    (command : Command) :
    Option.Rel (Response.Matches extra) (S.obey M fuel command) (T.obey M fuel command) := by
  have fits := Fit.matches_iff.mp same.fit
  cases command with
  | setCriteria criteria =>
      refine .some (set_matches same (congrArg Except.ok ?_))
      exact congrArg (Fit.setCriteria · criteria) fits
  | setLimits lower upper =>
      refine .some (set_matches same ?_)
      rw [← Fit.setLimits_viewed, ← Fit.setLimits_viewed, fits]
  | setInequalities tags =>
      refine .some (set_matches same ?_)
      rw [← Fit.setInequalities_viewed, ← Fit.setInequalities_viewed, fits]
  | setReporter reporter => exact .some ⟨⟨same.fit, rfl, same.filter⟩, rfl, rfl⟩
  | setVerbose verbose => exact .some ⟨setVerbose_matches same verbose, rfl, rfl⟩
  | prepare =>
      have alike := Fit.prepare_matches stateless same.fit
      exact .some (reply_agrees same alike .prepared fun _ => rfl)
  | iterate =>
      have alike := Fit.iterate_matches stateless fuel same.fit
      rw [obey, obey, iterate, iterate, Option.map_map, Option.map_map]
      exact rel_map alike fun call other alike => reply_agrees same alike .iterated fun _ => rfl
  | run maxIterations elapsed =>
      have alike := Fit.run_matches stateless fuel maxIterations same.fit
      rw [obey, obey, run_timed, run_timed, Option.map_map, Option.map_map]
      exact rel_map alike fun call other alike => timed_matches same elapsed alike
  | correlation budget =>
      have alike := Fit.correlation_matches stateless budget same.fit
      exact .some (reply_agrees same alike .correlated fun _ => rfl)

theorem correlationWithin_matches [Products Float] (same : S.Matches extra T) (budget : Nat)
    (M : Model Float σ ε n m) :
    S.Matches (extra + (T.fit.evaluates M).toNat) (T.correlationWithin budget M).session := by
  have leaves := Fit.correlation_leaves M budget T.fit
  have reporter : (T.correlationWithin budget M).session.reporter = T.reporter := by
    simp only [correlationWithin, reply, Fit.correlation_events]
    rfl
  exact ⟨same.fit.trans leaves, reporter.trans same.reporter, same.filter⟩

end Session

/-! ## Sessions with calls put in -/

/-- A step of a session that calls for the correlation are put into, each of them with memory of its
own. -/
inductive SessionStep where
  | own (command : Command)
  | inserted (budget : Nat)

def SessionStep.own? : SessionStep → Option Command
  | own command => some command
  | inserted _ => none

def SessionStep.command : SessionStep → Command
  | own command => command
  | inserted budget => .correlation budget

namespace Session

variable {M : Model Float σ ε n m} {extra : Nat} {S T : Session σ n m}

/-- The number of the calls put in that get their derivatives, whatever becomes of them. -/
def evaluationsInserted [Products Float] (M : Model Float σ ε n m) (fuel : Nat) :
    List SessionStep → Session σ n m → Nat
  | [], _ => 0
  | .inserted budget :: rest, S =>
      (S.fit.evaluates M).toNat +
        evaluationsInserted M fuel rest (S.correlationWithin budget M).session
  | .own command :: rest, S => (S.obey M fuel command).elim 0 fun response =>
      evaluationsInserted M fuel rest response.session

theorem obeyAll_matches [Products Float] (stateless : M.Stateless) (fuel : Nat)
    (steps : List SessionStep)
    (same : S.Matches extra T) :
    Option.Rel (Matches (extra + evaluationsInserted M fuel steps T))
      (S.obeyAll M fuel (steps.filterMap SessionStep.own?))
      (T.obeyAll M fuel (steps.map SessionStep.command)) := by
  induction steps generalizing extra S T with
  | nil => exact .some same
  | cons step rest ih =>
      cases step with
      | inserted budget =>
          have onward := ih (correlationWithin_matches same budget M)
          rw [Nat.add_assoc] at onward
          exact onward
      | own command =>
          have alike := obey_matches stateless fuel same command
          have kept : SessionStep.own? (.own command) = some command := rfl
          rw [List.filterMap_cons_some kept, obeyAll, evaluationsInserted]
          change Option.Rel _ _ ((T.obey M fuel command).bind _)
          apply rel_bind alike
          intro first second _ obeyed same
          rw [obeyed]
          exact ih same.session

/-- Calls for the correlation may be put in anywhere if the answers of the model do not depend on
its state. The sessions with and without them are over together, and every command that comes next
returns, prints and reports the same. Apart from the state of the model, their fits differ only in
the count of calls for derivatives, by the number of the calls put in that get them. -/
theorem inserted_correlations_only_count [Products Float] (stateless : M.Stateless) (fuel : Nat)
    (S : Session σ n m)
    (steps : List SessionStep) :
    Option.Rel
      (fun plain other => plain.Matches (evaluationsInserted M fuel steps S) other ∧
        ∀ more command, Option.Rel (Response.Matches (evaluationsInserted M fuel steps S))
          (plain.obey M more command) (other.obey M more command))
      (S.obeyAll M fuel (steps.filterMap SessionStep.own?))
      (S.obeyAll M fuel (steps.map SessionStep.command)) := by
  have begun : S.Matches 0 S := ⟨Fit.Matches.refl S.fit, rfl, rfl⟩
  have related := obeyAll_matches stateless fuel steps begun
  rw [Nat.zero_add] at related
  generalize S.obeyAll M fuel (steps.filterMap SessionStep.own?) = plain,
    S.obeyAll M fuel (steps.map SessionStep.command) = other at related ⊢
  cases related with
  | none => exact .none
  | some same => exact .some ⟨same, fun more command => obey_matches stateless more same command⟩

/-! ## Calls put into a fit of the line -/

/-- The model of the line, which counts its calls and does not look at the count. -/
def tallyingLine : Model Float Nat Empty 1 1 where
  values calls a _ := { state := calls + 1, buffer := a, failure? := none }
  jacobian calls _ _ := { state := calls + 1, buffer := .ofFn fun _ _ => 1, failure? := none }

theorem tallyingLine_stateless : tallyingLine.Stateless where
  values _ _ _ _ := rfl
  jacobian _ _ _ _ := rfl

def tallyingSession : Session Nat 1 1 := Session.ofFit none { Fit.lineStart with model := 0 }

/-- Of the two calls put in, there is no memory for the second one. -/
theorem tallyingLine_counts : ∃ plain other,
    tallyingSession.obeyAll tallyingLine 20 [.prepare, .iterate, .run 1 "1 s"] = some plain ∧
    tallyingSession.obeyAll tallyingLine 20
      [.prepare, .correlation 3, .iterate, .correlation 2, .run 1 "1 s"] = some other ∧
    other.fit.parameters = plain.fit.parameters ∧ other.fit.chiSquare = plain.fit.chiSquare ∧
    other.fit.trust = plain.fit.trust ∧ other.fit.jacobianCalls = plain.fit.jacobianCalls + 2 := by
  let steps : List SessionStep :=
    [.own .prepare, .inserted 3, .own .iterate, .inserted 2, .own (.run 1 "1 s")]
  have made : evaluationsInserted tallyingLine 20 steps tallyingSession = 2 := by decide +kernel
  have returns : (tallyingSession.obeyAll tallyingLine 20
      [.prepare, .iterate, .run 1 "1 s"]).isSome = true := by
    decide +kernel
  have related :=
    inserted_correlations_only_count tallyingLine_stateless 20 tallyingSession steps
  obtain ⟨plain, first⟩ := Option.isSome_iff_exists.mp returns
  change Option.Rel _ (tallyingSession.obeyAll tallyingLine 20 [.prepare, .iterate, .run 1 "1 s"])
    (tallyingSession.obeyAll tallyingLine 20
      [.prepare, .correlation 3, .iterate, .correlation 2, .run 1 "1 s"]) at related
  rw [made, first] at related
  generalize tallyingSession.obeyAll tallyingLine 20
    [.prepare, .correlation 3, .iterate, .correlation 2, .run 1 "1 s"] = found at related ⊢
  cases related with
  | some both =>
      obtain ⟨⟨same, _, _⟩, _⟩ := both
      refine ⟨plain, _, first, rfl, ?_⟩
      rw [Fit.Matches] at same
      rw [same]
      exact ⟨rfl, rfl, rfl, rfl⟩

def blindLine : Model Float Unit Unit 1 1 where
  values _ a _ := { state := (), buffer := a, failure? := none }
  jacobian _ _ buffer := { state := (), buffer, failure? := some () }

/-- A call for the correlation that the model fails is not counted, though it was put in at a
prepared point and there is memory for it. -/
theorem blindLine_uncounted : blindLine.Stateless ∧ ∃ plain other,
    (Session.ofFit none Fit.lineStart).obeyAll blindLine 20 [.prepare] = some plain ∧
    plain.fit.prepared = true ∧
    (Session.ofFit none Fit.lineStart).obeyAll blindLine 20 [.prepare, .correlation 3] =
      some other ∧
    other.fit.jacobianCalls ≠ plain.fit.jacobianCalls + 1 := by
  refine ⟨⟨fun _ _ _ _ => rfl, fun _ _ _ _ => rfl⟩, _, _, rfl, ?_, rfl, ?_⟩
  · decide +kernel
  · decide +kernel

end Session

end LeastSquares

import LeastSquares.Proofs.Fit.Outcome
import LeastSquares.Proofs.Fit.Simulation

/-!
# What a fit asks its model

A recorded model keeps the calls for values that were made of it, in order, with what came back. It
answers as the model itself, so the calls that it has kept after some requests are those that the
requests make. This counts the calls of an iteration that is never over, too.
-/

set_option autoImplicit false

namespace LeastSquares

variable {α σ ε β : Type} {n m : Nat}

/-! ## Recorded models -/

structure ValueCall (α ε : Type) (n m : Nat) where
  parameters : Vector α n
  answer : Except ε (Vector α m)

structure Recording (α σ ε : Type) (n m : Nat) where
  state : σ
  asked : List (ValueCall α ε n m)

def Answer.result (answer : Answer σ ε β) : Except ε β :=
  match answer.failure? with
  | some error => .error error
  | none => .ok answer.buffer

def Model.recorded (M : Model α σ ε n m) : Model α (Recording α σ ε n m) ε n m where
  values recording a buffer :=
    let answer := M.values recording.state a buffer
    let call := { parameters := a, answer := answer.result }
    answer.mapState fun state => { state, asked := recording.asked ++ [call] }
  jacobian recording a buffer :=
    (M.jacobian recording.state a buffer).mapState fun state => { recording with state }

theorem Model.recorded_simulates (M : Model α σ ε n m) :
    M.recorded.Simulates M Recording.state :=
  ⟨fun _ _ _ => rfl, fun _ _ _ => rfl⟩

theorem Model.recorded_asked (M : Model α σ ε n m) (recording : Recording α σ ε n m)
    (a : Vector α n) (buffer : Vector α m) :
    (M.recorded.values recording a buffer).state.asked =
      recording.asked ++
        [{ parameters := a, answer := (M.recorded.values recording a buffer).result }] :=
  rfl

namespace Fit

def recording (fit : Fit α σ n m) : Fit α (Recording α σ ε n m) n m :=
  fit.mapModel fun state => { state, asked := [] }

theorem evaluateAt_asked {M : Model α σ ε n m} {fit asked : Fit α (Recording α σ ε n m) n m}
    {a : Vector α n} {answer : Except ε (Vector α m)}
    (answers : fit.evaluateAt M.recorded a = (asked, answer)) :
    asked.model.asked = fit.model.asked ++ [{ parameters := a, answer }] := by
  cases failure : (M.recorded.values fit.model a fit.spare).failure? with
  | some error =>
      simp only [evaluateAt, failure] at answers
      cases answers
      rw [Model.recorded_asked, Answer.result, failure]
  | none =>
      simp only [evaluateAt, failure] at answers
      cases answers
      rw [Model.recorded_asked, Answer.result, failure]

def AskedOnly (allowed : Vector α n → Prop) (fit : Fit α (Recording α σ ε n m) n m) : Prop :=
  ∀ call ∈ fit.model.asked, allowed call.parameters

theorem AskedOnly.of_asked {allowed : Vector α n → Prop}
    {fit later : Fit α (Recording α σ ε n m) n m} (only : fit.AskedOnly allowed)
    (same : later.model.asked = fit.model.asked) : later.AskedOnly allowed := by
  rw [AskedOnly, same]
  exact only

theorem AskedOnly.append {allowed : Vector α n → Prop}
    {fit later : Fit α (Recording α σ ε n m) n m} (only : fit.AskedOnly allowed)
    {call : ValueCall α ε n m} (asked : later.model.asked = fit.model.asked ++ [call])
    (may : allowed call.parameters) : later.AskedOnly allowed := by
  intro other member
  rw [asked, List.mem_append, List.mem_singleton] at member
  rcases member with before | rfl
  · exact only other before
  · exact may

variable [Scalar α]

/-! ## Calls that may not be over -/

section Within

variable [Products α] (M : Model α σ ε n m)

def trialsWithin (L : Linearization α n m) : (fuel : Nat) → Fit α σ n m → Fit α σ n m
  | 0, fit => fit
  | fuel + 1, fit =>
    match fit.trial M L with
    | .settled call => call.fit
    | .rejected next _ => trialsWithin L fuel next

def iterateWithin (fuel : Nat) (fit : Fit α σ n m) : Fit α σ n m :=
  if fit.prepared then
    match linearize M { fit with iteration := fit.iteration + 1 } with
    | .settled call => call.fit
    | .ready first _ problem => first.trialsWithin M problem fuel
  else fit

def iteratesWithin (fuel : Nat) : (left : Nat) → Fit α σ n m → Fit α σ n m
  | 0, fit => fit
  | left + 1, fit =>
    match fit.iterate M fuel with
    | none => fit.iterateWithin M fuel
    | some { fit, events := _, result := .error _ } => fit
    | some { fit, events := _, result := .ok status } =>
      if status.isTerminal then fit else iteratesWithin fuel left fit

def runWithin (fuel maxIterations : Nat) (fit : Fit α σ n m) : Fit α σ n m :=
  if fit.prepared then fit.iteratesWithin M fuel maxIterations
  else
    match fit.prepare M with
    | { fit, events := _, result := .error _ } => fit
    | { fit, events := _, result := .ok () } => fit.iteratesWithin M fuel maxIterations

/-- The fit that a call comes to, over or not, when it may make up to `fuel` trial steps in an
iteration. -/
def performWithin (fuel : Nat) (request : Request α) (fit : Fit α σ n m) : Fit α σ n m :=
  match request with
  | .iterate => fit.iterateWithin M fuel
  | .run maxIterations => fit.runWithin M fuel maxIterations
  | request => (fit.perform M fuel request).getD fit

def performAllWithin (fuel : Nat) : List (Request α) → Fit α σ n m → Fit α σ n m
  | [], fit => fit
  | request :: rest, fit =>
    match fit.perform M fuel request with
    | none => fit.performWithin M fuel request
    | some next => performAllWithin fuel rest next

/-- The calls for values that requests make, in order. -/
def asked (fuel : Nat) (requests : List (Request α)) (fit : Fit α σ n m) :
    List (ValueCall α ε n m) :=
  (fit.recording.performAllWithin M.recorded fuel requests).model.asked

end Within

section Over

variable {M : Model α σ ε n m} {L : Linearization α n m} {fuel : Nat}

theorem trialsWithin_eq {fit : Fit α σ n m} {call : Call α σ ε n m Status}
    (ends : trials M L fuel fit = some call) : fit.trialsWithin M L fuel = call.fit := by
  induction fuel generalizing fit call with
  | zero => cases ends
  | succ fuel ih =>
      rcases trials_ended ends with ended | ⟨next, events, rest, rejected, found, rfl⟩
      · simp only [trialsWithin, ended]
      · simp only [trialsWithin, rejected]
        rw [ih found, Call.after_fit]

variable [Products α]

theorem iterateWithin_eq {fit : Fit α σ n m} {call : Call α σ ε n m Status}
    (ends : fit.iterate M fuel = some call) : fit.iterateWithin M fuel = call.fit := by
  rw [iterateWithin]
  rcases iterate_ended ends with ⟨unprepared, rfl⟩ | ⟨prepared, prospect⟩ |
    ⟨prepared, first, events, L, rest, prospect, found, rfl⟩
  · rw [if_neg (ne_true_of_eq_false unprepared)]
    rfl
  · rw [if_pos prepared, prospect]
  · rw [if_pos prepared, prospect, Call.after_fit]
    exact trialsWithin_eq found

theorem Looped.within_eq {left made : Nat} {status : Status} {fit : Fit α σ n m}
    {call : Call α σ ε n m (Status × Nat)} (loops : Looped M fuel left made status fit call) :
    fit.iteratesWithin M fuel left = call.fit := by
  induction loops with
  | idle => rfl
  | failed once => simp only [iteratesWithin, once, Call.fail]
  | ended once terminal => simp only [iteratesWithin, once, if_pos terminal]
  | onward once goes _ ih =>
      simp only [iteratesWithin, once, if_neg (ne_true_of_eq_false goes), ih, Call.after_fit]

theorem runPrepared_within {maxIterations : Nat} {fit : Fit α σ n m}
    {call : Call α σ ε n m (RunSummary α)}
    (ends : fit.runPrepared M fuel maxIterations = some call) :
    fit.iteratesWithin M fuel maxIterations = call.fit := by
  obtain ⟨made, found, rfl⟩ := Option.map_eq_some_iff.mp ends
  rw [(iterateUpTo_looped found).within_eq]
  split
  · rfl
  · rfl

theorem runWithin_eq {maxIterations : Nat} {fit : Fit α σ n m}
    {call : Call α σ ε n m (RunSummary α)} (ends : fit.run M fuel maxIterations = some call) :
    fit.runWithin M fuel maxIterations = call.fit := by
  rw [runWithin]
  rcases run_ended ends with ⟨prepared, loops⟩ | ⟨unprepared, ready, events, error, failed, rfl⟩ |
    ⟨unprepared, ready, events, rest, begun, found, rfl⟩
  · rw [if_pos prepared]
    exact runPrepared_within loops
  · rw [if_neg (ne_true_of_eq_false unprepared), failed]
    rfl
  · rw [if_neg (ne_true_of_eq_false unprepared), begun, Call.after_fit]
    exact runPrepared_within found

theorem performWithin_eq {request : Request α} {fit next : Fit α σ n m}
    (performed : fit.perform M fuel request = some next) :
    fit.performWithin M fuel request = next := by
  cases request with
  | iterate =>
      obtain ⟨call, ends, rfl⟩ := Option.map_eq_some_iff.mp performed
      exact iterateWithin_eq ends
  | run maxIterations =>
      obtain ⟨call, ends, rfl⟩ := Option.map_eq_some_iff.mp performed
      exact runWithin_eq ends
  | setCriteria criteria => exact congrArg (Option.getD · fit) performed
  | setLimits lower upper => exact congrArg (Option.getD · fit) performed
  | setInequalities tags => exact congrArg (Option.getD · fit) performed
  | prepare => exact congrArg (Option.getD · fit) performed
  | correlation budget => exact congrArg (Option.getD · fit) performed

theorem performAllWithin_eq {requests : List (Request α)} {fit last : Fit α σ n m}
    (led : fit.performAll M fuel requests = some last) :
    fit.performAllWithin M fuel requests = last := by
  induction requests generalizing fit with
  | nil =>
      cases led
      rfl
  | cons request rest ih =>
      obtain ⟨next, performed, led⟩ := Option.bind_eq_some_iff.mp led
      rw [performAllWithin, performed]
      exact ih led

theorem performAllWithin_singleton (M : Model α σ ε n m) (fuel : Nat) (request : Request α)
    (fit : Fit α σ n m) :
    fit.performAllWithin M fuel [request] = fit.performWithin M fuel request := by
  rw [performAllWithin]
  cases performed : fit.perform M fuel request with
  | none => rfl
  | some next => exact (performWithin_eq performed).symm

theorem performAll_recorded {requests : List (Request α)} {fit last : Fit α σ n m}
    (led : fit.performAll M fuel requests = some last) :
    ∃ recorded, fit.recording.performAll M.recorded fuel requests = some recorded ∧
      recorded.mapModel Recording.state = last ∧
      recorded.model.asked = fit.asked M fuel requests := by
  have begun : fit.recording.mapModel (Recording.state (ε := ε)) = fit := rfl
  rw [← begun] at led
  obtain ⟨recorded, found, same⟩ := performAll_simulated M.recorded_simulates led
  refine ⟨recorded, found, same, ?_⟩
  rw [asked, performAllWithin_eq found]

end Over

/-! ## Keeping -/

section Keeping

variable {M : Model α σ ε n m} {fuel : Nat} {I : Fit α σ n m → Prop}

/-- What holds of every fit that a loop of trials goes on from, and what follows of the fit that it
leaves. -/
theorem trialsWithin_leaves {L : Linearization α n m} {left : Fit α σ n m → Prop}
    (halts : ∀ fit, I fit → left fit)
    (again : ∀ fit next events, I fit → fit.trial M L = .rejected next events → I next)
    (finished : ∀ fit call, I fit → fit.trial M L = .settled call → left call.fit)
    {fit : Fit α σ n m} (holds : I fit) : left (fit.trialsWithin M L fuel) := by
  induction fuel generalizing fit with
  | zero => exact halts fit holds
  | succ fuel ih =>
      rw [trialsWithin]
      cases ended : fit.trial M L with
      | settled last => exact finished fit last holds ended
      | rejected next events => exact ih (again fit next events holds ended)

variable [Products α]

theorem iterateWithin_keeps (count : ∀ fit, I fit → I { fit with iteration := fit.iteration + 1 })
    (linear : ∀ fit, I fit → I (linearize M fit).fit)
    (step : ∀ L fit, I fit → I (fit.trial M L).fit) {fit : Fit α σ n m} (holds : I fit) :
    I (fit.iterateWithin M fuel) := by
  rw [iterateWithin]
  split
  · have begun := linear _ (count fit holds)
    split
    · rename_i settled
      rw [settled] at begun
      exact begun
    · rename_i first events problem ready
      rw [ready] at begun
      refine trialsWithin_leaves (fun fit holds => holds) (fun fit next events holds again => ?_)
        (fun fit call holds finished => ?_) begun
      · have next := step problem fit holds
        rwa [again] at next
      · have last := step problem fit holds
        rwa [finished] at last
  · exact holds

theorem iteratesWithin_keeps (iterate : ∀ fit, I fit → I (fit.iterateWithin M fuel)) {left : Nat}
    {fit : Fit α σ n m} (holds : I fit) : I (fit.iteratesWithin M fuel left) := by
  induction left generalizing fit with
  | zero => exact holds
  | succ left ih =>
      have once := iterate fit holds
      rw [iteratesWithin]
      cases ends : fit.iterate M fuel with
      | none => exact once
      | some call =>
          rw [iterateWithin_eq ends] at once
          obtain ⟨next, events, result⟩ := call
          cases result with
          | error error => exact once
          | ok status =>
              dsimp only
              split
              · exact once
              · exact ih once

theorem runWithin_keeps (prepare : ∀ fit, I fit → I (fit.prepare M).fit)
    (iterate : ∀ fit, I fit → I (fit.iterateWithin M fuel)) {maxIterations : Nat}
    {fit : Fit α σ n m} (holds : I fit) : I (fit.runWithin M fuel maxIterations) := by
  rw [runWithin]
  split
  · exact iteratesWithin_keeps iterate holds
  · have ready := prepare fit holds
    split
    · rename_i prepared
      rw [prepared] at ready
      exact ready
    · rename_i prepared
      rw [prepared] at ready
      exact iteratesWithin_keeps iterate ready

theorem performWithin_keeps {request : Request α}
    (criteria : ∀ fit criteria, I fit → I (fit.setCriteria criteria))
    (limits : ∀ lower upper, request = .setLimits lower upper → ∀ fit next, I fit →
      fit.setLimits lower upper = .ok next → I next)
    (tags : ∀ tags, request = .setInequalities tags → ∀ fit next, I fit →
      fit.setInequalities tags = .ok next → I next)
    (prepare : ∀ fit, I fit → I (fit.prepare M).fit)
    (iterate : ∀ fit, I fit → I (fit.iterateWithin M fuel))
    (correlation : ∀ fit budget, I fit → I (fit.correlation M budget).fit)
    {fit : Fit α σ n m} (holds : I fit) : I (fit.performWithin M fuel request) := by
  have finished : ∀ next, fit.perform M fuel request = some next → I next := by
    intro next performed
    refine perform_keeps criteria limits tags prepare (fun fit call holds ends => ?_) correlation
      holds performed
    rw [← iterateWithin_eq ends]
    exact iterate fit holds
  cases request with
  | iterate => exact iterate fit holds
  | run maxIterations => exact runWithin_keeps prepare iterate holds
  | setCriteria criteria => exact finished _ rfl
  | setLimits lower upper => exact finished _ rfl
  | setInequalities tags => exact finished _ rfl
  | prepare => exact finished _ rfl
  | correlation budget => exact finished _ rfl

theorem performAllWithin_keeps {requests : List (Request α)}
    (each : ∀ request ∈ requests, ∀ fit, I fit → I (fit.performWithin M fuel request))
    {fit : Fit α σ n m} (holds : I fit) : I (fit.performAllWithin M fuel requests) := by
  induction requests generalizing fit with
  | nil => exact holds
  | cons request rest ih =>
      have once := each request List.mem_cons_self fit holds
      rw [performAllWithin]
      cases performed : fit.perform M fuel request with
      | none => exact once
      | some next =>
          rw [performWithin_eq performed] at once
          exact ih (fun later member => each later (List.mem_cons_of_mem _ member)) once

end Keeping

/-! ## Recorded calls -/

section Calls

variable {M : Model α σ ε n m}

theorem evaluateJacobian_asked {fit asked : Fit α (Recording α σ ε n m) n m}
    {answer : Except ε (DenseMatrix α m n)}
    (answers : fit.evaluateJacobian M.recorded = (asked, answer)) :
    asked.model.asked = fit.model.asked := by
  simp only [evaluateJacobian] at answers
  split at answers
  · cases answers
    rfl
  · cases answers
    rfl

theorem linearize_asked [Products α] (fit : Fit α (Recording α σ ε n m) n m) :
    (linearize M.recorded fit).fit.model.asked = fit.model.asked := by
  have asks : (fit.evaluateJacobian M.recorded).1.model.asked = fit.model.asked :=
    evaluateJacobian_asked (Prod.eta _).symm
  rw [linearize_fit]
  exact asks

theorem correlation_asked [Products α] (budget : Nat) (fit : Fit α (Recording α σ ε n m) n m) :
    (fit.correlation M.recorded budget).fit.model.asked = fit.model.asked := by
  let same (last : Fit α (Recording α σ ε n m) n m) : Prop := last.model.asked = fit.model.asked
  exact correlation_keeps same budget rfl fun answer => evaluateJacobian_asked answer

theorem trial_asked (L : Linearization α n m) (fit : Fit α (Recording α σ ε n m) n m) :
    (fit.trial M.recorded L).fit.model.asked = fit.model.asked ∨
    ∃ proposal answer, fit.propose L = .ok proposal ∧
      (fit.trial M.recorded L).fit.model.asked =
        fit.model.asked ++ [{ parameters := proposal.move.next, answer }] := by
  rcases fit.trial_cases M.recorded L with ⟨error, _, failed⟩ |
    ⟨proposal, asked, error, step, answer, failed⟩ | ⟨proposal, asked, values, step, answer, judged⟩
  · rw [failed]
    exact .inl rfl
  · refine .inr ⟨proposal, .error error, step, ?_⟩
    have asks := evaluateAt_asked answer
    rw [failed]
    exact asks
  · refine .inr ⟨proposal, .ok values, step, ?_⟩
    have asks := evaluateAt_asked answer
    rw [judged]
    rcases asked.judge_cases (ε := ε) L proposal values with ⟨_, status, settled⟩ |
      ⟨_, _, settled⟩ | ⟨_, _, again⟩
    · rw [settled]
      exact asks
    · rw [settled]
      exact asks
    · rw [again]
      exact asks

theorem prepare_asked {fit : Fit α (Recording α σ ε n m) n m} (unprepared : fit.prepared = false) :
    ∃ answer, (fit.prepare M.recorded).fit.model.asked =
      fit.model.asked ++ [{ parameters := fit.clamped, answer }] := by
  have asks := M.recorded_asked fit.model fit.clamped fit.values
  obtain ⟨answer, answers, ⟨error, _, _, failed⟩ | ⟨_, _, ready⟩⟩ :=
    prepare_outcome M.recorded unprepared
  · rw [answers] at asks
    rw [failed]
    exact ⟨_, asks⟩
  · rw [answers] at asks
    rw [ready]
    exact ⟨_, asks⟩

/-! ## What was asked -/

variable {allowed : Vector α n → Prop} {fit : Fit α (Recording α σ ε n m) n m}

theorem AskedOnly.prepare (only : fit.AskedOnly allowed)
    (may : fit.prepared = false → allowed fit.clamped) :
    (fit.prepare M.recorded).fit.AskedOnly allowed := by
  cases prepared : fit.prepared with
  | true =>
      rw [prepare_refused prepared]
      exact only
  | false =>
      obtain ⟨answer, asked⟩ := prepare_asked (M := M) prepared
      exact only.append asked (may prepared)

theorem AskedOnly.trial {L : Linearization α n m} (only : fit.AskedOnly allowed)
    (may : ∀ proposal, fit.propose L = .ok proposal → allowed proposal.move.next) :
    (fit.trial M.recorded L).fit.AskedOnly allowed := by
  rcases trial_asked L fit with same | ⟨proposal, answer, step, asked⟩
  · exact only.of_asked same
  · exact only.append asked (may proposal step)

end Calls

end Fit

end LeastSquares

import LeastSquares.Fit.Run
import LeastSquares.Proofs.Fit.Reachable

/-!
# Sessions

A session is a fit that was set up, and the calls that were made on it in order. A call that fails
is part of it like any other. What every single call keeps, a session keeps; and a whole run keeps
what preparing and iterating keep.
-/

set_option autoImplicit false

namespace LeastSquares

/-- A public call on a fit. -/
inductive Request (α : Type) where
  | setCriteria (criteria : StopCriteria α)
  | setLimits (lower upper : Option (Array α))
  | setInequalities (tags : Option (Array Inequality))
  | prepare
  | iterate
  | run (maxIterations : Nat)
  /-- A call for the correlation with memory for so many buffers. -/
  | correlation (budget : Nat)

namespace Request

variable {α : Type}

def setsLimits : Request α → Bool
  | setLimits _ _ => true
  | _ => false

def setsInequalities : Request α → Bool
  | setInequalities _ => true
  | _ => false

end Request

namespace Fit

variable {α σ ε : Type} [Scalar α] {n m : Nat}

theorem start_elsewhere {τ : Type} {model : σ} {parameters : Vector α n} {target : Vector α m}
    {sigma : Array α} {fit : Fit α σ n m} (other : τ) (elsewhere : Vector α n)
    (started : Fit.start model parameters target sigma = .ok fit) :
    Fit.start other elsewhere target sigma =
      .ok { fit with model := other, parameters := elsewhere } := by
  rw [Fit.start] at started ⊢
  split at started
  · cases started
  · rename_i dimensions
    rw [if_neg dimensions]
    split at started
    · rename_i length
      rw [dif_pos length]
      split at started
      · cases started
      · cases started
        rfl
    · cases started

theorem start_model {τ : Type} {model : σ} {parameters : Vector α n} {target : Vector α m}
    {sigma : Array α} {fit : Fit α σ n m} (other : τ)
    (started : Fit.start model parameters target sigma = .ok fit) :
    Fit.start other parameters target sigma = .ok { fit with model := other } := by
  have goes := start_elsewhere other parameters started
  obtain ⟨length, rfl⟩ := start_eq started
  exact goes

variable [Products α]

/-- The fit that a call leaves, whether it succeeds or fails; `none` if one of its iterations is not
over after `fuel` trial steps. -/
def perform (M : Model α σ ε n m) (fuel : Nat) :
    Request α → Fit α σ n m → Option (Fit α σ n m)
  | .setCriteria criteria, fit => some (fit.setCriteria criteria)
  | .setLimits lower upper, fit => some ((fit.setLimits lower upper).toOption.getD fit)
  | .setInequalities tags, fit => some ((fit.setInequalities tags).toOption.getD fit)
  | .prepare, fit => some (fit.prepare M).fit
  | .iterate, fit => (fit.iterate M fuel).map (·.fit)
  | .run maxIterations, fit => (fit.run M fuel maxIterations).map (·.fit)
  | .correlation budget, fit => some (fit.correlation M budget).fit

def performAll (M : Model α σ ε n m) (fuel : Nat) :
    List (Request α) → Fit α σ n m → Option (Fit α σ n m)
  | [], fit => some fit
  | request :: rest, fit => (fit.perform M fuel request).bind (performAll M fuel rest)

/-! ## The cases of a run -/

section Cases

variable {M : Model α σ ε n m} {fuel left made maxIterations : Nat} {fit : Fit α σ n m}

/-- A loop of iterations that is over. It makes none, or its first one fails or ends with a terminal
status, or it goes on from where that one leaves the fit. -/
inductive Looped (M : Model α σ ε n m) (fuel : Nat) :
    (left made : Nat) → Status → Fit α σ n m → Call α σ ε n m (Status × Nat) → Prop
  | idle (made : Nat) (status : Status) (fit : Fit α σ n m) :
      Looped M fuel 0 made status fit { fit, events := [], result := .ok (status, made) }
  | failed {left made : Nat} {status : Status} {fit next : Fit α σ n m} {events : List (Event α)}
      {error : FitError ε} (once : fit.iterate M fuel = some (.fail next events error)) :
      Looped M fuel (left + 1) made status fit (.fail next events error)
  | ended {left made : Nat} {status last : Status} {fit next : Fit α σ n m}
      {events : List (Event α)}
      (once : fit.iterate M fuel = some { fit := next, events, result := .ok last })
      (terminal : last.isTerminal = true) :
      Looped M fuel (left + 1) made status fit
        { fit := next, events, result := .ok (last, made + 1) }
  | onward {left made : Nat} {status last : Status} {fit next : Fit α σ n m}
      {events : List (Event α)} {rest : Call α σ ε n m (Status × Nat)}
      (once : fit.iterate M fuel = some { fit := next, events, result := .ok last })
      (goes : last.isTerminal = false) (loops : Looped M fuel left (made + 1) last next rest) :
      Looped M fuel (left + 1) made status fit (rest.after events)

theorem iterateUpTo_looped {status : Status} {call : Call α σ ε n m (Status × Nat)}
    (ends : iterateUpTo M fuel left made status fit = some call) :
    Looped M fuel left made status fit call := by
  induction left generalizing made status fit call with
  | zero =>
      cases ends
      exact .idle made status fit
  | succ left ih =>
      rw [iterateUpTo] at ends
      cases once : fit.iterate M fuel with
      | none =>
          rw [once] at ends
          cases ends
      | some first =>
          rw [once] at ends
          obtain ⟨next, events, result⟩ := first
          cases result with
          | error error =>
              cases ends
              exact .failed once
          | ok last =>
              cases terminal : last.isTerminal with
              | true =>
                  simp only [if_pos terminal] at ends
                  cases ends
                  exact .ended once terminal
              | false =>
                  simp only [if_neg (ne_true_of_eq_false terminal)] at ends
                  obtain ⟨rest, found, rfl⟩ := Option.map_eq_some_iff.mp ends
                  exact .onward once terminal (ih found)

theorem run_ended {call : Call α σ ε n m (RunSummary α)}
    (ends : fit.run M fuel maxIterations = some call) :
    fit.prepared = true ∧ fit.runPrepared M fuel maxIterations = some call ∨
    (fit.prepared = false ∧ ∃ ready events error, fit.prepare M = .fail ready events error ∧
      call = .fail ready events error) ∨
    fit.prepared = false ∧ ∃ ready events rest,
      fit.prepare M = { fit := ready, events, result := .ok () } ∧
        ready.runPrepared M fuel maxIterations = some rest ∧ call = rest.after events := by
  rw [run] at ends
  cases prepared : fit.prepared with
  | true =>
      rw [if_pos prepared] at ends
      exact .inl ⟨rfl, ends⟩
  | false =>
      rw [if_neg (ne_true_of_eq_false prepared)] at ends
      cases begun : fit.prepare M with
      | mk ready events result =>
          rw [begun] at ends
          cases result with
          | error error =>
              cases ends
              exact .inr (.inl ⟨rfl, ready, events, error, rfl, rfl⟩)
          | ok done =>
              obtain ⟨rest, found, rfl⟩ := Option.map_eq_some_iff.mp ends
              exact .inr (.inr ⟨rfl, ready, events, rest, rfl, found, rfl⟩)

end Cases

/-! ## What runs keep -/

section Define

variable (M : Model α σ ε n m) (fuel : Nat) (P : Fit α σ n m → Prop)

/-- `P` holds where each of up to `left` iterations begins. -/
def iterateThroughout : (left : Nat) → Fit α σ n m → Prop
  | 0, _ => True
  | left + 1, fit => P fit ∧ ∀ next events status,
      fit.iterate M fuel = some { fit := next, events, result := .ok status } →
        status.isTerminal = false → iterateThroughout left next

def runThroughout (maxIterations : Nat) (fit : Fit α σ n m) : Prop :=
  (fit.prepared = true → iterateThroughout M fuel P maxIterations fit) ∧
    (fit.prepared = false → ∀ ready events,
      fit.prepare M = { fit := ready, events, result := .ok () } →
        iterateThroughout M fuel P maxIterations ready)

end Define

section Keeping

variable {M : Model α σ ε n m} {fuel : Nat} {I P : Fit α σ n m → Prop}

theorem iterateThroughout_of_always (always : ∀ fit, P fit) (left : Nat) (fit : Fit α σ n m) :
    iterateThroughout M fuel P left fit := by
  induction left generalizing fit with
  | zero => trivial
  | succ left ih => exact ⟨always fit, fun next _ _ _ _ => ih next⟩

theorem runThroughout_of_always (always : ∀ fit, P fit) (maxIterations : Nat) (fit : Fit α σ n m) :
    runThroughout M fuel P maxIterations fit :=
  ⟨fun _ => iterateThroughout_of_always always maxIterations fit,
    fun _ ready _ _ => iterateThroughout_of_always always maxIterations ready⟩

/-- What an iteration keeps where `P` holds, a loop of iterations keeps that begin there. -/
theorem Looped.keeps {left made : Nat} {status : Status} {fit : Fit α σ n m}
    {call : Call α σ ε n m (Status × Nat)} (loops : Looped M fuel left made status fit call)
    (iterate : ∀ fit call, I fit → P fit → fit.iterate M fuel = some call → I call.fit)
    (holds : I fit) (throughout : iterateThroughout M fuel P left fit) : I call.fit := by
  induction loops with
  | idle => exact holds
  | failed once => exact iterate _ _ holds throughout.1 once
  | ended once => exact iterate _ _ holds throughout.1 once
  | onward once goes _ ih =>
      exact ih (iterate _ _ holds throughout.1 once) (throughout.2 _ _ _ once goes)

theorem runPrepared_keeps
    (iterate : ∀ fit call, I fit → P fit → fit.iterate M fuel = some call → I call.fit)
    {maxIterations : Nat} {fit : Fit α σ n m} {call : Call α σ ε n m (RunSummary α)} (holds : I fit)
    (throughout : iterateThroughout M fuel P maxIterations fit)
    (ends : fit.runPrepared M fuel maxIterations = some call) : I call.fit := by
  obtain ⟨made, found, rfl⟩ := Option.map_eq_some_iff.mp ends
  have kept := (iterateUpTo_looped found).keeps iterate holds throughout
  split
  · exact kept
  · exact kept

theorem run_keeps (prepare : ∀ fit, I fit → I (fit.prepare M).fit)
    (iterate : ∀ fit call, I fit → P fit → fit.iterate M fuel = some call → I call.fit)
    {maxIterations : Nat} {fit : Fit α σ n m} {call : Call α σ ε n m (RunSummary α)} (holds : I fit)
    (throughout : runThroughout M fuel P maxIterations fit)
    (ends : fit.run M fuel maxIterations = some call) : I call.fit := by
  have begun := prepare fit holds
  rcases run_ended ends with ⟨prepared, loops⟩ | ⟨_, ready, events, error, failed, rfl⟩ |
    ⟨unprepared, ready, events, rest, prepares, found, rfl⟩
  · exact runPrepared_keeps iterate holds (throughout.1 prepared) loops
  · rw [failed] at begun
    exact begun
  · rw [prepares] at begun
    have onward := throughout.2 unprepared ready events prepares
    have kept : I rest.fit := runPrepared_keeps iterate begun onward found
    exact kept

theorem performAll_keeps {requests : List (Request α)}
    (each : ∀ request ∈ requests, ∀ fit next, I fit → fit.perform M fuel request = some next →
      I next)
    {fit last : Fit α σ n m} (holds : I fit) (led : fit.performAll M fuel requests = some last) :
    I last := by
  induction requests generalizing fit with
  | nil =>
      cases led
      exact holds
  | cons request rest ih =>
      obtain ⟨next, performed, led⟩ := Option.bind_eq_some_iff.mp led
      have kept := each request List.mem_cons_self fit next holds performed
      exact ih (fun later member => each later (List.mem_cons_of_mem _ member)) kept led

/-- What every single operation keeps, a call keeps. A call that fails to set anything changes
nothing, and a run prepares and iterates. -/
theorem perform_keeps {request : Request α}
    (criteria : ∀ fit criteria, I fit → I (fit.setCriteria criteria))
    (limits : ∀ lower upper, request = .setLimits lower upper → ∀ fit next, I fit →
      fit.setLimits lower upper = .ok next → I next)
    (tags : ∀ tags, request = .setInequalities tags → ∀ fit next, I fit →
      fit.setInequalities tags = .ok next → I next)
    (prepare : ∀ fit, I fit → I (fit.prepare M).fit)
    (iterate : ∀ fit call, I fit → fit.iterate M fuel = some call → I call.fit)
    (correlation : ∀ fit budget, I fit → I (fit.correlation M budget).fit)
    {fit next : Fit α σ n m} (holds : I fit) (performed : fit.perform M fuel request = some next) :
    I next := by
  cases request with
  | setCriteria given =>
      cases performed
      exact criteria fit given holds
  | setLimits lower upper =>
      cases performed
      cases set : fit.setLimits lower upper with
      | error error => exact holds
      | ok next => exact limits lower upper rfl fit next holds set
  | setInequalities given =>
      cases performed
      cases set : fit.setInequalities given with
      | error error => exact holds
      | ok next => exact tags given rfl fit next holds set
  | prepare =>
      cases performed
      exact prepare fit holds
  | iterate =>
      obtain ⟨call, ends, rfl⟩ := Option.map_eq_some_iff.mp performed
      exact iterate fit call holds ends
  | run maxIterations =>
      obtain ⟨call, ends, rfl⟩ := Option.map_eq_some_iff.mp performed
      exact run_keeps prepare (fun fit call holds _ => iterate fit call holds) holds
        (runThroughout_of_always (fun _ => trivial) maxIterations fit) ends
  | correlation budget =>
      cases performed
      exact correlation fit budget holds

end Keeping

theorem Reachable.performAll {M : Model α σ ε n m} {fuel : Nat} {requests : List (Request α)}
    {fit last : Fit α σ n m} (reachable : Reachable M fit)
    (led : fit.performAll M fuel requests = some last) : Reachable M last := by
  refine performAll_keeps (fun request _ fit next known performed => ?_) reachable led
  exact perform_keeps
    (fun fit criteria known => known.setCriteria criteria)
    (fun lower upper _ fit next known set => known.setLimits set)
    (fun tags _ fit next known set => known.setInequalities set)
    (fun fit known => known.prepare)
    (fun fit call known ends => known.iterate ends)
    (fun fit budget known => known.correlation budget) known performed

/-! ## A fit of a straight line -/

def line : Model Float Unit Empty 1 1 where
  values _ a _ := { state := (), buffer := a, failure? := none }
  jacobian _ _ _ := { state := (), buffer := .ofFn fun _ _ => 1, failure? := none }

def lineStart : Fit Float Unit 1 1 :=
  { model := ()
    parameters := #v[5]
    limits := .unbounded
    targets := { target := #v[8], sigma := #v[2], tags := Vector.replicate 1 .equal }
    criteria := .off
    values := Vector.replicate 1 0
    spare := Vector.replicate 1 0
    active := Vector.replicate 1 true
    chiSquare := 0
    gradientNorm := 0
    freeCount := 1
    rank := 0
    trust := .initial
    prepared := false
    iteration := 0
    valueCalls := 0
    jacobianCalls := 0 }

theorem lineStart_started :
    Fit.start () #v[(5 : Float)] #v[(8 : Float)] #[(2 : Float)] = .ok lineStart := by
  rw [Fit.start, if_neg (by decide), dif_pos (show #[(2 : Float)].size = 1 from rfl)]
  split
  · rename_i index zero
    have found : _ = true := congrArg Option.isSome zero
    exact absurd found (by decide +kernel)
  · rfl

end Fit

end LeastSquares

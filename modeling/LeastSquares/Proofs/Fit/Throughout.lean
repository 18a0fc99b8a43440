import LeastSquares.Proofs.Fit.Requests

/-!
# What holds wherever an iteration begins

A statement about a session may ask something of every iteration in it: of those that are requested
and of those that a run makes. `Throughout P` says that `P` holds of every fit with which an
iteration of the session begins. What an iteration keeps where `P` holds, and every other call
keeps, then holds at the end of the session; and what follows from `P` together with it holds
throughout as well.
-/

set_option autoImplicit false

namespace LeastSquares.Fit

variable {α σ ε : Type} [Scalar α] [Products α] {n m : Nat}

section Define

variable (M : Model α σ ε n m) (fuel : Nat) (P : Fit α σ n m → Prop)

def performThroughout (fit : Fit α σ n m) : Request α → Prop
  | .iterate => P fit
  | .run maxIterations => runThroughout M fuel P maxIterations fit
  | _ => True

/-- `P` holds wherever an iteration of the session begins. -/
def Throughout : List (Request α) → Fit α σ n m → Prop
  | [], _ => True
  | request :: rest, fit => performThroughout M fuel P fit request ∧
      ∀ next, fit.perform M fuel request = some next → Throughout rest next

structure Keeps (I : Fit α σ n m → Prop) : Prop where
  criteria : ∀ fit criteria, I fit → I (fit.setCriteria criteria)
  limits : ∀ fit next lower upper, I fit → fit.setLimits lower upper = .ok next → I next
  tags : ∀ fit next tags, I fit → fit.setInequalities tags = .ok next → I next
  prepare : ∀ fit, I fit → I (fit.prepare M).fit
  iterate : ∀ fit call, I fit → P fit → fit.iterate M fuel = some call → I call.fit
  correlation : ∀ fit budget, I fit → I (fit.correlation M budget).fit

end Define

variable {M : Model α σ ε n m} {fuel : Nat} {P Q I : Fit α σ n m → Prop} {fit : Fit α σ n m}

theorem throughout_of_always (always : ∀ fit, P fit) (requests : List (Request α))
    (fit : Fit α σ n m) : Throughout M fuel P requests fit := by
  have performs (request : Request α) (fit : Fit α σ n m) :
      performThroughout M fuel P fit request := by
    cases request with
    | iterate => exact always fit
    | run maxIterations => exact runThroughout_of_always always maxIterations fit
    | setCriteria _ => trivial
    | setLimits _ _ => trivial
    | setInequalities _ => trivial
    | prepare => trivial
    | correlation _ => trivial
  induction requests generalizing fit with
  | nil => trivial
  | cons request rest ih => exact ⟨performs request fit, fun next _ => ih next⟩

theorem Keeps.of_trust {J : TrustRegion α n → Prop}
    (iterate : ∀ fit call, J fit.trust → P fit → fit.iterate M fuel = some call →
      J call.fit.trust) : Keeps M fuel P fun fit => J fit.trust where
  criteria _ _ holds := holds
  limits fit next lower upper holds set := by
    obtain ⟨limits, rfl⟩ := setLimits_eq set
    exact holds
  tags fit next tags holds set := by
    obtain ⟨targets, rfl⟩ := setInequalities_eq set
    split
    · exact holds
    · exact holds
  prepare fit holds := by
    rcases fit.prepare_cases M with same | ⟨model, parameters, values, failed⟩ |
      ⟨model, parameters, values, prepared⟩
    · rw [same]
      exact holds
    · rw [failed]
      exact holds
    · rw [prepared]
      exact holds
  iterate := iterate
  correlation fit budget holds := by
    refine correlation_keeps (fun fit => J fit.trust) budget holds fun answer => ?_
    rw [evaluateJacobian_eq answer]
    exact holds

/-! ## What is kept -/

namespace Keeps

variable (keeps : Keeps M fuel P I)

include keeps

theorem perform {request : Request α} {next : Fit α σ n m} (holds : I fit)
    (throughout : performThroughout M fuel P fit request)
    (performed : fit.perform M fuel request = some next) : I next := by
  cases request with
  | setCriteria criteria =>
      cases performed
      exact keeps.criteria fit criteria holds
  | setLimits lower upper =>
      cases performed
      cases set : fit.setLimits lower upper with
      | error error => exact holds
      | ok next => exact keeps.limits fit next lower upper holds set
  | setInequalities tags =>
      cases performed
      cases set : fit.setInequalities tags with
      | error error => exact holds
      | ok next => exact keeps.tags fit next tags holds set
  | prepare =>
      cases performed
      exact keeps.prepare fit holds
  | iterate =>
      obtain ⟨call, ends, rfl⟩ := Option.map_eq_some_iff.mp performed
      exact keeps.iterate fit call holds throughout ends
  | run maxIterations =>
      obtain ⟨call, ends, rfl⟩ := Option.map_eq_some_iff.mp performed
      exact run_keeps keeps.prepare keeps.iterate holds throughout ends
  | correlation budget =>
      cases performed
      exact keeps.correlation fit budget holds

theorem performAll {requests : List (Request α)} {last : Fit α σ n m} (holds : I fit)
    (throughout : Throughout M fuel P requests fit)
    (led : fit.performAll M fuel requests = some last) : I last := by
  induction requests generalizing fit with
  | nil =>
      cases led
      exact holds
  | cons request rest ih =>
      obtain ⟨next, performed, led⟩ := Option.bind_eq_some_iff.mp led
      exact ih (keeps.perform holds throughout.1 performed) (throughout.2 next performed) led

/-! ## What follows -/

theorem imp_iterate (gives : ∀ fit, I fit → P fit → Q fit) {left : Nat} (holds : I fit)
    (throughout : iterateThroughout M fuel P left fit) : iterateThroughout M fuel Q left fit := by
  induction left generalizing fit with
  | zero => trivial
  | succ left ih =>
      obtain ⟨here, onward⟩ := throughout
      refine ⟨gives fit holds here, fun next events status once goes => ?_⟩
      exact ih (keeps.iterate fit _ holds here once) (onward next events status once goes)

theorem imp_perform (gives : ∀ fit, I fit → P fit → Q fit) {request : Request α} (holds : I fit)
    (throughout : performThroughout M fuel P fit request) :
    performThroughout M fuel Q fit request := by
  cases request with
  | iterate => exact gives fit holds throughout
  | run maxIterations =>
      refine ⟨fun prepared => ?_, fun unprepared ready events prepares => ?_⟩
      · exact keeps.imp_iterate gives holds (throughout.1 prepared)
      · have begun := keeps.prepare fit holds
        rw [prepares] at begun
        exact keeps.imp_iterate gives begun (throughout.2 unprepared ready events prepares)
  | setCriteria _ => trivial
  | setLimits _ _ => trivial
  | setInequalities _ => trivial
  | prepare => trivial
  | correlation _ => trivial

theorem imp (gives : ∀ fit, I fit → P fit → Q fit) {requests : List (Request α)} (holds : I fit)
    (throughout : Throughout M fuel P requests fit) : Throughout M fuel Q requests fit := by
  induction requests generalizing fit with
  | nil => trivial
  | cons request rest ih =>
      refine ⟨keeps.imp_perform gives holds throughout.1, fun next performed => ?_⟩
      exact ih (keeps.perform holds throughout.1 performed) (throughout.2 next performed)

end Keeps

end LeastSquares.Fit

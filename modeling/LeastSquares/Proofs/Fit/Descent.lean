import LeastSquares.Proofs.Double
import LeastSquares.Proofs.Fit.Outcome
import LeastSquares.Proofs.Fit.Requests

/-!
# Chi-square never rises

Once a fit is prepared, and as long as its tags stay the same, only an accepted step changes
chi-square, and it is accepted because chi-square is lower there. This needs no more of the model
than that it is asked: it may answer with anything, and answer differently when it is asked again.
-/

set_option autoImplicit false

namespace LeastSquares.Fit

variable {α σ ε : Type} [Scalar α] {n m : Nat} {M : Model α σ ε n m} {fuel : Nat}

theorem iterate_descends [Products α] {fit : Fit α σ n m} {call : Call α σ ε n m Status}
    (ends : fit.iterate M fuel = some call) :
    (fit.Stays call.fit ∧ ∀ status, call.result = .ok status → status.tookStep = false) ∨
    (call.fit.prepared = fit.prepared ∧ call.fit.chiSquare < fit.chiSquare ∧
      ∃ status, call.result = .ok status ∧ status.tookStep = true) := by
  rcases iterate_outcome ends with ⟨stays, statuses⟩ |
    ⟨L, before, proposal, asked, values, status, first, takes, stepped, result, took⟩
  · refine .inl ⟨stays, fun status ended => ?_⟩
    rcases statuses status ended with rfl | rfl | ⟨rfl, _⟩
    · rfl
    · rfl
    · rfl
  · have stays : fit.Stays asked := first.trans takes.stays
    have lowers := takes.lowers
    rw [stays.chiSquare] at lowers
    refine .inr ⟨?_, ?_, status, result, took⟩
    · rw [stepped]
      exact stays.prepared
    · rw [stepped]
      exact lowers

structure Below (chiSquare : α) (fit : Fit α σ n m) : Prop where
  prepared : fit.prepared = true
  below : fit.chiSquare = chiSquare ∨ fit.chiSquare < chiSquare

theorem Below.stays {chiSquare : α} {fit later : Fit α σ n m} (below : fit.Below chiSquare)
    (stays : fit.Stays later) : later.Below chiSquare := by
  refine ⟨stays.prepared.trans below.prepared, ?_⟩
  rw [stays.chiSquare]
  exact below.below

variable [Scalar.Ordered α]

theorem Below.iterate [Products α] {chiSquare : α} {fit : Fit α σ n m}
    {call : Call α σ ε n m Status}
    (below : fit.Below chiSquare) (ends : fit.iterate M fuel = some call) :
    call.fit.Below chiSquare := by
  rcases iterate_descends ends with ⟨stays, _⟩ | ⟨prepared, lower, _⟩
  · exact below.stays stays
  · refine ⟨prepared.trans below.prepared, .inr ?_⟩
    rcases below.below with same | less
    · rw [← same]
      exact lower
    · exact Scalar.Ordered.lt_trans lower less

theorem Below.perform [Products α] {chiSquare : α} {request : Request α} {fit next : Fit α σ n m}
    (fixed : request.setsInequalities = false) (below : fit.Below chiSquare)
    (performed : fit.perform M fuel request = some next) : next.Below chiSquare := by
  refine perform_keeps ?_ ?_ ?_ ?_ ?_ ?_ below performed
  · intro fit criteria below
    exact ⟨below.prepared, below.below⟩
  · intro lower upper _ fit next below set
    obtain ⟨limits, rfl⟩ := setLimits_eq set
    exact ⟨below.prepared, below.below⟩
  · rintro tags rfl
    cases fixed
  · intro fit below
    rw [prepare_refused below.prepared]
    exact below
  · intro fit call below ends
    exact below.iterate ends
  · intro fit budget below
    exact below.stays (correlation_stays M budget fit)

/-- Chi-square never rises in a session of a prepared fit that leaves the tags alone. Every
iteration that takes a step lowers it, and every other one leaves chi-square, the parameters and
the values as they were. -/
theorem session_descends [Products α] {requests : List (Request α)} {fit later : Fit α σ n m}
    (prepared : fit.prepared = true)
    (fixed : ∀ request ∈ requests, request.setsInequalities = false)
    (led : fit.performAll M fuel requests = some later) :
    (later.chiSquare = fit.chiSquare ∨ later.chiSquare < fit.chiSquare) ∧
    ∀ fuel call, later.iterate M fuel = some call →
      (∃ status, call.result = .ok status ∧ status.tookStep = true ∧
        call.fit.chiSquare < later.chiSquare) ∨
      ((∀ status, call.result = .ok status → status.tookStep = false) ∧
        call.fit.chiSquare = later.chiSquare ∧ call.fit.parameters = later.parameters ∧
        call.fit.values = later.values) := by
  have below : later.Below fit.chiSquare :=
    performAll_keeps (fun request member fit next below performed =>
      below.perform (fixed request member) performed) ⟨prepared, .inl rfl⟩ led
  refine ⟨below.below, fun fuel call ends => ?_⟩
  rcases iterate_descends ends with ⟨stays, statuses⟩ | ⟨_, lower, status, result, took⟩
  · exact .inr ⟨statuses, stays.chiSquare, stays.parameters, stays.values⟩
  · exact .inl ⟨status, result, took, lower⟩

def lineDescent : List (Request Float) :=
  [.iterate, .setLimits none (some #[7]), .correlation 3, .run 4]

theorem line_descends : (lineStart.prepare line).fit.prepared = true ∧
    (∀ request ∈ lineDescent, request.setsInequalities = false) ∧
    ∃ later, (lineStart.prepare line).fit.performAll line 20 lineDescent = some later ∧
      (later.chiSquare = (lineStart.prepare line).fit.chiSquare ∨
        later.chiSquare < (lineStart.prepare line).fit.chiSquare) := by
  have prepared : (lineStart.prepare line).fit.prepared = true := by decide +kernel
  have fixed : ∀ request ∈ lineDescent, request.setsInequalities = false := by
    simp [lineDescent, Request.setsInequalities]
  have ends : ((lineStart.prepare line).fit.performAll line 20 lineDescent).isSome = true := by
    decide +kernel
  obtain ⟨later, led⟩ := Option.isSome_iff_exists.mp ends
  exact ⟨prepared, fixed, later, led, (session_descends prepared fixed led).1⟩

end LeastSquares.Fit

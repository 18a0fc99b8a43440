import LeastSquares.Proofs.Fit.Bounds

/-!
# Where a fit ends

Preparing and taking a step bring the parameters into the limits, and a parameter that is stuck is
at one. An iteration that ends at a minimum, or because the radius is too small, ends where it
began: limits that were set since the last step may lie behind. And a step that is not a number is
not cut short at any limit.
-/

set_option autoImplicit false

namespace LeastSquares

variable {α σ ε : Type} [Scalar α] [Scalar.Ordered α] {n m : Nat}

namespace Limits

variable {L : Limits α n}

theorem limit_number (upright : L.Upright) {p : Fin n} {limit : α}
    (given : limit ∈ L.lower p ∨ limit ∈ L.upper p) : Scalar.isNaN limit = false := by
  rw [Scalar.Ordered.isNaN_eq_false_iff]
  cases below : L.lower p with
  | none => exact Scalar.Ordered.position_of_endless _ (.inl (upright.lowerless p below))
  | some lower =>
      cases above : L.upper p with
      | none => exact Scalar.Ordered.position_of_endless _ (.inr (upright.upperless p above))
      | some upper =>
          have ordered := Scalar.Ordered.number_of_le (upright.ordered p lower below upper above)
          rw [← Scalar.Ordered.isNaN_eq_false_iff]
          rcases given with same | same
          · cases below.symm.trans same
            exact ordered.1
          · cases above.symm.trans same
            exact ordered.2

theorem encloses_iff (upright : L.Upright) (a : Vector α n) :
    L.Encloses a ↔ L.Admits a ∧ ∀ p, Scalar.isNaN (a p) = false := by
  constructor
  · intro encloses
    refine ⟨fun p => ⟨fun limit below => ?_, fun limit above => ?_⟩, fun p => ?_⟩
    · exact Scalar.Ordered.not_lt_of_le ((encloses p).1 limit below)
    · exact Scalar.Ordered.not_lt_of_le ((encloses p).2 limit above)
    · cases below : L.lower p with
      | some limit => exact (Scalar.Ordered.number_of_le ((encloses p).1 limit below)).2
      | none =>
          rw [Scalar.Ordered.isNaN_eq_false_iff]
          exact Scalar.Ordered.position_of_endless _ (.inl (upright.lowerless p below))
  · rintro ⟨admits, numbers⟩ p
    refine ⟨fun limit below => ?_, fun limit above => ?_⟩
    · exact Scalar.Ordered.le_of_not_lt (limit_number upright (.inl below)) (numbers p)
        ((admits p).1 limit below)
    · exact Scalar.Ordered.le_of_not_lt (numbers p) (limit_number upright (.inr above))
        ((admits p).2 limit above)

end Limits

/-- Whether an iteration that ends so may end where it began, beyond a limit. -/
def Status.rests : Status → Bool
  | .minimumFound | .deltaIsTooSmall => true
  | .improving | .chiSquareIsOk | .chiSquareChangeTooSmall | .allParametersAreStuck => false

theorem Status.rests_of_tookStep {status : Status} (took : status.tookStep = true) :
    status.rests = false := by
  cases status with
  | improving => rfl
  | chiSquareIsOk => rfl
  | chiSquareChangeTooSmall => rfl
  | minimumFound => cases took
  | allParametersAreStuck => cases took
  | deltaIsTooSmall => cases took

theorem Status.tookStep_of_goes {status : Status} (goes : status.isTerminal = false) :
    status.tookStep = true := by
  cases status with
  | improving => rfl
  | chiSquareIsOk => rfl
  | chiSquareChangeTooSmall => rfl
  | minimumFound => cases goes
  | allParametersAreStuck => cases goes
  | deltaIsTooSmall => cases goes

namespace Fit

variable [Products α] {M : Model α σ ε n m} {fuel : Nat}

theorem stuck_admitted {fit : Fit α σ n m} (upright : fit.limits.Upright) {J : DenseMatrix α m n}
    (stuck : ∀ p, fit.free J p = false) : fit.limits.Admits fit.parameters := by
  intro p
  exact Limits.touching_admitted upright (touches_of_not_free (stuck p))

theorem iterate_admits_iff {fit : Fit α σ n m} {call : Call α σ ε n m Status} {status : Status}
    (upright : fit.limits.Upright) (ends : fit.iterate M fuel = some call)
    (result : call.result = .ok status) :
    fit.limits.Admits call.fit.parameters ↔
      (status.rests = true → fit.limits.Admits fit.parameters) := by
  rcases iterate_outcome ends with ⟨stays, statuses⟩ | ⟨_, _, _, _, _, other, _, _, _, known, took⟩
  · rcases statuses status result with rfl | rfl | ⟨rfl, J, stuck⟩
    · rw [stays.parameters]
      exact ⟨fun admits _ => admits, fun rests => rests rfl⟩
    · rw [stays.parameters]
      exact ⟨fun admits _ => admits, fun rests => rests rfl⟩
    · have limits := stays.limits
      rw [← limits] at upright ⊢
      exact iff_of_true (stuck_admitted upright stuck) fun rests => by cases rests
  · cases known.symm.trans result
    refine iff_of_true (iterate_admitted upright ends result took) fun rests => ?_
    rw [Status.rests_of_tookStep took] at rests
    cases rests

/-! ## Runs -/

/-- A run that ends with a terminal status ends with an iteration, either its first or one that
begins within the limits. -/
theorem Looped.last {left made count : Nat} {status last : Status} {fit : Fit α σ n m}
    {call : Call α σ ε n m (Status × Nat)} (loops : Looped M fuel left made status fit call)
    (upright : fit.limits.Upright) (goes : status.isTerminal = false)
    (result : call.result = .ok (last, count)) (terminal : last.isTerminal = true) :
    ∃ before final, before.iterate M fuel = some final ∧ final.result = .ok last ∧
      call.fit = final.fit ∧ before.limits = fit.limits ∧ made < count ∧
      (count = made + 1 → before = fit) ∧
      (count ≠ made + 1 → fit.limits.Admits before.parameters) := by
  induction loops with
  | idle =>
      cases result
      rw [goes] at terminal
      cases terminal
  | failed => cases result
  | @ended _ made _ _ fit _ _ once =>
      cases result
      exact ⟨fit, _, once, rfl, rfl, rfl, Nat.lt_succ_self made, fun _ => rfl,
        fun more => absurd rfl more⟩
  | @onward _ made _ _ fit next _ _ once onward _ ih =>
      have admitted : fit.limits.Admits next.parameters :=
        iterate_admitted upright once rfl (Status.tookStep_of_goes onward)
      have limits : next.limits = fit.limits := iterate_limits once
      obtain ⟨before, final, last, ended, same, kept, more, first, later⟩ :=
        ih (limits ▸ upright) onward result
      refine ⟨before, final, last, ended, same, kept.trans limits, by omega, by omega,
        fun _ => ?_⟩
      by_cases second : count = made + 1 + 1
      · rw [first second]
        exact admitted
      · rw [← limits]
        exact later second

theorem runPrepared_last {maxIterations : Nat} {fit : Fit α σ n m}
    {call : Call α σ ε n m (RunSummary α)} {summary : RunSummary α} (upright : fit.limits.Upright)
    (ends : fit.runPrepared M fuel maxIterations = some call)
    (result : call.result = .ok summary) (terminal : summary.status.isTerminal = true) :
    ∃ before final, before.iterate M fuel = some final ∧ final.result = .ok summary.status ∧
      call.fit = final.fit ∧ before.limits = fit.limits ∧
      (summary.iterations = 1 → before = fit) ∧
      (summary.iterations ≠ 1 → fit.limits.Admits before.parameters) := by
  obtain ⟨made, found, rfl⟩ := Option.map_eq_some_iff.mp ends
  obtain ⟨last, events, ended⟩ := made
  cases ended with
  | error error => cases result
  | ok ended =>
      obtain ⟨status, count⟩ := ended
      cases result
      obtain ⟨before, final, once, same, left, kept, _, first, later⟩ :=
        (iterateUpTo_looped found).last upright rfl rfl terminal
      exact ⟨before, final, once, same, left, kept, first, later⟩

theorem run_last {maxIterations : Nat} {fit : Fit α σ n m} {call : Call α σ ε n m (RunSummary α)}
    {summary : RunSummary α} (upright : fit.limits.Upright)
    (ends : fit.run M fuel maxIterations = some call) (result : call.result = .ok summary)
    (terminal : summary.status.isTerminal = true) :
    ∃ before final, before.iterate M fuel = some final ∧ final.result = .ok summary.status ∧
      call.fit = final.fit ∧ before.limits = fit.limits ∧
      (fit.prepared = true → summary.iterations = 1 → before = fit) ∧
      ((fit.prepared = true → summary.iterations ≠ 1) → fit.limits.Admits before.parameters) := by
  rcases run_ended ends with ⟨prepared, loops⟩ | ⟨_, ready, events, error, _, rfl⟩ |
    ⟨unprepared, ready, events, rest, begun, found, rfl⟩
  · obtain ⟨before, final, once, same, left, kept, first, later⟩ :=
      runPrepared_last upright loops result terminal
    exact ⟨before, final, once, same, left, kept, fun _ => first,
      fun more => later (more prepared)⟩
  · cases result
  · have limits := prepare_limits M fit
    have admitted := prepare_admitted (M := M) upright unprepared
    rw [begun] at limits admitted
    have limits : ready.limits = fit.limits := limits
    obtain ⟨before, final, once, same, left, kept, first, later⟩ :=
      runPrepared_last (limits ▸ upright) found result terminal
    refine ⟨before, final, once, same, left, kept.trans limits,
      fun prepared => absurd prepared (ne_true_of_eq_false unprepared), fun _ => ?_⟩
    by_cases only : summary.iterations = 1
    · rw [first only]
      exact admitted
    · rw [← limits]
      exact later only

/-! ## Sessions -/

/-- In every session, an iteration that returns a status, and a run that ends with a terminal one,
leave the parameters between their limits, unless one of them is not a number, or the status is one
at which an iteration rests and the last one began beyond a limit. A fit is beyond a limit only if
limits were set after it was prepared. -/
theorem session_encloses {model : σ} {parameters : Vector α n} {target : Vector α m}
    {sigma : Array α} {first fit : Fit α σ n m} {before : List (Request α)}
    (started : Fit.start model parameters target sigma = .ok first)
    (led : first.performAll M fuel before = some fit) :
    (∀ fuel call status, fit.iterate M fuel = some call → call.result = .ok status →
      (call.fit.limits.Encloses call.fit.parameters ↔
        (∀ p, Scalar.isNaN (call.fit.parameters p) = false) ∧
        (status.rests = true → fit.limits.Admits fit.parameters))) ∧
    (∀ fuel maxIterations call summary, fit.run M fuel maxIterations = some call →
      call.result = .ok summary → summary.status.isTerminal = true →
      (call.fit.limits.Encloses call.fit.parameters ↔
        (∀ p, Scalar.isNaN (call.fit.parameters p) = false) ∧
        (summary.status.rests = true → fit.prepared = true → summary.iterations = 1 →
          fit.limits.Admits fit.parameters))) ∧
    ∀ fuel requests later, (fit.prepared = true → fit.limits.Admits fit.parameters) →
      (∀ request ∈ requests, request.setsLimits = false) →
      fit.performAll M fuel requests = some later → later.prepared = true →
      later.limits.Admits later.parameters := by
  have upright := session_upright started led
  refine ⟨?_, ?_, ?_⟩
  · intro fuel call status ends result
    rw [iterate_limits ends, Limits.encloses_iff upright, iterate_admits_iff upright ends result,
      and_comm]
  · intro fuel maxIterations call summary ends result terminal
    obtain ⟨begun, final, once, ended, left, limits, first, later⟩ :=
      run_last upright ends result terminal
    have admits : (summary.status.rests = true → begun.limits.Admits begun.parameters) ↔
        (summary.status.rests = true → fit.prepared = true → summary.iterations = 1 →
          fit.limits.Admits fit.parameters) := by
      refine forall_congr' fun _ => ?_
      constructor
      · intro admits prepared only
        rwa [first prepared only] at admits
      · intro admits
        by_cases single : fit.prepared = true ∧ summary.iterations = 1
        · rw [first single.1 single.2]
          exact admits single.1 single.2
        · rw [limits]
          exact later fun prepared only => single ⟨prepared, only⟩
    rw [← limits] at upright
    rw [left, iterate_limits once, Limits.encloses_iff upright,
      iterate_admits_iff upright once ended, and_comm, admits]
  · intro fuel requests later admitted fixed led prepared
    have moves := performAll_moves upright fixed led
    rw [moves.limits]
    rcases moves.moved with ⟨parameters, same⟩ | within
    · rw [parameters]
      exact admitted (same.symm.trans prepared)
    · exact within

/-- Limits that are set at a minimum leave it behind. -/
theorem line_left_behind : ∃ (fit : Fit Float Unit 1 1) (call : Call Float Unit Empty 1 1 Status),
    Fit.start () #v[(5 : Float)] #v[(8 : Float)] #[(2 : Float)] = .ok lineStart ∧
    lineStart.performAll line 40 [.prepare, .run 9, .setLimits none (some #[2])] = some fit ∧
    fit.iterate line 1 = some call ∧ call.result = .ok .minimumFound ∧
    ¬ call.fit.limits.Encloses call.fit.parameters := by
  have rests : ((lineStart.performAll line 40 [.prepare, .run 9, .setLimits none (some #[2])]).bind
      fun fit => (fit.iterate line 1).map fun call =>
        (call.result.toOption, decide (fit.limits.Admits fit.parameters))) =
      some (some .minimumFound, false) := by
    decide +kernel
  obtain ⟨fit, led, found⟩ := Option.bind_eq_some_iff.mp rests
  obtain ⟨call, ends, both⟩ := Option.map_eq_some_iff.mp found
  obtain ⟨status, beyond⟩ := Prod.mk.inj both
  have result : call.result = .ok .minimumFound := by
    cases ended : call.result with
    | error error =>
        rw [ended] at status
        cases status
    | ok other =>
        rw [ended] at status
        cases status
        rfl
  refine ⟨fit, call, lineStart_started, led, ends, result, fun encloses => ?_⟩
  have enclosed := (session_encloses lineStart_started led).1 1 call .minimumFound ends result
  exact of_decide_eq_false beyond ((enclosed.mp encloses).2 rfl)

end Fit

end LeastSquares

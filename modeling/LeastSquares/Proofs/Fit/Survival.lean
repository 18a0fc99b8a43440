import LeastSquares.Proofs.Fit.Enclosure

/-!
# What survives a failure

A call that fails leaves the point that was last accepted, with all that is known about it: the
values, the active points and chi-square. A fit that could not be prepared can be prepared again,
and then asks the model at the same point, since its parameters are within the limits already. A
run that fails leaves what the last iteration before the failing one has left.
-/

set_option autoImplicit false

namespace LeastSquares

variable {α σ ε : Type} [Scalar α] {n m : Nat}

/-! ## Clamping -/

namespace Limits

variable {L : Limits α n} {p : Fin n} {a : α}

def EnclosesAt (L : Limits α n) (p : Fin n) (a : α) : Prop :=
  (∀ limit ∈ L.lower p, limit ≤ a) ∧ ∀ limit ∈ L.upper p, a ≤ limit

variable [Scalar.Ordered α]

theorem clamp_of_encloses (encloses : L.EnclosesAt p a) : L.clamp p a = a := by
  obtain ⟨atLeast, atMost⟩ := encloses
  rw [clamp]
  cases below : L.lower p with
  | none =>
      cases above : L.upper p with
      | none => rfl
      | some upper => exact Scalar.Ordered.min_of_le (atMost upper above)
  | some lower =>
      have raised : Scalar.max a lower = a := Scalar.Ordered.max_of_le (atLeast lower below)
      cases above : L.upper p with
      | none => exact raised
      | some upper =>
          dsimp only
          rw [raised]
          exact Scalar.Ordered.min_of_le (atMost upper above)

theorem clamp_cases (upright : L.Upright) (p : Fin n) (a : α) :
    L.clamp p a = a ∧ Scalar.isNaN a = false ∨
      (L.clamp p a ∈ L.lower p ∨ L.clamp p a ∈ L.upper p) := by
  rw [clamp]
  cases below : L.lower p with
  | none =>
      have number : Scalar.isNaN a = false := by
        rw [Scalar.Ordered.isNaN_eq_false_iff]
        exact Scalar.Ordered.position_of_endless _ (.inl (upright.lowerless p below))
      cases above : L.upper p with
      | none => exact .inl ⟨rfl, number⟩
      | some upper =>
          rcases Scalar.Ordered.min_choice a upper with same | same
          · exact .inl ⟨same, number⟩
          · exact .inr (.inr (congrArg some same.symm))
  | some lower =>
      cases above : L.upper p with
      | none =>
          rcases Scalar.Ordered.max_choice a lower with kept | raised
          · exact .inl kept
          · exact .inr (.inl (congrArg some raised.symm))
      | some upper =>
          dsimp only
          rcases Scalar.Ordered.min_choice (Scalar.max a lower) upper with same | same
          · rw [same]
            rcases Scalar.Ordered.max_choice a lower with kept | raised
            · exact .inl kept
            · exact .inr (.inl (congrArg some raised.symm))
          · exact .inr (.inr (congrArg some same.symm))

end Limits

namespace Fit

section Clamping

variable [Scalar.Ordered α] {fit : Fit α σ n m}

theorem clamped_cases (upright : fit.limits.Upright) (p : Fin n) :
    fit.clamped p = fit.parameters p ∧ Scalar.isNaN (fit.parameters p) = false ∨
      (fit.clamped p ∈ fit.limits.lower p ∨ fit.clamped p ∈ fit.limits.upper p) := by
  rw [clamped, Vector.get_ofFn]
  dsimp only
  split
  · rename_i same
    obtain ⟨_, _, number⟩ := (Scalar.Ordered.beq_iff _ _).mp same
    refine .inl ⟨rfl, ?_⟩
    rw [Scalar.Ordered.isNaN_eq_false_iff, number]
    rfl
  · exact Limits.clamp_cases upright p (fit.parameters p)

theorem clamped_encloses (upright : fit.limits.Upright) : fit.limits.Encloses fit.clamped := by
  rw [Limits.encloses_iff upright]
  refine ⟨clamped_admitted upright, fun p => ?_⟩
  rcases clamped_cases upright p with ⟨same, number⟩ | limit
  · rw [same]
    exact number
  · exact Limits.limit_number upright limit

theorem clamped_of_encloses {p : Fin n} (encloses : fit.limits.EnclosesAt p (fit.parameters p)) :
    fit.clamped p = fit.parameters p := by
  rw [clamped, Vector.get_ofFn]
  dsimp only
  rw [Limits.clamp_of_encloses encloses, ite_self]

theorem clamped_clamped {later : Fit α σ n m} (upright : fit.limits.Upright)
    (limits : later.limits = fit.limits) (parameters : later.parameters = fit.clamped) :
    later.clamped = later.parameters := by
  refine Vector.ext_get fun p => clamped_of_encloses ?_
  rw [limits, parameters]
  exact clamped_encloses upright p

end Clamping

/-! ## Preparing -/

/-- What a failing preparation leaves: nothing but the state of the model, the contents of the
values, and the parameters has changed, and these only as far as they were outside the limits. -/
structure Clamps (fit later : Fit α σ n m) : Prop where
  same : later =
    { fit with model := later.model, parameters := fit.clamped, values := later.values }
  unprepared : later.prepared = false
  encloses : later.limits.Encloses later.parameters
  kept : ∀ p, fit.limits.EnclosesAt p (fit.parameters p) → later.parameters p = fit.parameters p
  moved : ∀ p, later.parameters p = fit.parameters p ∨ later.parameters p ∈ fit.limits.lower p ∨
    later.parameters p ∈ fit.limits.upper p

/-- The fit can be prepared, and then asks the model at its parameters as they are. -/
structure Retryable (M : Model α σ ε n m) (fit : Fit α σ n m) : Prop where
  unprepared : fit.prepared = false
  settled : fit.clamped = fit.parameters
  result : (fit.prepare M).result =
    match (M.values fit.model fit.parameters fit.values).failure? with
    | none => .ok ()
    | some error => .error (.model error)

theorem retryable_of_settled (M : Model α σ ε n m) {fit : Fit α σ n m}
    (unprepared : fit.prepared = false) (settled : fit.clamped = fit.parameters) :
    fit.Retryable M := by
  refine ⟨unprepared, settled, ?_⟩
  obtain ⟨answer, asked, ⟨error, failed, result, _⟩ | ⟨answered, result, _⟩⟩ :=
    prepare_outcome M unprepared
  · rw [settled] at asked
    rw [result, asked, failed]
  · rw [settled] at asked
    rw [result, asked, answered]

section Preparing

variable [Scalar.Ordered α] {M : Model α σ ε n m} {fit : Fit α σ n m}

theorem prepare_clamps {error : FitError ε} (upright : fit.limits.Upright)
    (unprepared : fit.prepared = false) (failed : (fit.prepare M).result = .error error) :
    fit.Clamps (fit.prepare M).fit := by
  obtain ⟨answer, _, ⟨_, _, _, left⟩ | ⟨_, result, _⟩⟩ := prepare_outcome M unprepared
  · rw [left]
    exact
      { same := rfl
        unprepared := unprepared
        encloses := clamped_encloses upright
        kept := fun p encloses => clamped_of_encloses encloses
        moved := fun p => (clamped_cases upright p).imp_left And.left }
  · rw [result] at failed
    cases failed

theorem Clamps.retryable {later : Fit α σ n m} (clamps : fit.Clamps later) (M : Model α σ ε n m)
    (upright : fit.limits.Upright) : later.Retryable M := by
  have limits : later.limits = fit.limits := by rw [clamps.same]
  have parameters : later.parameters = fit.clamped := by rw [clamps.same]
  exact retryable_of_settled M clamps.unprepared (clamped_clamped upright limits parameters)

end Preparing

/-! ## Iterating -/

variable [Products α] {M : Model α σ ε n m} {fuel : Nat}

theorem iterate_survives {fit : Fit α σ n m} {call : Call α σ ε n m Status} {error : FitError ε}
    (ends : fit.iterate M fuel = some call) (failed : call.result = .error error) :
    fit.Stays call.fit := by
  rcases iterate_outcome ends with ⟨stays, _⟩ | ⟨_, _, _, _, _, _, _, _, _, result, _⟩
  · exact stays
  · rw [result] at failed
    cases failed

inductive Leads (M : Model α σ ε n m) (fuel : Nat) : Nat → Fit α σ n m → Fit α σ n m → Prop
  | nil (fit : Fit α σ n m) : Leads M fuel 0 fit fit
  | cons {count : Nat} {fit last : Fit α σ n m} {call : Call α σ ε n m Status} {status : Status}
      (once : fit.iterate M fuel = some call) (result : call.result = .ok status)
      (goes : status.isTerminal = false) (rest : Leads M fuel count call.fit last) :
      Leads M fuel (count + 1) fit last

/-- The iteration after so many that succeed fails, and leaves the point they have led to. -/
structure Breaks (M : Model α σ ε n m) (fuel count : Nat) (error : FitError ε)
    (fit last left : Fit α σ n m) : Prop where
  leads : Leads M fuel count fit last
  fails : ∃ call, last.iterate M fuel = some call ∧ call.result = .error error ∧ call.fit = left
  stays : last.Stays left

theorem Breaks.cons {count : Nat} {error : FitError ε} {fit last left : Fit α σ n m}
    {call : Call α σ ε n m Status} {status : Status} (once : fit.iterate M fuel = some call)
    (result : call.result = .ok status) (goes : status.isTerminal = false)
    (breaks : Breaks M fuel count error call.fit last left) :
    Breaks M fuel (count + 1) error fit last left :=
  ⟨.cons once result goes breaks.leads, breaks.fails, breaks.stays⟩

theorem Looped.breaks {most made : Nat} {status : Status} {fit : Fit α σ n m}
    {call : Call α σ ε n m (Status × Nat)} {error : FitError ε}
    (loops : Looped M fuel most made status fit call) (failed : call.result = .error error) :
    ∃ count last, count < most ∧ Breaks M fuel count error fit last call.fit := by
  induction loops with
  | idle => cases failed
  | @failed most _ _ fit _ _ _ once =>
      cases failed
      exact ⟨0, fit, Nat.succ_pos most, .nil fit, ⟨_, once, rfl, rfl⟩, iterate_survives once rfl⟩
  | ended => cases failed
  | onward once goes _ ih =>
      obtain ⟨count, last, fewer, breaks⟩ := ih failed
      exact ⟨count + 1, last, Nat.succ_lt_succ fewer, breaks.cons once rfl goes⟩

theorem runPrepared_breaks {maxIterations : Nat} {fit : Fit α σ n m}
    {call : Call α σ ε n m (RunSummary α)} {error : FitError ε}
    (ends : fit.runPrepared M fuel maxIterations = some call)
    (failed : call.result = .error error) :
    ∃ count last, count < maxIterations ∧ Breaks M fuel count error fit last call.fit := by
  obtain ⟨made, found, rfl⟩ := Option.map_eq_some_iff.mp ends
  obtain ⟨left, events, ended⟩ := made
  cases ended with
  | error own =>
      cases failed
      exact (iterateUpTo_looped found).breaks rfl
  | ok ended => cases failed

/-- A run of a prepared fit begins there, and a run of another one where preparing leaves it. -/
def Opens (M : Model α σ ε n m) (fit begun : Fit α σ n m) : Prop :=
  fit.prepared = true ∧ begun = fit ∨
    fit.prepared = false ∧ (fit.prepare M).result = .ok () ∧ begun = (fit.prepare M).fit

theorem run_breaks {maxIterations : Nat} {fit : Fit α σ n m} {call : Call α σ ε n m (RunSummary α)}
    {error : FitError ε} (ends : fit.run M fuel maxIterations = some call)
    (failed : call.result = .error error) :
    (fit.prepared = false ∧ (fit.prepare M).result = .error error ∧
      call.fit = (fit.prepare M).fit) ∨
    ∃ begun count last, fit.Opens M begun ∧ count < maxIterations ∧
      Breaks M fuel count error begun last call.fit := by
  rcases run_ended ends with ⟨prepared, loops⟩ | ⟨unprepared, ready, events, other, once, rfl⟩ |
    ⟨unprepared, ready, events, rest, once, found, rfl⟩
  · obtain ⟨count, last, fewer, breaks⟩ := runPrepared_breaks loops failed
    exact .inr ⟨fit, count, last, .inl ⟨prepared, rfl⟩, fewer, breaks⟩
  · cases failed
    rw [once]
    exact .inl ⟨unprepared, rfl, rfl⟩
  · obtain ⟨count, last, fewer, breaks⟩ := runPrepared_breaks found failed
    refine .inr ⟨ready, count, last, .inr ⟨unprepared, ?_, ?_⟩, fewer, breaks⟩
    · rw [once]
    · rw [once]

/-! ## Sessions -/

/-- In every session, a call that fails leaves the point that was last accepted and the settings. A
failing preparation of a prepared fit changes nothing, and that of another one may be repeated; a
failing iteration stays where it began; and a failing run leaves what preparing has left, if that
fails, or else what the iteration before the failing one has left. -/
theorem session_survives [Scalar.Ordered α] {model : σ} {parameters : Vector α n}
    {target : Vector α m} {sigma : Array α} {first fit : Fit α σ n m} {before : List (Request α)}
    (started : Fit.start model parameters target sigma = .ok first)
    (led : first.performAll M fuel before = some fit) :
    (∀ error, (fit.prepare M).result = .error error →
      (fit.prepared = true → (fit.prepare M).fit = fit) ∧
      (fit.prepared = false →
        fit.Clamps (fit.prepare M).fit ∧ (fit.prepare M).fit.Retryable M)) ∧
    (∀ fuel call error, fit.iterate M fuel = some call → call.result = .error error →
      fit.Stays call.fit) ∧
    (∀ budget, fit.Stays (fit.correlation M budget).fit) ∧
    ∀ fuel maxIterations call error, fit.run M fuel maxIterations = some call →
      call.result = .error error →
      (fit.prepared = false ∧ (fit.prepare M).result = .error error ∧
        call.fit = (fit.prepare M).fit) ∨
      ∃ begun count last, fit.Opens M begun ∧ count < maxIterations ∧
        Breaks M fuel count error begun last call.fit := by
  have upright := session_upright started led
  refine ⟨?_, ?_, ?_, ?_⟩
  · intro error failed
    constructor
    · intro prepared
      rw [prepare_refused prepared]
      rfl
    · intro unprepared
      have clamps := prepare_clamps upright unprepared failed
      exact ⟨clamps, clamps.retryable M upright⟩
  · intro fuel call error ends failed
    exact iterate_survives ends failed
  · intro budget
    exact correlation_stays M budget fit
  · intro fuel maxIterations call error ends failed
    exact run_breaks ends failed

/-- The model of one point whose value is the square of the parameter, and which fails at the third
call for values. -/
def failing : Model Float Nat Unit 1 1 where
  values calls a _ :=
    { state := calls + 1
      buffer := a.map fun x => x * x
      failure? := if calls < 2 then none else some () }
  jacobian calls a _ := { state := calls, buffer := .ofFn fun _ p => a p + a p, failure? := none }

theorem failing_survives :
    ∃ (first fit : Fit Float Nat 1 1) (call : Call Float Nat Unit 1 1 (RunSummary Float)),
      Fit.start 0 #v[(5 : Float)] #v[(8 : Float)] #[(2 : Float)] = .ok first ∧
      first.performAll failing 20 [.prepare] = some fit ∧
      fit.run failing 20 4 = some call ∧ call.fit.parameters 0 < fit.parameters 0 ∧
      ∃ error count last, call.result = .error error ∧
        Breaks failing 20 count error fit last call.fit := by
  have started := start_model (0 : Nat) lineStart_started
  have runs : ((Fit.performAll failing 20 [.prepare] { lineStart with model := 0 }).bind fun fit =>
      (fit.run failing 20 4).map fun call => (fit.prepared, call.result.toOption.isSome,
        decide (call.fit.parameters 0 < fit.parameters 0))) = some (true, false, true) := by
    decide +kernel
  obtain ⟨fit, led, found⟩ := Option.bind_eq_some_iff.mp runs
  obtain ⟨call, ends, facts⟩ := Option.map_eq_some_iff.mp found
  simp only [Prod.mk.injEq, decide_eq_true_eq] at facts
  obtain ⟨prepared, failed, moved⟩ := facts
  cases result : call.result with
  | ok summary =>
      rw [result] at failed
      cases failed
  | error error =>
      refine ⟨_, fit, call, started, led, ends, moved, error, ?_⟩
      rcases (session_survives started led).2.2.2 20 4 call error ends result with
        ⟨unprepared, _⟩ | ⟨begun, count, last, opens, _, breaks⟩
      · rw [prepared] at unprepared
        cases unprepared
      · rcases opens with ⟨_, rfl⟩ | ⟨unprepared, _⟩
        · exact ⟨count, last, result, breaks⟩
        · rw [prepared] at unprepared
          cases unprepared

end Fit

end LeastSquares

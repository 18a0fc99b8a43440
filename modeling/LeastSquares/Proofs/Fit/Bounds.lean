import LeastSquares.Proofs.Double
import LeastSquares.Proofs.Fit.Limits
import LeastSquares.Proofs.Fit.Recording

/-!
# Points that a model is asked at

Whatever is asked of the model between two changes of the limits is asked within the limits, and a
parameter that an iteration has frozen has the same value in all of its trials. A parameter that
was beyond a limit when it was set is brought back by the next step, and not before.
-/

set_option autoImplicit false

namespace LeastSquares.Fit

variable {α σ ε : Type} [Scalar α] {n m : Nat} {M : Model α σ ε n m} {fuel : Nat}

/-! ## Moving -/

structure Moves (fit later : Fit α σ n m) : Prop where
  limits : later.limits = fit.limits
  moved : later.parameters = fit.parameters ∧ later.prepared = fit.prepared ∨
    fit.limits.Admits later.parameters

theorem Stays.moves {fit later : Fit α σ n m} (stays : fit.Stays later) : fit.Moves later :=
  ⟨stays.limits, .inl ⟨stays.parameters, stays.prepared⟩⟩

theorem Moves.trans {fit later last : Fit α σ n m} (first : fit.Moves later)
    (second : later.Moves last) : fit.Moves last := by
  refine ⟨second.limits.trans first.limits, ?_⟩
  rcases second.moved with ⟨parameters, prepared⟩ | admitted
  · rw [parameters, prepared]
    exact first.moved
  · rw [first.limits] at admitted
    exact .inr admitted

theorem propose_move {L : Linearization α n m} {fit : Fit α σ n m} {proposal : Proposal α n}
    (step : fit.propose L = .ok proposal) : ∃ x, proposal.move = fit.move L.free x := by
  rw [propose] at step
  split at step
  · cases step
  · cases step
    exact ⟨_, rfl⟩

section Moving

variable [Scalar.Ordered α] {fit : Fit α σ n m} (upright : fit.limits.Upright)

include upright

theorem propose_admitted {L : Linearization α n m} {proposal : Proposal α n}
    (step : fit.propose L = .ok proposal) : fit.limits.Admits proposal.move.next := by
  obtain ⟨x, moved⟩ := propose_move step
  rw [moved]
  exact move_admitted upright L.free x

theorem prepare_admitted (unprepared : fit.prepared = false) :
    fit.limits.Admits (fit.prepare M).fit.parameters := by
  have admitted := clamped_admitted upright
  obtain ⟨answer, _, ⟨error, _, _, failed⟩ | ⟨_, _, ready⟩⟩ := prepare_outcome M unprepared
  · rw [failed]
    exact admitted
  · rw [ready]
    exact admitted

theorem prepare_moves (M : Model α σ ε n m) : fit.Moves (fit.prepare M).fit := by
  refine ⟨prepare_limits M fit, ?_⟩
  cases prepared : fit.prepared with
  | true =>
      rw [prepare_refused prepared]
      exact .inl ⟨rfl, prepared⟩
  | false => exact .inr (prepare_admitted upright prepared)

variable [Products α]

theorem iterate_admitted {call : Call α σ ε n m Status} {status : Status}
    (ends : fit.iterate M fuel = some call) (result : call.result = .ok status)
    (took : status.tookStep = true) : fit.limits.Admits call.fit.parameters := by
  rcases iterate_outcome ends with ⟨_, statuses⟩ |
    ⟨L, before, proposal, asked, values, _, stays, takes, stepped, _⟩
  · rcases statuses status result with rfl | rfl | ⟨rfl, _⟩
    · cases took
    · cases took
    · cases took
  · have same := stays.limits
    rw [← same] at upright
    rw [stepped, ← same]
    exact propose_admitted upright takes.proposes

theorem iterate_moves {call : Call α σ ε n m Status} (ends : fit.iterate M fuel = some call) :
    fit.Moves call.fit := by
  rcases iterate_outcome ends with ⟨stays, _⟩ | ⟨_, _, _, _, _, status, _, _, _, result, took⟩
  · exact stays.moves
  · exact ⟨iterate_limits ends, .inr (iterate_admitted upright ends result took)⟩

theorem perform_moves {request : Request α} {next : Fit α σ n m}
    (fixed : request.setsLimits = false) (performed : fit.perform M fuel request = some next) :
    fit.Moves next := by
  refine perform_keeps (I := fit.Moves) ?_ ?_ ?_ ?_ ?_ ?_ (Stays.refl fit).moves performed
  · intro later criteria moves
    exact ⟨moves.limits, moves.moved⟩
  · rintro lower upper rfl
    cases fixed
  · intro tags _ later next moves set
    obtain ⟨targets, rfl⟩ := setInequalities_eq set
    split
    · exact ⟨moves.limits, moves.moved⟩
    · exact ⟨moves.limits, moves.moved⟩
  · intro later moves
    exact moves.trans (prepare_moves (moves.limits ▸ upright) M)
  · intro later call moves ends
    exact moves.trans (iterate_moves (moves.limits ▸ upright) ends)
  · intro later budget moves
    exact moves.trans (correlation_stays M budget later).moves

theorem performAll_moves {requests : List (Request α)} {later : Fit α σ n m}
    (fixed : ∀ request ∈ requests, request.setsLimits = false)
    (led : fit.performAll M fuel requests = some later) : fit.Moves later := by
  refine performAll_keeps (I := fit.Moves) (fun request member now next moves performed => ?_)
    (Stays.refl fit).moves led
  exact moves.trans (perform_moves (moves.limits ▸ upright) (fixed request member) performed)

end Moving

/-! ## The limits of a session -/

theorem perform_upright [Products α] {request : Request α} {fit next : Fit α σ n m}
    (upright : fit.limits.Upright) (performed : fit.perform M fuel request = some next) :
    next.limits.Upright := by
  refine perform_keeps (I := fun fit => fit.limits.Upright) ?_ ?_ ?_ ?_ ?_ ?_ upright performed
  · intro fit criteria upright
    exact upright
  · intro lower upper _ fit next _ set
    exact setLimits_upright set
  · intro tags _ fit next upright set
    rwa [setInequalities_limits set]
  · intro fit upright
    rwa [prepare_limits]
  · intro fit call upright ends
    rwa [iterate_limits ends]
  · intro fit budget upright
    rwa [(correlation_stays M budget fit).limits]

theorem session_upright [Products α] [Scalar.Ordered α] {model : σ} {parameters : Vector α n}
    {target : Vector α m} {sigma : Array α} {first fit : Fit α σ n m} {requests : List (Request α)}
    (started : Fit.start model parameters target sigma = .ok first)
    (led : first.performAll M fuel requests = some fit) : fit.limits.Upright := by
  refine performAll_keeps (I := fun fit => fit.limits.Upright)
    (fun request _ fit next upright performed => perform_upright upright performed) ?_ led
  rw [(start_fresh started).2]
  exact Limits.unbounded_upright

/-! ## Calls between two changes of the limits -/

structure Guarded (L : Limits α n) (fit : Fit α (Recording α σ ε n m) n m) : Prop where
  limits : fit.limits = L
  asked : fit.AskedOnly L.Admits

section Guarding

variable [Scalar.Ordered α] {limits : Limits α n} {fit : Fit α (Recording α σ ε n m) n m}

theorem Guarded.prepare (upright : limits.Upright) (guarded : fit.Guarded limits) :
    (fit.prepare M.recorded).fit.Guarded limits := by
  refine ⟨(prepare_limits M.recorded fit).trans guarded.limits, ?_⟩
  refine guarded.asked.prepare fun _ => ?_
  rw [← guarded.limits] at upright ⊢
  exact clamped_admitted upright

theorem Guarded.trial (upright : limits.Upright) (guarded : fit.Guarded limits)
    (L : Linearization α n m) : (fit.trial M.recorded L).fit.Guarded limits := by
  refine ⟨(trial_limits M.recorded L fit).trans guarded.limits, ?_⟩
  refine guarded.asked.trial fun proposal step => ?_
  rw [← guarded.limits] at upright ⊢
  exact propose_admitted upright step

theorem Guarded.performWithin [Products α] (upright : limits.Upright) {request : Request α}
    (fixed : request.setsLimits = false) (guarded : fit.Guarded limits) :
    (fit.performWithin M.recorded fuel request).Guarded limits := by
  refine performWithin_keeps (I := Guarded limits) ?_ ?_ ?_ ?_ ?_ ?_ guarded
  · intro fit criteria guarded
    exact ⟨guarded.limits, guarded.asked⟩
  · rintro lower upper rfl
    cases fixed
  · intro tags _ fit next guarded set
    refine ⟨(setInequalities_limits set).trans guarded.limits, guarded.asked.of_asked ?_⟩
    obtain ⟨targets, rfl⟩ := setInequalities_eq set
    split
    · rfl
    · rfl
  · intro fit guarded
    exact guarded.prepare upright
  · intro fit guarded
    refine iterateWithin_keeps ?_ ?_ ?_ guarded
    · intro fit guarded
      exact ⟨guarded.limits, guarded.asked⟩
    · intro fit guarded
      exact ⟨(linearize_stays M.recorded fit).limits.trans guarded.limits,
        guarded.asked.of_asked (linearize_asked fit)⟩
    · intro L fit guarded
      exact guarded.trial upright L
  · intro fit budget guarded
    exact ⟨(correlation_stays M.recorded budget fit).limits.trans guarded.limits,
      guarded.asked.of_asked (correlation_asked budget fit)⟩

theorem asked_admitted [Products α] {fit : Fit α σ n m} (upright : fit.limits.Upright)
    {requests : List (Request α)} (fixed : ∀ request ∈ requests, request.setsLimits = false) :
    ∀ call ∈ fit.asked M fuel requests, fit.limits.Admits call.parameters := by
  have begun : (fit.recording : Fit α (Recording α σ ε n m) n m).Guarded fit.limits :=
    ⟨rfl, fun _ none => (List.not_mem_nil none).elim⟩
  have guarded : (fit.recording.performAllWithin M.recorded fuel requests).Guarded fit.limits :=
    performAllWithin_keeps (fun request member _ guarded =>
      guarded.performWithin upright (fixed request member)) begun
  exact guarded.asked

end Guarding

/-! ## Frozen parameters -/

/-- Parameter `p` is frozen in an iteration of the fit. -/
def Frozen [Products α] (M : Model α σ ε n m) (fit : Fit α σ n m) (p : Fin n) : Prop :=
  ∃ asked J, evaluateJacobian M { fit with iteration := fit.iteration + 1 } = (asked, .ok J) ∧
    asked.free J p = false

theorem frozen_of_ready [Products α] {fit : Fit α σ n m} {p : Fin n} (frozen : Frozen M fit p)
    {first : Fit α (Recording α σ ε n m) n m} {events : List (Event α)} {L : Linearization α n m}
    (ready : linearize M.recorded { fit.recording with iteration := fit.iteration + 1 } =
      .ready first events L) : L.free p = false := by
  obtain ⟨asked, J, answer, frozen⟩ := frozen
  obtain ⟨recorded, K, again, free⟩ := linearize_ready ready
  have plain : evaluateJacobian M { fit with iteration := fit.iteration + 1 } = _ :=
    evaluateJacobian_viewed M.recorded_simulates 0
      { fit.recording with iteration := fit.iteration + 1 }
  rw [again, answer] at plain
  cases plain
  rw [free]
  exact frozen

theorem touches_of_frozen [Products α] {fit : Fit α σ n m} {p : Fin n} (frozen : Frozen M fit p) :
    fit.limits.Touches p (fit.parameters p) := by
  obtain ⟨asked, J, answer, frozen⟩ := frozen
  have stays := evaluateJacobian_stays answer
  have touches := touches_of_not_free frozen
  rwa [stays.limits, stays.parameters] at touches

structure Holding (p : Fin n) (value : α) (fit : Fit α (Recording α σ ε n m) n m) : Prop where
  upright : fit.limits.Upright
  touches : fit.limits.Touches p (fit.parameters p)
  kept : fit.parameters p + 0 = value
  asked : fit.AskedOnly fun a => a p = value

section Freezing

variable {p : Fin n} {value : α} {fit later : Fit α (Recording α σ ε n m) n m}

theorem Holding.stays (holding : fit.Holding p value) (stays : fit.Stays later)
    (asked : later.AskedOnly fun a => a p = value) : later.Holding p value := by
  refine ⟨?_, ?_, ?_, asked⟩
  · rw [stays.limits]
    exact holding.upright
  · rw [stays.limits, stays.parameters]
    exact holding.touches
  · rw [stays.parameters]
    exact holding.kept

variable [Scalar.Ordered α]

theorem Holding.trial {L : Linearization α n m} (frozen : L.free p = false)
    (holding : fit.Holding p value) :
    (fit.trial M.recorded L).fit.AskedOnly fun a => a p = value := by
  refine holding.asked.trial fun proposal step => ?_
  obtain ⟨x, moved⟩ := propose_move step
  rw [moved, ← holding.kept]
  exact move_frozen holding.upright x frozen holding.touches

theorem Holding.trialsWithin {L : Linearization α n m} (frozen : L.free p = false)
    (holding : fit.Holding p value) :
    (fit.trialsWithin M.recorded L fuel).AskedOnly fun a => a p = value := by
  refine trialsWithin_leaves (I := Holding p value) (fun fit holding => holding.asked) ?_ ?_ holding
  · intro fit next events holding rejected
    have asks := holding.trial (M := M) frozen
    rw [rejected] at asks
    rcases fit.trial_outcome M.recorded L with ⟨stays, _⟩ | ⟨_, _, _, _, _, _, settled, _⟩
    · rw [rejected] at stays
      exact holding.stays stays asks
    · rw [rejected] at settled
      cases settled
  · intro fit call holding settled
    have asks := holding.trial (M := M) frozen
    rwa [settled] at asks

theorem Holding.iterateWithin [Products α]
    (frozen : ∀ first events L,
      linearize M.recorded { fit with iteration := fit.iteration + 1 } = .ready first events L →
        L.free p = false)
    (holding : fit.Holding p value) :
    (fit.iterateWithin M.recorded fuel).AskedOnly fun a => a p = value := by
  rw [Fit.iterateWithin]
  split
  · let counted : Fit α (Recording α σ ε n m) n m := { fit with iteration := fit.iteration + 1 }
    have counts : counted.Holding p value :=
      ⟨holding.upright, holding.touches, holding.kept, holding.asked⟩
    have begun : (linearize M.recorded counted).fit.Holding p value :=
      counts.stays (linearize_stays M.recorded counted)
        (counts.asked.of_asked (linearize_asked counted))
    split
    · rename_i call settled
      rw [settled] at begun
      exact begun.asked
    · rename_i first events L ready
      rw [ready] at begun
      exact begun.trialsWithin (frozen first events L ready)
  · exact holding.asked

theorem frozen_asked [Products α] {fit : Fit α σ n m} (upright : fit.limits.Upright)
    (frozen : Frozen M fit p) :
    ∀ call ∈ fit.asked M fuel [.iterate], call.parameters p = fit.parameters p + 0 := by
  have touches := touches_of_frozen frozen
  have holding : (fit.recording : Fit α (Recording α σ ε n m) n m).Holding p
      (fit.parameters p + 0) :=
    ⟨upright, touches, rfl, fun _ none => (List.not_mem_nil none).elim⟩
  rw [asked, performAllWithin_singleton]
  exact holding.iterateWithin fun first events L ready => frozen_of_ready frozen ready

end Freezing

/-! ## Sessions -/

/-- In every session, whatever is asked until the limits change is within them, and so is every
point that an iteration steps to and every new point of the fit. In all trials of an iteration a
frozen parameter keeps its value, where adding nothing to it may take the sign off a zero. -/
theorem session_within [Products α] [Scalar.Ordered α] {model : σ} {parameters : Vector α n}
    {target : Vector α m} {sigma : Array α} {first fit : Fit α σ n m} {before : List (Request α)}
    (started : Fit.start model parameters target sigma = .ok first)
    (led : first.performAll M fuel before = some fit) :
    (∀ fuel requests, (∀ request ∈ requests, request.setsLimits = false) →
      ∀ call ∈ fit.asked M fuel requests, fit.limits.Admits call.parameters) ∧
    (∀ fuel call status, fit.iterate M fuel = some call → call.result = .ok status →
      status.tookStep = true → call.fit.limits = fit.limits ∧
        fit.limits.Admits call.fit.parameters) ∧
    (∀ fuel requests later, (∀ request ∈ requests, request.setsLimits = false) →
      fit.performAll M fuel requests = some later → later.limits = fit.limits ∧
        (later.parameters = fit.parameters ∨ fit.limits.Admits later.parameters)) ∧
    ∀ fuel p, Frozen M fit p → ∀ call ∈ fit.asked M fuel [.iterate],
      call.parameters p = fit.parameters p + 0 ∧
        (call.parameters p == fit.parameters p) = true := by
  have upright := session_upright started led
  refine ⟨?_, ?_, ?_, ?_⟩
  · intro fuel requests fixed
    exact asked_admitted upright fixed
  · intro fuel call status ends result took
    exact ⟨iterate_limits ends, iterate_admitted upright ends result took⟩
  · intro fuel requests later fixed led
    have moves := performAll_moves upright fixed led
    exact ⟨moves.limits, moves.moved.imp_left And.left⟩
  · intro fuel p frozen call member
    have kept := frozen_asked upright frozen call member
    obtain ⟨limit, _, same⟩ := touches_of_frozen frozen
    obtain ⟨a, here, _⟩ := (Scalar.Ordered.beq_iff _ _).mp same
    refine ⟨kept, ?_⟩
    rw [kept, Scalar.Ordered.beq_iff]
    exact ⟨a, (Scalar.Ordered.position_add_zero _).trans here, here⟩

theorem line_within : ∃ fit : Fit Float Unit 1 1,
    Fit.start () #v[(5 : Float)] #v[(8 : Float)] #[(2 : Float)] = .ok lineStart ∧
    lineStart.performAll line 20 [.setLimits none (some #[6]), .prepare] = some fit ∧
    (fit.asked line 20 [.run 4]).length = 2 ∧
    ∀ call ∈ fit.asked line 20 [.run 4], fit.limits.Admits call.parameters := by
  have asks : (lineStart.performAll line 20 [.setLimits none (some #[6]), .prepare]).map
      (fun fit => (fit.asked line 20 [.run 4]).length) = some 2 := by
    decide +kernel
  obtain ⟨fit, led, two⟩ := Option.map_eq_some_iff.mp asks
  refine ⟨fit, lineStart_started, led, two, ?_⟩
  refine (session_within lineStart_started led).1 20 [.run 4] fun request member => ?_
  cases List.mem_singleton.mp member
  rfl

end LeastSquares.Fit

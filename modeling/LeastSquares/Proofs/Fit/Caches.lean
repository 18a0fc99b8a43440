import LeastSquares.Proofs.Fit.Outcome
import LeastSquares.Proofs.Fit.Recording

/-!
# The caches of a fit

A prepared fit holds values, the points that are active and chi-square. All of them belong to its
parameters: the model was asked there and answered with these values, and the rest is what the
targets make of them. A trial that is rejected or fails touches none of this, and new tags refresh
it.
-/

set_option autoImplicit false

namespace LeastSquares

variable {α σ ε : Type} [Scalar α] {n m : Nat}

theorem Scalar.addOver_eq_foldl (start : α) (p : Fin n → Bool) (f : Fin n → α) :
    Scalar.addOver start p f = (((List.finRange n).filter p).map f).foldl (· + ·) start := by
  rw [addOver, foldl_finRange, List.foldl_map, List.foldl_filter]

namespace Fit

structure Coherent (fit : Fit α (Recording α σ ε n m) n m) : Prop where
  answered : { parameters := fit.parameters, answer := .ok fit.values } ∈ fit.model.asked
  active : fit.active = fit.targets.active fit.values
  chiSquare : fit.chiSquare = fit.targets.chiSquare fit.active fit.values

/-- The caches of a fit mean nothing until it is prepared. -/
def Current (fit : Fit α (Recording α σ ε n m) n m) : Prop :=
  fit.prepared = true → fit.Coherent

variable {M : Model α σ ε n m} {fit later : Fit α (Recording α σ ε n m) n m}

theorem Current.stays (current : fit.Current) (stays : fit.Stays later)
    (asked : ∀ call ∈ fit.model.asked, call ∈ later.model.asked) : later.Current := by
  intro prepared
  rw [stays.prepared] at prepared
  have coherent := current prepared
  refine ⟨?_, ?_, ?_⟩
  · rw [stays.parameters, stays.values]
    exact asked _ coherent.answered
  · rw [stays.active, stays.targets, stays.values]
    exact coherent.active
  · rw [stays.chiSquare, stays.targets, stays.active, stays.values]
    exact coherent.chiSquare

theorem refresh_coherent
    (answered : { parameters := fit.parameters, answer := .ok fit.values } ∈ fit.model.asked) :
    fit.refresh.Coherent :=
  ⟨answered, rfl, rfl⟩

theorem Current.setLimits (current : fit.Current) {lower upper : Option (Array α)}
    (set : fit.setLimits lower upper = .ok later) : later.Current := by
  obtain ⟨limits, rfl⟩ := setLimits_eq set
  intro prepared
  have coherent := current prepared
  exact ⟨coherent.answered, coherent.active, coherent.chiSquare⟩

theorem Current.setInequalities (current : fit.Current) {tags : Option (Array Inequality)}
    (set : fit.setInequalities tags = .ok later) : later.Current := by
  obtain ⟨targets, rfl⟩ := setInequalities_eq set
  intro prepared
  by_cases before : fit.prepared = true
  · rw [if_pos before]
    exact refresh_coherent (current before).answered
  · rw [if_neg before] at prepared
    exact absurd prepared before

theorem Current.prepare (current : fit.Current) : (fit.prepare M.recorded).fit.Current := by
  by_cases before : fit.prepared = true
  · rw [prepare_refused before]
    exact current
  · have unprepared : fit.prepared = false := Bool.eq_false_iff.mpr before
    obtain ⟨answer, answers, ⟨error, _, _, failed⟩ | ⟨answered, _, ready⟩⟩ :=
      prepare_outcome M.recorded unprepared
    · rw [failed]
      intro prepared
      exact absurd prepared before
    · rw [ready]
      intro _
      have asks := Model.recorded_asked M fit.model fit.clamped fit.values
      rw [answers] at asks
      refine refresh_coherent ?_
      change _ ∈ answer.state.asked
      rw [asks, Answer.result, answered]
      exact List.mem_append_right _ List.mem_cons_self

theorem Current.linearize [Products α] (current : fit.Current) :
    (linearize M.recorded fit).fit.Current := by
  refine current.stays (linearize_stays M.recorded fit) ?_
  rw [linearize_asked]
  exact fun _ asked => asked

theorem Current.trial (current : fit.Current) (L : Linearization α n m) :
    (fit.trial M.recorded L).fit.Current := by
  rcases fit.trial_outcome M.recorded L with ⟨stays, _⟩ |
    ⟨proposal, asked, values, call, status, takes, settled, stepped, _, _⟩
  · refine current.stays stays fun call member => ?_
    rcases trial_asked (M := M) L fit with same | ⟨proposal, answer, _, more⟩
    · rw [same]
      exact member
    · rw [more]
      exact List.mem_append_left _ member
  · intro _
    have last := evaluateAt_asked takes.answers
    rw [settled, Trial.fit, stepped]
    refine ⟨?_, rfl, rfl⟩
    change _ ∈ asked.model.asked
    rw [last]
    exact List.mem_append_right _ List.mem_cons_self

theorem Current.correlation [Products α] (current : fit.Current) (budget : Nat) :
    (fit.correlation M.recorded budget).fit.Current := by
  refine current.stays (correlation_stays M.recorded budget fit) ?_
  rw [correlation_asked]
  exact fun _ asked => asked

theorem Current.perform [Products α] {fuel : Nat} {request : Request α} (current : fit.Current)
    (performed : fit.perform M.recorded fuel request = some later) : later.Current := by
  refine perform_keeps (I := Current) ?_ ?_ ?_ ?_ ?_ ?_ current performed
  · intro fit criteria current prepared
    have coherent := current prepared
    exact ⟨coherent.answered, coherent.active, coherent.chiSquare⟩
  · intro lower upper _ fit next current set
    exact current.setLimits set
  · intro tags _ fit next current set
    exact current.setInequalities set
  · intro fit current
    exact current.prepare
  · intro fit call current ends
    refine iterate_keeps Current ?_ ?_ ?_ current ends
    · intro fit current prepared
      have coherent := current prepared
      exact ⟨coherent.answered, coherent.active, coherent.chiSquare⟩
    · intro fit current
      exact current.linearize
    · intro L fit current
      exact current.trial L
  · intro fit budget current
    exact current.correlation budget

/-- In every session, a prepared fit holds the model's answer to a call at its parameters, and the
active points and chi-square of these values. -/
theorem session_caches [Products α] {model : σ} {parameters : Vector α n} {target : Vector α m}
    {sigma : Array α} {first fit : Fit α σ n m} {fuel : Nat} {requests : List (Request α)}
    (started : Fit.start model parameters target sigma = .ok first)
    (led : first.performAll M fuel requests = some fit) (prepared : fit.prepared = true) :
    (∃ call ∈ first.asked M fuel requests,
      call.parameters = fit.parameters ∧ call.answer = .ok fit.values) ∧
    (∀ i, fit.active i = (fit.targets.tags i).isActive (fit.values i) (fit.targets.target i)) ∧
    fit.chiSquare = (((List.finRange m).filter fun i => fit.active i).map fun i =>
      (fit.targets.target i - fit.values i) / fit.targets.sigma i *
        ((fit.targets.target i - fit.values i) / fit.targets.sigma i)).foldl (· + ·) 0 := by
  obtain ⟨recorded, found, rfl, same⟩ := performAll_recorded led
  have begun : first.recording.Current (ε := ε) := by
    intro ready
    exact absurd ready (ne_true_of_eq_false (start_fresh started).1)
  have coherent : recorded.Coherent :=
    performAll_keeps (fun request _ fit next current performed => current.perform performed) begun
      found prepared
  rw [← same]
  refine ⟨⟨_, coherent.answered, rfl, rfl⟩, fun i => ?_, ?_⟩
  · change recorded.active i = _
    rw [coherent.active]
    exact Vector.get_ofFn _ i
  · have sum := coherent.chiSquare
    rw [Targets.chiSquare, Scalar.addOver_eq_foldl] at sum
    exact sum

def lineSession : List (Request Float) :=
  [.iterate, .setLimits (some #[0]) (some #[6]), .setLimits (some #[3]) (some #[1]), .prepare,
    .iterate, .setInequalities (some #[.larger]), .iterate]

theorem line_caches : ∃ fit : Fit Float Unit 1 1,
    Fit.start () #v[(5 : Float)] #v[(8 : Float)] #[(2 : Float)] = .ok lineStart ∧
    lineStart.performAll line 20 lineSession = some fit ∧ fit.prepared = true ∧
    fit.chiSquare = (((List.finRange 1).filter fun i => fit.active i).map fun i =>
      (fit.targets.target i - fit.values i) / fit.targets.sigma i *
        ((fit.targets.target i - fit.values i) / fit.targets.sigma i)).foldl (· + ·) 0 := by
  have ready : (lineStart.performAll line 20 lineSession).map (·.prepared) = some true := by
    decide +kernel
  obtain ⟨fit, led, prepared⟩ := Option.map_eq_some_iff.mp ready
  exact ⟨fit, lineStart_started, led, prepared,
    (session_caches lineStart_started led prepared).2.2⟩

end Fit

end LeastSquares

import LeastSquares.Proofs.Double.Radius
import LeastSquares.Proofs.Double.Signs
import LeastSquares.Proofs.Fit.Trying

/-!
# Trial loops that stall

There are only finitely many doubles, so an iteration returns if its rejected trials lower the
radius from some point on. A rejected trial lowers a finite radius, unless chi-square is finite and
the factor above a half or the agreement not poor. The radius may be no number, though: then no
comparison with it holds, and while the scaling has a `NaN` as well it stays that way. A column of
the first Jacobian with a `NaN` brings this about, and the iteration returns only if the model fails
or lowers chi-square by itself.
-/

set_option autoImplicit false

namespace LeastSquares.Fit

open Double

variable {σ ε : Type} {n m : Nat}

/-- Whether the next trial is rejected and does not lower the radius. -/
def Stalls (M : Model Float σ ε n m) (L : Linearization Float n m) (fit : Fit Float σ n m) : Prop :=
  ∃ next, retry M L fit = some next ∧ ¬ next.trust.delta < fit.trust.delta

/-- Whether the model answers at the next trial and the radius is not halved. -/
def Escapes (M : Model Float σ ε n m) (L : Linearization Float n m) (fit : Fit Float σ n m) :
    Prop :=
  ∃ trial, fit.trialOutcome? M L = some trial ∧ ¬ trial.Halves

/-- Whether the model answers at the next trial and chi-square is `NaN` or infinite, there or where
the fit is. -/
def Overflows (M : Model Float σ ε n m) (L : Linearization Float n m) (fit : Fit Float σ n m) :
    Prop :=
  ∃ proposal asked values, fit.propose L = .ok proposal ∧
    (fit.proposed proposal).evaluateAt M proposal.move.next = (asked, .ok values) ∧
    ((asked.chiSquareAt values).isFinite = false ∨ asked.chiSquare.isFinite = false)

variable {M : Model Float σ ε n m} {L : Linearization Float n m} {fit first : Fit Float σ n m}

/-! ## A finite radius -/

theorem trustAt_delta_le (finite : fit.trust.delta.isFinite = true) (fresh : Bool)
    (alpha length : Float) : (fit.trustAt fresh alpha length).delta ≤ fit.trust.delta := by
  have number := number_of_isFinite finite
  rw [trustAt]
  split
  · exact Scalar.Ordered.min_le_left number length
  · exact Scalar.Ordered.le_of_not_lt number number (Scalar.Ordered.lt_irrefl _)

theorem retry_trust {next : Fit Float σ n m} (again : retry M L fit = some next) :
    ∃ proposal asked values alpha, fit.propose L = .ok proposal ∧
      (fit.proposed proposal).evaluateAt M proposal.move.next = (asked, .ok values) ∧
      ¬ asked.chiSquareAt values < asked.chiSquare ∧ next.collapsed = false ∧
      next.trust = (fit.trustAt L.fresh alpha proposal.stepNorm).adapt
        (asked.outcomeAt L proposal values) ∧
      proposal.stepNorm = TrustRegion.scaledNorm fit.trust.scale proposal.move.step := by
  obtain ⟨events, rejected⟩ := retry_eq_some again
  obtain ⟨proposal, asked, values, step, answer, worse, rfl, stays⟩ :=
    fit.trial_rejected M L rejected
  obtain ⟨alpha, trust, length⟩ := propose_cases step
  refine ⟨proposal, asked, values, alpha, step, answer, worse, stays, ?_, length⟩
  have same : asked.trust = fit.trustAt L.fresh alpha proposal.stepNorm := by
    rw [evaluateAt_eq answer]
    exact trust
  rw [← same]
  rfl

theorem retry_shrinks {next : Fit Float σ n m} (finite : fit.trust.delta.isFinite = true)
    (tame : ¬ fit.Escapes M L) (again : retry M L fit = some next) :
    next.trust.delta < fit.trust.delta ∧ next.trust.delta.isFinite = true := by
  obtain ⟨proposal, asked, values, alpha, step, answer, _, stays, trust, _⟩ := retry_trust again
  have halves : (asked.outcomeAt L proposal values).Halves := by
    by_contra escapes
    refine tame ⟨_, ?_, escapes⟩
    simp only [trialOutcome?, step, answer]
  have normal : ¬ next.trust.delta < Scalar.minPositive := by
    simp only [collapsed, Bool.or_eq_false_iff, decide_eq_false_iff_not] at stays
    exact stays.2
  have lowers := (fit.trustAt L.fresh alpha proposal.stepNorm).adapt_lowers halves finite
    (trustAt_delta_le finite _ _ _)
  rw [← trust] at lowers
  have less := lowers.resolve_right normal
  exact ⟨less, isFinite_of_between finite less normal⟩

theorem retried_ends_of_descent {N : Nat}
    (descends : ∀ k ≥ N, ∀ later, retried M L k first = some later → ¬ later.Stalls M L) :
    ∃ k, retried M L k first = none := by
  -- The induction is on the radius, which the finitely many doubles let descend only so far.
  have ends (delta : Float) : ∀ k ≥ N, ∀ later, retried M L k first = some later →
      later.trust.delta = delta → ∃ k, retried M L k first = none := by
    induction delta using wellFounded_lt.induction with
    | _ delta below =>
      rintro k late later reached rfl
      cases again : retry M L later with
      | none => exact ⟨k + 1, by rw [retried, reached, Option.bind_some, again]⟩
      | some next =>
          have onward : retried M L (k + 1) first = some next := by
            rw [retried, reached, Option.bind_some, again]
          have less : next.trust.delta < later.trust.delta := by
            by_contra stalls
            exact descends k late later reached ⟨next, again, stalls⟩
          exact below _ less (k + 1) (by omega) next onward rfl
  cases reached : retried M L N first with
  | none => exact ⟨N, reached⟩
  | some later => exact ends _ N le_rfl later reached rfl

/-! ## Chi-square out of range -/

theorem outcomeAt_halves (L : Linearization Float n m) (proposal : Proposal Float n)
    {values : Vector Float m} (worse : ¬ fit.chiSquareAt values < fit.chiSquare)
    (outside : (fit.chiSquareAt values).isFinite = false ∨ fit.chiSquare.isFinite = false) :
    (fit.outcomeAt L proposal values).Halves := by
  rw [outcomeAt, outcome]
  split
  · rename_i zero
    have here := ((beq_zero_iff _).mp zero).isFinite
    have there : ¬ (fit.chiSquareAt values == 0) = true := fun nothing => by
      rw [((beq_zero_iff _).mp nothing).isFinite, here] at outside
      simp at outside
    exact TrustRegion.halves_of_nothing (if_neg there) rfl rfl
  · have large := TrustRegion.not_hundredth_lt worse outside
    have blewUp : (!decide (0.01 * fit.chiSquareAt values < fit.chiSquare)) = true := by
      rw [decide_eq_false large]
      rfl
    refine TrustRegion.halves_of_blewUp blewUp ?_
    exact if_pos blewUp

theorem Stalls.of_finite (stalls : fit.Stalls M L) (finite : fit.trust.delta.isFinite = true) :
    fit.Escapes M L ∧ ¬ fit.Overflows M L := by
  obtain ⟨next, again, stays⟩ := stalls
  obtain ⟨trial, came, escapes⟩ : fit.Escapes M L := by
    by_contra tame
    exact stays (retry_shrinks finite tame again).1
  refine ⟨⟨trial, came, escapes⟩, fun overflows => escapes ?_⟩
  obtain ⟨proposal, asked, values, _, step, answer, worse, _⟩ := retry_trust again
  obtain ⟨proposal', asked', values', step', answer', outside⟩ := overflows
  cases step.symm.trans step'
  cases answer.symm.trans answer'
  simp only [trialOutcome?, step, answer] at came
  cases came
  exact outcomeAt_halves L proposal worse outside

/-! ## A radius that is not a number -/

def Lost (fit : Fit Float σ n m) : Prop :=
  Scalar.isNaN fit.trust.delta = true ∧ ∃ p, Scalar.isNaN (fit.trust.scale p) = true

theorem Lost.collapsed (lost : fit.Lost) : fit.collapsed = false := by
  have below : ¬ fit.trust.delta < Scalar.minPositive := not_lt_of_isNaN_left lost.1
  have small : ¬ fit.trust.delta ≤
      Scalar.epsilon * TrustRegion.scaledNorm fit.trust.scale fit.parameters :=
    not_le_of_isNaN_left lost.1
  simp only [Fit.collapsed, below, small, decide_false, Bool.or_self]

theorem Lost.adapted (lost : fit.Lost) {proposal : Proposal Float n}
    (step : fit.propose L = .ok proposal) {asked : Fit Float σ n m}
    {result : Except ε (Vector Float m)}
    (answer : (fit.proposed proposal).evaluateAt M proposal.move.next = (asked, result))
    (values : Vector Float m) : (asked.adapted L proposal values).Lost := by
  obtain ⟨missing, p, hole⟩ := lost
  obtain ⟨alpha, trust, length⟩ := propose_cases step
  have size : Scalar.isNaN proposal.stepNorm = true := by
    rw [length]
    exact TrustRegion.scaledNorm_isNaN hole _
  have same : asked.trust = fit.trustAt L.fresh alpha proposal.stepNorm := by
    rw [evaluateAt_eq answer]
    exact trust
  have radius : Scalar.isNaN asked.trust.delta = true := by
    rw [same, trustAt]
    split
    · exact isNaN_min missing size
    · exact missing
  have measured : Scalar.isNaN (asked.outcomeAt L proposal values).stepNorm = true := by
    rw [outcomeAt_stepNorm]
    exact size
  have kept := TrustRegion.adapt_isNaN radius measured
  refine ⟨kept.1, p, ?_⟩
  have scale : (asked.adapted L proposal values).trust.scale = fit.trust.scale := by
    rw [Fit.adapted, kept.2, same]
    rfl
  rw [scale]
  exact hole

theorem Lost.retry {next : Fit Float σ n m} (lost : fit.Lost)
    (again : retry M L fit = some next) : next.Lost := by
  obtain ⟨events, rejected⟩ := retry_eq_some again
  obtain ⟨proposal, asked, values, step, answer, _, rfl, _⟩ := fit.trial_rejected M L rejected
  exact lost.adapted step answer values

theorem Lost.settled (lost : fit.Lost) {call : Call Float σ ε n m Status} {status : Status}
    (ended : fit.trial M L = .settled call) (result : call.result = .ok status) :
    status.tookStep = true := by
  rcases fit.trial_cases M L with ⟨_, _, failed⟩ | ⟨_, _, _, _, _, failed⟩ |
    ⟨proposal, asked, values, step, answer, judged⟩
  · rw [failed] at ended
    cases ended
    cases result
  · rw [failed] at ended
    cases ended
    cases result
  · rw [judged] at ended
    rcases asked.judge_cases (ε := ε) L proposal values with ⟨less, _⟩ | ⟨_, collapsed, _⟩ |
      ⟨_, _, again⟩
    · rw [judge, if_pos less] at ended
      cases ended
      cases result
      exact acceptedStatus_tookStep _ _ _
    · rw [(lost.adapted step answer values).collapsed] at collapsed
      cases collapsed
    · rw [again] at ended
      cases ended

/-- A `NaN` among the first column norms loses the radius. -/
theorem Tries.lost [Products Float] (tries : fit.Tries M first L)
    (fresh : fit.trust.initialized = false)
    {p : Fin n} (missing : Scalar.isNaN (L.factor.norms p) = true) : first.Lost := by
  have lost := TrustRegion.rescale_isNaN fresh missing fit.parameters
  rw [← tries.trust] at lost
  exact ⟨lost.1, p, lost.2⟩

theorem Tries.delta [Products Float] (tries : fit.Tries M first L)
    (later : fit.trust.initialized = true) :
    first.trust.delta = fit.trust.delta := by
  rw [tries.trust, TrustRegion.rescale, if_pos later]

/-! ## The iteration -/

/-- An iteration of a prepared fit returns just if only finitely many of its trials stall. A trial
does so only with a radius that is not finite, or where chi-square is finite and the radius is not
halved: with a finite radius, which later linearizations leave alone, no answer of the model that
makes chi-square `NaN` or infinite keeps the trials going. But a `NaN` among the first column norms
loses the radius, and then an iteration that returns a status has taken a step. -/
theorem iterate_returns [Products Float] (M : Model Float σ ε n m)
    (prepared : fit.prepared = true) :
    ((∃ fuel call, fit.iterate M fuel = some call) ↔ ∀ first L, fit.Tries M first L →
      ∃ N, ∀ k ≥ N, ∀ later, retried M L k first = some later → ¬ later.Stalls M L) ∧
    (∀ first L, fit.Tries M first L →
      (fit.trust.initialized = true → first.trust.delta = fit.trust.delta) ∧
      ∀ k later, retried M L k first = some later → later.Stalls M L →
        later.trust.delta.isFinite = false ∨ later.Escapes M L ∧ ¬ later.Overflows M L) ∧
    ((∀ first L, fit.Tries M first L → first.trust.delta.isFinite = true ∧
        ∀ k later, retried M L k first = some later → ¬ later.Escapes M L) →
      ∃ fuel call, fit.iterate M fuel = some call) ∧
    ∀ first L p, fit.Tries M first L → fit.trust.initialized = false →
      Scalar.isNaN (L.factor.norms p) = true →
        (∀ k later, retried M L k first = some later →
          Scalar.isNaN later.trust.delta = true) ∧
        ∀ fuel call status, fit.iterate M fuel = some call → call.result = .ok status →
          status.tookStep = true := by
  have returns := iterate_returns_iff M prepared
  refine ⟨⟨fun ends first L tries => ?_, fun descends => ?_⟩,
    fun first L tries => ⟨tries.delta, ?_⟩, fun halves => ?_,
    fun first L p tries fresh missing => ⟨?_, ?_⟩⟩
  · obtain ⟨N, finished⟩ := returns.mp ends first L tries
    refine ⟨N, fun k late later reached => ?_⟩
    obtain ⟨j, rfl⟩ := Nat.exists_eq_add_of_le late
    rw [retried_add, finished] at reached
    cases reached
  · refine returns.mpr fun first L tries => ?_
    obtain ⟨N, descends⟩ := descends first L tries
    exact retried_ends_of_descent descends
  · intro k later _ stalls
    by_cases finite : later.trust.delta.isFinite = true
    · exact .inr (stalls.of_finite finite)
    · exact .inl (Bool.eq_false_iff.mpr finite)
  · refine returns.mpr fun first L tries => ?_
    obtain ⟨finite, tame⟩ := halves first L tries
    have stays (k : Nat) (later : Fit Float σ n m) (reached : retried M L k first = some later) :
        later.trust.delta.isFinite = true := by
      induction k generalizing later with
      | zero =>
          cases reached
          exact finite
      | succ k ih =>
          obtain ⟨before, known, again⟩ := Option.bind_eq_some_iff.mp reached
          exact (retry_shrinks (ih before known) (tame k before known) again).2
    refine retried_ends_of_descent (N := 0) fun k _ later reached stalls => ?_
    exact tame k later reached (stalls.of_finite (stays k later reached)).1
  · intro k later reached
    exact (retried_keeps Lost (fun _ _ lost => lost.retry) (tries.lost fresh missing) reached).1
  · intro fuel call status ends result
    obtain ⟨k, later, last, events, reached, settled, rfl⟩ := tries.last prepared ends
    have lost := retried_keeps Lost (fun _ _ lost => lost.retry) (tries.lost fresh missing) reached
    exact lost.settled settled result

/-! ## A level without a slope -/

/-- The model of one point whose value is one and whose derivative is `NaN`. -/
def level : Model Float Unit Empty 1 1 where
  values _ _ _ := { state := (), buffer := ones 1, failure? := none }
  jacobian _ _ _ := { state := (), buffer := .ofFn fun _ _ => 0 / 0, failure? := none }

def levelPrepared : Fit Float Unit 1 1 := ((onePoint 1).prepare level).fit

/-- What a trial on the level depends on: the linear problem, and that chi-square is as high there
as the values of the model make it. -/
structure OnLevel (L : Linearization Float 1 1) (fit : Fit Float Unit 1 1) : Prop where
  lost : fit.Lost
  fullRank : L.fullRank = true
  high : ¬ fit.chiSquareAt (ones 1) < fit.chiSquare

theorem OnLevel.stalls {L : Linearization Float 1 1} {fit : Fit Float Unit 1 1}
    (here : OnLevel L fit) : fit.Stalls level L ∧
      ∀ next, retry level L fit = some next → OnLevel L next := by
  obtain ⟨proposal, step⟩ := fit.propose_of_fullRank here.fullRank
  let asked : Fit Float Unit 1 1 :=
    { fit.proposed proposal with spare := ones 1, valueCalls := fit.valueCalls + 1 }
  have answer : (fit.proposed proposal).evaluateAt level proposal.move.next =
      (asked, .ok (ones 1)) := rfl
  have lost := here.lost.adapted step answer (ones 1)
  have judged : fit.trial level L = judge L proposal asked (ones 1) := by
    simp only [trial, step, answer]
  have rejected : fit.trial level L =
      .rejected (asked.adapted L proposal (ones 1)) (asked.trialEvents L proposal (ones 1)) := by
    have high : ¬ asked.chiSquareAt (ones 1) < asked.chiSquare := here.high
    rw [judged, judge, if_neg high, if_neg (Bool.eq_false_iff.mp lost.collapsed)]
    rfl
  have again := retry_of_rejected rejected
  refine ⟨⟨_, again, not_lt_of_isNaN_left lost.1⟩, fun next other => ?_⟩
  rw [again] at other
  cases other
  exact ⟨lost, here.fullRank, here.high⟩

theorem level_tries : ∃ first L, levelPrepared.Tries level first L ∧ OnLevel L first := by
  let start := { levelPrepared with iteration := levelPrepared.iteration + 1 }
  have known : readyWith (fun first L => Scalar.isNaN (L.factor.norms 0) && L.fullRank &&
      !decide (first.chiSquareAt (ones 1) < first.chiSquare)) (linearize level start) = true := by
    decide +kernel
  obtain ⟨first, L, tries, facts⟩ := tries_of_readyWith known
  simp only [Bool.and_eq_true, Bool.not_eq_true', decide_eq_false_iff_not] at facts
  obtain ⟨⟨missing, fullRank⟩, high⟩ := facts
  exact ⟨first, L, tries, tries.lost (by decide +kernel) missing, fullRank, high⟩

/-- The trials on the level never come to an end. -/
theorem level_never_returns :
    Fit.start () (ones 1) #v[(0 : Float)] #[(1 : Float)] = .ok (onePoint 1) ∧
    ((onePoint 1).prepare level).fit = levelPrepared ∧ levelPrepared.prepared = true ∧
    ¬ ∃ fuel call, levelPrepared.iterate level fuel = some call := by
  have prepared : levelPrepared.prepared = true := by decide +kernel
  refine ⟨onePoint_started one_ne_zero, rfl, prepared, fun returns => ?_⟩
  obtain ⟨first, L, tries, here⟩ := level_tries
  obtain ⟨N, finite⟩ := (iterate_returns level prepared).1.mp returns first L tries
  have always (k : Nat) : ∃ later, retried level L k first = some later ∧ OnLevel L later := by
    induction k with
    | zero => exact ⟨first, rfl, here⟩
    | succ k ih =>
        obtain ⟨later, reached, there⟩ := ih
        obtain ⟨⟨next, again, _⟩, onward⟩ := there.stalls
        exact ⟨next, by rw [retried, reached, Option.bind_some, again], onward next again⟩
  obtain ⟨later, reached, there⟩ := always N
  exact finite N le_rfl later reached there.stalls.1

end LeastSquares.Fit

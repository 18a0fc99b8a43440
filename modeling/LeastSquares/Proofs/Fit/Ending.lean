import LeastSquares.Proofs.Fit.LinearModel
import LeastSquares.Proofs.Fit.TrialLoop

/-!
# How an iteration ends

An iteration ends just if only finitely many of its trials run away, and then with a status or an
error of the model. The exception is real: a parameter that a limit pulls uphill, to the other side
of a hill, is tried there for ever, since the radius stays as it is.
-/

set_option autoImplicit false

namespace LeastSquares

open Matrix

variable {σ ε : Type} {n m : Nat}

def Call.Ends (call : Call ℝ σ ε n m Status) : Prop :=
  (∃ status, call.result = .ok status) ∨ ∃ error, call.result = .error (.model error)

namespace Fit

section Ending

variable {M : Model ℝ σ ε n m} {L : Linearization ℝ n m}

theorem settled_ends {fit : Fit ℝ σ n m} {call : Call ℝ σ ε n m Status}
    (settled : fit.trial M L = .settled call) : call.Ends := by
  rcases fit.trial_cases M L with ⟨error, failed, _⟩ | ⟨proposal, asked, error, _, _, ended⟩ |
    ⟨proposal, asked, values, _, _, judged⟩
  · obtain ⟨proposal, step⟩ := propose_ok L fit
    rw [step] at failed
    cases failed
  · rw [ended] at settled
    cases settled
    exact .inr ⟨error, rfl⟩
  · rw [judged] at settled
    rcases asked.judge_cases (ε := ε) L proposal values with ⟨_, status, ended⟩ | ⟨_, _, ended⟩ |
      ⟨_, _, again⟩
    · rw [ended] at settled
      cases settled
      exact .inl ⟨status, rfl⟩
    · rw [ended] at settled
      cases settled
      exact .inl ⟨_, rfl⟩
    · rw [again] at settled
      cases settled

theorem trials_ends {fuel : Nat} {fit : Fit ℝ σ n m} {call : Call ℝ σ ε n m Status}
    (finished : trials M L fuel fit = some call) : call.Ends := by
  induction fuel generalizing fit call with
  | zero => cases finished
  | succ fuel ih =>
      rw [trials] at finished
      cases ended : fit.trial M L with
      | settled last =>
          rw [ended] at finished
          cases finished
          exact settled_ends ended
      | rejected next events =>
          rw [ended] at finished
          obtain ⟨rest, found, rfl⟩ := Option.map_eq_some_iff.mp finished
          have ends : rest.Ends := ih found
          exact ends

variable [Products ℝ]

theorem linearize_ends {fit : Fit ℝ σ n m} {call : Call ℝ σ ε n m Status}
    (settled : linearize M fit = .settled call) : call.Ends := by
  rcases linearize_cases M fit with ⟨asked, error, _, ended⟩ | ⟨asked, J, _, _, ended⟩ |
    ⟨asked, J, _, _, _, ended⟩ | ⟨asked, J, _, _, _, events, ready⟩
  · rw [ended] at settled
    cases settled
    exact .inr ⟨error, rfl⟩
  · rw [ended] at settled
    cases settled
    exact .inl ⟨_, rfl⟩
  · rw [ended] at settled
    cases settled
    exact .inl ⟨_, rfl⟩
  · rw [ready] at settled
    cases settled

def Begins (M : Model ℝ σ ε n m) (fit first : Fit ℝ σ n m) (L : Linearization ℝ n m) : Prop :=
  ∃ events, linearize M { fit with iteration := fit.iteration + 1 } = .ready first events L

theorem Begins.sound {fit first : Fit ℝ σ n m} (begins : fit.Begins M first L)
    (sound : fit.Sound) : first.Sound := by
  obtain ⟨events, ready⟩ := begins
  have begun : ({ fit with iteration := fit.iteration + 1 } : Fit ℝ σ n m).Sound :=
    ⟨sound.chiSquare_nonneg, sound.delta_nonneg⟩
  have kept := begun.linearize M
  rw [ready] at kept
  exact kept

theorem iterate_cases (M : Model ℝ σ ε n m) {fit : Fit ℝ σ n m} (prepared : fit.prepared = true) :
    (∃ call, (∀ first L, ¬ fit.Begins M first L) ∧ call.Ends ∧
      ∀ fuel, fit.iterate M fuel = some call) ∨
    (∃ first events L, (∀ other K, fit.Begins M other K → other = first ∧ K = L) ∧
      fit.Begins M first L ∧
      ∀ fuel, fit.iterate M fuel = (trials M L fuel first).map (·.after events)) := by
  cases prospect : linearize M { fit with iteration := fit.iteration + 1 } with
  | settled call =>
      refine .inl ⟨call, fun first L begins => ?_, linearize_ends prospect, fun fuel => ?_⟩
      · obtain ⟨events, ready⟩ := begins
        rw [prospect] at ready
        cases ready
      · rw [iterate, if_pos prepared, prospect]
  | ready first events L =>
      refine .inr ⟨first, events, L, fun other K begins => ?_, ⟨events, prospect⟩, fun fuel => ?_⟩
      · obtain ⟨reports, ready⟩ := begins
        rw [prospect] at ready
        cases ready
        exact ⟨rfl, rfl⟩
      · rw [iterate, if_pos prepared, prospect]

end Ending

/-! ## A hill -/

section Hill

/-- A model of one parameter that rises at first and then falls. -/
noncomputable def hill : Model ℝ Unit Empty 1 1 where
  values _ a _ :=
    { state := (), buffer := #v[1 + (a 0 - 10) - (a 0 - 10) ^ 2 / 4.5], failure? := none }
  jacobian _ a _ :=
    { state := (), buffer := .ofFn fun _ _ => 1 - (a 0 - 10) / 2.25, failure? := none }

/-- A prepared fit of the hill whose parameter a lower limit set later has left behind. -/
noncomputable def behind : Fit ℝ Unit 1 1 :=
  { model := ()
    parameters := #v[10]
    limits := { lower := #v[some 13], upper := #v[none] }
    targets := { target := #v[0], sigma := #v[1], tags := #v[.equal] }
    criteria := .off
    values := #v[1]
    spare := #v[0]
    active := #v[true]
    chiSquare := 1
    gradientNorm := 0
    freeCount := 1
    rank := 0
    trust := .initial
    prepared := true
    iteration := 0
    valueCalls := 1
    jacobianCalls := 0 }

@[simp] theorem get_singleton {β : Type} (x : β) (p : Fin 1) : #v[x] p = x := by
  rw [Subsingleton.elim p 0]
  rfl

theorem eq_singleton {β : Type} (v : Vector β 1) : v = #v[v 0] :=
  Vector.ext_get fun p => by rw [get_singleton, Subsingleton.elim p 0]

theorem scaledNorm_singleton (x : ℝ) : TrustRegion.scaledNorm #v[1] #v[x] = |x| := by
  rw [TrustRegion.scaledNorm, Scalar.norm_real, Scalar.sumSquares_real]
  simp [Real.sqrt_mul_self_eq_abs]

theorem hill_values {x y : ℝ} (height : 1 + (x - 10) - (x - 10) ^ 2 / 4.5 = y)
    (buffer : Vector ℝ 1) :
    hill.values () #v[x] buffer = { state := (), buffer := #v[y], failure? := none } := by
  rw [← height]
  rfl

theorem hill_jacobian {x y : ℝ} (derivative : 1 - (x - 10) / 2.25 = y)
    (buffer : DenseMatrix ℝ 1 1) : hill.jacobian () #v[x] buffer =
      { state := (), buffer := .ofFn fun _ _ => y, failure? := none } := by
  rw [← derivative]
  rfl

theorem behind_reachable : Reachable hill behind := by
  let started : Fit ℝ Unit 1 1 :=
    { behind with
      limits := .unbounded
      values := #v[0]
      chiSquare := 0
      prepared := false
      valueCalls := 0 }
  let unlimited : Fit ℝ Unit 1 1 := { behind with limits := .unbounded }
  have start : Fit.start () #v[(10 : ℝ)] #v[(0 : ℝ)] #[(1 : ℝ)] = .ok started := by
    simp [Fit.start, started, behind]
  have prepared : (started.prepare hill).fit = unlimited := by
    have stays : started.clamped = #v[10] := by
      rw [eq_singleton started.clamped, clamped, Vector.get_ofFn]
      simp [started, behind, Limits.clamp, Limits.unbounded]
    have values : (hill.values () #v[10] #v[0]).buffer = #v[1] := by
      rw [hill_values (show 1 + (10 - 10) - (10 - 10) ^ 2 / 4.5 = (1 : ℝ) by norm_num)]
    have active : behind.targets.active #v[1] = #v[true] := by
      rw [eq_singleton (Targets.active _ _), Targets.active, Vector.get_ofFn]
      rfl
    have square : behind.targets.chiSquare #v[true] #v[1] = 1 := by
      norm_num [behind, Targets.chiSquare, Targets.residual, Scalar.addOver_real]
    simp only [Fit.prepare, stays]
    change ({ started with
      parameters := #v[10]
      values := (hill.values () #v[10] #v[0]).buffer
      valueCalls := 1
      prepared := true } : Fit ℝ Unit 1 1).refresh = _
    rw [values]
    simp only [refresh]
    rw [show started.targets = behind.targets from rfl, active, square]
    rfl
  have limited : unlimited.setLimits (some #[13]) none = .ok behind := by
    simp [setLimits, checkArgument, bind, Except.bind, pure, Except.pure, Limits.ofVectors,
      Limits.firstInverted?, Limits.inverted?, Limits.unbounded, unlimited]
    rfl
  have reached : Reachable hill unlimited := prepared ▸ (Reachable.start start).prepare
  exact reached.setLimits limited

/-- What an iteration that takes no step leaves of the fit behind its limit. -/
structure Behind (fit : Fit ℝ Unit 1 1) : Prop where
  parameters : fit.parameters = #v[10]
  limits : fit.limits = { lower := #v[some 13], upper := #v[none] }
  targets : fit.targets = { target := #v[0], sigma := #v[1], tags := #v[.equal] }
  criteria : fit.criteria = .off
  values : fit.values = #v[1]
  active : fit.active = #v[true]
  chiSquare : fit.chiSquare = 1

namespace Behind

variable {fit : Fit ℝ Unit 1 1} (here : fit.Behind)

noncomputable def slope : DenseMatrix ℝ 1 1 := .ofFn fun _ _ => 1

include here

theorem gradient : fit.gradient slope = #v[-1] := by
  rw [eq_singleton (fit.gradient slope), gradient_eq_sum, here.targets, here.active, here.values]
  norm_num [slope, Targets.weight]

theorem free : fit.free slope = #v[true] := by
  rw [eq_singleton (fit.free slope), Fit.free, Vector.get_ofFn, here.gradient]
  norm_num [isStuck, here.limits, here.parameters, Limits.atUpper, Limits.atLower]

theorem freeCount : (fit.counted slope).freeCount = 1 := by
  simp [counted, stuck, here.free]

theorem gradientNorm : (fit.measured slope).gradientNorm = 1 := by
  simp only [measured, here.free, here.gradient]
  rw [Scalar.norm_real, Scalar.sumSquares_real]
  norm_num

theorem entry (i : Fin (max 1 1)) (p : Fin 1) :
    (fit.weightedJacobian slope (fit.free slope)).toMatrix i p = 1 := by
  have inside : i.val < 1 := i.isLt
  change (fit.weightedJacobian slope (fit.free slope)).get i p = 1
  rw [weightedJacobian, DenseMatrix.get_ofFn, dif_pos inside, here.free, here.active, here.targets]
  norm_num [slope]

theorem residual (i : Fin (max 1 1)) : fit.weightedResidual i = -1 := by
  have inside : i.val < 1 := i.isLt
  rw [weightedResidual, Vector.get_ofFn, dif_pos inside, here.active, here.targets, here.values]
  norm_num [Targets.residual]

theorem factor_rank : (fit.linearization slope).factor.rank = 1 := by
  have factors := Factorization.ofMatrix_factors (fit.weightedJacobian slope (fit.free slope))
  have column : (fit.weightedJacobian slope (fit.free slope)).toMatrix.col 0 ≠ 0 := fun zero =>
    one_ne_zero ((here.entry ⟨0, Nat.one_pos⟩ 0).symm.trans (congrFun zero ⟨0, Nat.one_pos⟩))
  have small : (Reduction.tolerance (max 1 1) 1 : ℝ) < 1 := Reduction.tolerance_lt_one (by decide)
  exact le_antisymm (Factorization.rank_le _) (factors.rank_pos small column)

theorem factor_norms : (fit.linearization slope).factor.norms = #v[1] := by
  have factors := Factorization.ofMatrix_factors (fit.weightedJacobian slope (fit.free slope))
  refine Vector.ext_get fun p => ?_
  refine (factors.norms p).trans ?_
  rw [get_singleton, euclid, dotProduct, Finset.sum_congr rfl fun i _ => by
    rw [col_apply, here.entry, one_mul]]
  norm_num

theorem solution :
    (fit.linearization slope).factor.rSolve (fit.linearization slope).rhs = #v[-1] := by
  have factors := Factorization.ofMatrix_factors (fit.weightedJacobian slope (fit.free slope))
  have image : (fit.weightedJacobian slope (fit.free slope)).toMatrix *ᵥ #v[(-1 : ℝ)].get =
      fit.weightedResidual.get := by
    funext i
    rw [mulVec, dotProduct, Fin.sum_univ_one, here.entry, here.residual, get_singleton, one_mul]
  have nothing := Factorization.discarded_of_rank_eq _ here.factor_rank
  have only := factors.rSolve_isOnlyMinimizer nothing here.factor_rank
    (b := fit.weightedResidual.get) (c := (fit.linearization slope).rhs) fun i => by
      refine (Vector.get_ofFn _ _).trans ?_
      rw [← Factorization.qtMul_real]
      rfl
  exact Vector.ext_get fun p =>
    (congrFun (only.eq_of_isMinimizer (Normal.of_image image).isMinimizer) p).symm

end Behind

structure Leftward (L : Linearization ℝ 1 1) : Prop where
  free : L.free = #v[true]
  gradient : L.gradient = #v[-1]
  rank : L.factor.rank = 1
  fullRank : L.fullRank = true
  solution : L.factor.rSolve L.rhs = #v[-1]

/-- A fit behind its limit, with a radius that is as long as the step. -/
structure Stalled (fit : Fit ℝ Unit 1 1) : Prop extends Behind fit where
  delta : fit.trust.delta = 1
  alpha : fit.trust.alpha = 0
  scale : fit.trust.scale = #v[1]

theorem rescale_initial {norms : Vector ℝ 1} (unit : norms = #v[1]) :
    TrustRegion.initial.rescale norms #v[10] =
      { delta := 1, alpha := 0, scale := #v[1], initialized := true } := by
  have scale : TrustRegion.firstScale norms = #v[1] := by
    rw [unit, eq_singleton (TrustRegion.firstScale _), TrustRegion.firstScale, Vector.get_map]
    norm_num
  have radius : TrustRegion.firstRadius #v[(1 : ℝ)] #v[10] = 1 := by
    rw [TrustRegion.firstRadius, scaledNorm_singleton]
    norm_num [TrustRegion.initialFraction]
  rw [TrustRegion.rescale, if_neg (show ¬ TrustRegion.initial.initialized = true by decide), scale]
  dsimp only
  rw [radius]
  rfl

theorem behind_begins : ∃ first L, behind.Begins hill first L ∧ first.Stalled ∧ Leftward L := by
  let asked : Fit ℝ Unit 1 1 := { behind with iteration := 1, jacobianCalls := 1 }
  let ready : Fit ℝ Unit 1 1 := (asked.counted Behind.slope).measured Behind.slope
  let L : Linearization ℝ 1 1 := ready.linearization Behind.slope
  have start : asked.Behind := ⟨rfl, rfl, rfl, rfl, rfl, rfl, rfl⟩
  have counted : (asked.counted Behind.slope).Behind := ⟨rfl, rfl, rfl, rfl, rfl, rfl, rfl⟩
  have here : ready.Behind := ⟨rfl, rfl, rfl, rfl, rfl, rfl, rfl⟩
  have begins : behind.Begins hill (ready.linearized L) L := by
    have answer : ({ behind with iteration := behind.iteration + 1 } :
        Fit ℝ Unit 1 1).evaluateJacobian hill = (asked, .ok Behind.slope) := by
      have derivative : 1 - (10 - 10) / 2.25 = (1 : ℝ) := by norm_num
      simp only [evaluateJacobian, behind, hill_jacobian derivative]
      rfl
    have movable : (asked.counted Behind.slope).freeCount ≠ 0 := by
      rw [start.freeCount]
      exact one_ne_zero
    have steep : ¬ ready.gradientNorm ≤ ready.criteria.minGradient := by
      rw [counted.gradientNorm, here.criteria]
      exact not_le.mpr one_pos
    refine ⟨asked.stuckEvents Behind.slope ++ ready.deficientEvents L, ?_⟩
    simp only [linearize, answer, if_neg movable]
    exact if_neg steep
  have trust : (ready.linearized L).trust =
      { delta := 1, alpha := 0, scale := #v[1], initialized := true } :=
    rescale_initial here.factor_norms
  have fullRank : (L.factor.rank == (asked.counted Behind.slope).freeCount) = true := by
    rw [start.freeCount, here.factor_rank]
    rfl
  refine ⟨ready.linearized L, L, begins, ?_, ?_⟩
  · exact
      { toBehind := ⟨rfl, rfl, rfl, rfl, rfl, rfl, rfl⟩
        delta := by rw [trust]
        alpha := by rw [trust]
        scale := by rw [trust] }
  · exact ⟨here.free, here.gradient, here.factor_rank, fullRank, here.solution⟩

namespace Stalled

variable {fit : Fit ℝ Unit 1 1} {L : Linearization ℝ 1 1}

/-- The step that is tried: the limit is three to the right. -/
noncomputable def leap (fit : Fit ℝ Unit 1 1) (L : Linearization ℝ 1 1) : Proposal ℝ 1 :=
  { move := { next := #v[13], step := #v[3], bounded := true }
    stepNorm := 3
    trust := fit.trustAt L.fresh 0 3
    seen := [.gaussNewtonFits 1] }

theorem propose (stalled : fit.Stalled) (left : Leftward L) : fit.propose L = .ok (leap fit L) := by
  have move : fit.move L.free #v[-1] = { next := #v[13], step := #v[3], bounded := true } := by
    have target : (10 : ℝ) + -1 < 13 := by norm_num
    have step : (13 : ℝ) - 10 = 3 := by norm_num
    have next : (Vector.ofFn fun p : Fin 1 => (13 : ℝ)) = #v[13] := eq_singleton _
    have steps : (Vector.ofFn fun p : Fin 1 => (3 : ℝ)) = #v[3] := eq_singleton _
    simp [Fit.move, Limits.exceeded?, stalled.parameters, stalled.limits, left.free, target, step,
      next, steps]
  have solved : (fit.problem L).solve L.fullRank fit.trust.alpha =
      .ok { step := { x := #v[-1], alpha := 0 }, seen := [.gaussNewtonFits 1] } := by
    have step : (fit.problem L).gaussNewton L.fullRank = .ok #v[-1] := by
      have ranked : ¬ L.factor.rank = 0 := by
        rw [left.rank]
        exact one_ne_zero
      refine (if_neg ranked).trans ((if_pos left.fullRank).trans ?_)
      exact congrArg Except.ok left.solution
    have length : TrustRegion.scaledNorm (fit.problem L).scale #v[-1] = 1 := by
      rw [problem, stalled.scale, scaledNorm_singleton, abs_neg, abs_one]
    have short : 1 - (fit.problem L).delta ≤ Damping.tolerance * (fit.problem L).delta := by
      rw [problem, stalled.delta, Damping.tolerance]
      norm_num
    simp only [Damping.Problem.solve, step, length, if_pos short]
  simp only [Fit.propose, solved, move, stalled.scale, scaledNorm_singleton]
  norm_num [leap]

noncomputable def landed (fit : Fit ℝ Unit 1 1) (L : Linearization ℝ 1 1) (values : Vector ℝ 1) :
    Fit ℝ Unit 1 1 :=
  { fit.proposed (leap fit L) with spare := values, valueCalls := fit.valueCalls + 1 }

theorem evaluateAt_leap : (fit.proposed (leap fit L)).evaluateAt hill (leap fit L).move.next =
    (landed fit L #v[2], .ok #v[2]) := by
  have height : 1 + (13 - 10) - (13 - 10) ^ 2 / 4.5 = (2 : ℝ) := by norm_num
  simp only [evaluateAt, leap, hill_values height]
  rfl

theorem chiSquareAt_landed (stalled : fit.Stalled) :
    (landed fit L #v[2]).chiSquareAt #v[2] = 4 := by
  rw [chiSquareAt, show (landed fit L #v[2]).targets = _ from stalled.targets]
  norm_num [Targets.chiSquare, Targets.residual, Targets.active, Scalar.addOver_real,
    Inequality.isActive]

/-- Chi-square is four times as high there, but along the slope it would have risen as much. -/
theorem outcomeAt_landed (stalled : fit.Stalled) (left : Leftward L) :
    ∃ predicted, (landed fit L #v[2]).outcomeAt L (leap fit L) #v[2] =
      { actual := -3, predicted, slope := 3, stepNorm := 3, blewUp := false } := by
  refine ⟨((landed fit L #v[2]).outcomeAt L (leap fit L) #v[2]).predicted, ?_⟩
  rw [outcomeAt, stalled.chiSquareAt_landed, Fit.outcome,
    show (landed fit L #v[2]).chiSquare = 1 from stalled.chiSquare]
  norm_num [leap, left.gradient, Scalar.addOver_real]

/-- The parabola through the trial has its minimum at the whole step, and the radius stays. -/
theorem adapted (stalled : fit.Stalled) (left : Leftward L) :
    ((landed fit L #v[2]).adapted L (leap fit L) #v[2]).Stalled := by
  obtain ⟨predicted, outcome⟩ := stalled.outcomeAt_landed left
  have factor :
      TrustRegion.shrinkage ((landed fit L #v[2]).outcomeAt L (leap fit L) #v[2]) = 1 := by
    rw [outcome, TrustRegion.shrinkage_of_neg rfl (by norm_num)]
    norm_num [TrustRegion.vertex]
  have poor : TrustRegion.agreement ((landed fit L #v[2]).outcomeAt L (leap fit L) #v[2]) ≤ 1 / 4 :=
    TrustRegion.agreement_of_actual (by rw [outcome]; norm_num)
  have radius : (landed fit L #v[2]).trust.delta = 1 := by
    change (fit.trustAt L.fresh 0 3).delta = 1
    rw [trustAt, stalled.delta]
    norm_num
  have trust : ((landed fit L #v[2]).adapted L (leap fit L) #v[2]).trust =
      { (landed fit L #v[2]).trust with delta := 1, alpha := 0 } := by
    change (landed fit L #v[2]).trust.adapt _ = _
    rw [(landed fit L #v[2]).trust.adapt_of_poor poor, factor, radius,
      show (landed fit L #v[2]).trust.alpha = 0 from rfl, outcome]
    norm_num
  exact
    { toBehind := ⟨stalled.parameters, stalled.limits, stalled.targets, stalled.criteria,
        stalled.values, stalled.active, stalled.chiSquare⟩
      delta := by rw [trust]
      alpha := by rw [trust]
      scale := by rw [trust]; exact stalled.scale }

theorem collapsed (stalled : fit.Stalled) : fit.collapsed = false := by
  have size : TrustRegion.scaledNorm fit.trust.scale fit.parameters = 10 := by
    rw [stalled.scale, stalled.parameters, scaledNorm_singleton]
    norm_num
  have large : ¬ (1 : ℝ) ≤ Scalar.epsilon * 10 := by
    change ¬ (1 : ℝ) ≤ (2 ^ 52)⁻¹ * 10
    norm_num
  have normal : ¬ (1 : ℝ) < Scalar.minPositive :=
    not_lt.mpr (inv_le_one_of_one_le₀ (one_le_pow₀ one_le_two))
  simp only [Fit.collapsed, size, stalled.delta, large, normal, decide_false, Bool.or_self]

theorem trial (stalled : fit.Stalled) (left : Leftward L) : ∃ next events,
    fit.trial hill L = .rejected next events ∧ next.Stalled ∧ fit.RunsAway hill L := by
  have again := stalled.adapted left
  have judged : fit.trial hill L = judge L (leap fit L) (landed fit L #v[2]) #v[2] := by
    simp only [Fit.trial, stalled.propose left, evaluateAt_leap]
  refine ⟨_, (landed fit L #v[2]).trialEvents L (leap fit L) #v[2], ?_, again,
    (landed fit L #v[2]).outcomeAt L (leap fit L) #v[2], ?_, ?_⟩
  · rw [judged]
    rcases (landed fit L #v[2]).judge_cases (ε := Empty) L (leap fit L) #v[2] with ⟨better, _⟩ |
      ⟨_, finished, _⟩ | ⟨_, _, rejected⟩
    · have chiSquare : (landed fit L #v[2]).chiSquare = 1 := stalled.chiSquare
      rw [stalled.chiSquareAt_landed, chiSquare] at better
      norm_num at better
    · rw [again.collapsed] at finished
      cases finished
    · exact rejected
  · simp only [trialOutcome?, stalled.propose left, evaluateAt_leap]
  · obtain ⟨predicted, outcome⟩ := stalled.outcomeAt_landed left
    rw [outcome]
    norm_num [TrialOutcome.Runaway]

theorem retried {first : Fit ℝ Unit 1 1} (stalled : first.Stalled) (left : Leftward L) (k : Nat) :
    ∃ later, retried hill L k first = some later ∧ later.Stalled := by
  induction k with
  | zero => exact ⟨first, rfl, stalled⟩
  | succ k ih =>
      obtain ⟨later, reached, again⟩ := ih
      obtain ⟨next, events, rejected, onward, _⟩ := again.trial left
      refine ⟨next, ?_, onward⟩
      rw [Fit.retried, reached, Option.bind_some, retry_of_rejected rejected]

end Stalled

end Hill

/-! ## The iteration -/

/-- In an iteration of a prepared fit every rejected trial halves the radius, unless it ran away,
when the factor is above a half. The iteration ends just if only finitely many of its trials run
away, and then with a status or an error of the model. -/
theorem iterate_ends [Products ℝ] (M : Model ℝ σ ε n m) {fit : Fit ℝ σ n m}
    (reachable : Reachable M fit)
    (prepared : fit.prepared = true) :
    (∀ first L, fit.Begins M first L → ∀ k later next events, retried M L k first = some later →
      later.trial M L = .rejected next events →
      ∃ trial, later.trialOutcome? M L = some trial ∧
        next.trust.delta = TrustRegion.shrinkage trial *
          min (later.trustAt L.fresh later.trust.alpha trial.stepNorm).delta
            (trial.stepNorm / 0.1) ∧
        (¬ trial.Runaway → next.trust.delta ≤ later.trust.delta / 2) ∧
        (trial.Runaway → trial.slope + 0.5 * trial.actual ≠ 0 →
          1 / 2 < TrustRegion.shrinkage trial)) ∧
    ((∃ fuel call, fit.iterate M fuel = some call) ↔
      ∀ first L, fit.Begins M first L →
        ∃ N, ∀ k ≥ N, ∀ later, retried M L k first = some later → ¬ later.RunsAway M L) ∧
    ∀ fuel call, fit.iterate M fuel = some call → call.Ends := by
  refine ⟨fun first L begins k later next events reached rejected => ?_, ?_⟩
  · obtain ⟨trial, came, radius, halves⟩ :=
      rejected_delta (retried_sound (begins.sound reachable.sound) reached) rejected
    exact ⟨trial, came, radius, halves, TrustRegion.half_lt_shrinkage⟩
  rcases iterate_cases M prepared with ⟨call, finished, ends, settles⟩ |
    ⟨first, events, L, only, begins, loops⟩
  · refine ⟨⟨fun _ first L begins => absurd begins (finished first L), fun _ => ?_⟩, ?_⟩
    · exact ⟨0, call, settles 0⟩
    · intro fuel other found
      rw [settles] at found
      cases found
      exact ends
  · refine ⟨⟨?_, fun tame => ?_⟩, ?_⟩
    · rintro ⟨fuel, call, found⟩ other K again
      obtain ⟨rfl, rfl⟩ := only other K again
      rw [loops] at found
      obtain ⟨rest, ended, _⟩ := Option.map_eq_some_iff.mp found
      refine ⟨fuel, fun k later before reached => ?_⟩
      rw [retried_of_trials ended later] at reached
      cases reached
    · obtain ⟨fuel, finished⟩ := retried_ends (begins.sound reachable.sound) (tame first L begins)
      obtain ⟨call, ended⟩ := trials_of_retried finished
      exact ⟨fuel, call.after events, by rw [loops, ended, Option.map_some]⟩
    · intro fuel call found
      rw [loops] at found
      obtain ⟨rest, ended, rfl⟩ := Option.map_eq_some_iff.mp found
      have ends : rest.Ends := trials_ends ended
      exact ends

theorem hill_never_ends : Reachable hill behind ∧ behind.prepared = true ∧
    ¬ ∃ fuel call, behind.iterate hill fuel = some call := by
  refine ⟨behind_reachable, rfl, fun ends => ?_⟩
  obtain ⟨first, L, begins, stalled, left⟩ := behind_begins
  obtain ⟨N, tame⟩ := (iterate_ends hill behind_reachable rfl).2.1.mp ends first L begins
  obtain ⟨later, reached, again⟩ := stalled.retried left N
  obtain ⟨_, _, _, _, runsAway⟩ := again.trial left
  exact tame N le_rfl later reached runsAway

end Fit

end LeastSquares

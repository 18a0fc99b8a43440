import LeastSquares.Proofs.Double.Positive
import LeastSquares.Proofs.Fit.Prepared
import LeastSquares.Proofs.Fit.Stalling
import LeastSquares.Proofs.Fit.Throughout

/-!
# Radii that vanish

In doubles a positive radius stays positive through a trial, unless the trial quenches it. A poor
trial multiplies the radius, or ten times the length of the step if that is less, by a tenth at
least: this is zero if the step has no length, and it may round to zero if what is multiplied is
subnormal. A good trial doubles the length of the step, which quenches the radius if that is not
positive. The first radius is positive unless the length of the scaled parameters is `NaN`. Nothing
else changes the radius, so in a session it stays positive just if none of this happens.

A step has no length if it is lost in the rounding of the parameters, if limits cut all of it off,
or if its squares are too small. The radius is zero then, and the next search divides by it.
-/

set_option autoImplicit false

namespace LeastSquares

open Double

variable {σ ε : Type} {n m : Nat}

namespace TrustRegion

/-! ## The update -/

/-- What a poor trial shrinks the radius from. -/
def reach (T : TrustRegion Float n) (trial : TrialOutcome Float) : Float :=
  Scalar.min T.delta (trial.stepNorm / 0.1)

def Quenches (T : TrustRegion Float n) (trial : TrialOutcome Float) : Prop :=
  if agreement trial ≤ 0.25 then
    (trial.stepNorm == 0) = true ∨
      T.reach trial < Scalar.minPositive ∧ (shrinkage trial * T.reach trial == 0) = true
  else (T.alpha == 0 || decide (0.75 ≤ agreement trial)) = true ∧ ¬ 0 < trial.stepNorm

variable {T : TrustRegion Float n} {trial : TrialOutcome Float}

theorem scaledNorm_notBelow (scale v : Vector Float n) :
    NotBelow (scaledNorm scale v).toModel.unpack := by
  change NotBelow (Float.sqrt _).toModel.unpack
  rw [unpack_sqrt]
  exact (notBelow_sqrt _).reread

theorem reach_pos (radius : 0 < T.delta) (length : NotBelow trial.stepNorm.toModel.unpack)
    (some : ¬ IsZero trial.stepNorm) : 0 < T.reach trial := by
  rcases length.cases with missing | zero | positive
  · rw [reach, min_of_isNaN (number_of_pos radius) (isNaN_div_left missing)]
    exact radius
  · exact absurd zero some
  · exact min_pos radius (div_pos positive tenth_unpack (by decide))

theorem isZero_reach (radius : 0 < T.delta) (zero : IsZero trial.stepNorm) :
    IsZero (T.reach trial) := by
  have quotient : IsZero (trial.stepNorm / 0.1) :=
    zero.div (by decide) (not_isZero_of_pos (by decide))
  rw [reach, min_of_lt (quotient.lt_of_pos radius) (number_of_pos radius)]
  exact quotient

theorem doubled_pos_iff (length : NotBelow trial.stepNorm.toModel.unpack) :
    0 < trial.stepNorm / 0.5 ↔ 0 < trial.stepNorm := by
  rcases length.cases with missing | zero | positive
  · exact iff_of_false (not_pos_of_isNaN (isNaN_div_left missing)) (not_pos_of_isNaN missing)
  · have quotient : IsZero (trial.stepNorm / 0.5) :=
      zero.div (by decide) (not_isZero_of_pos (by decide))
    exact iff_of_false (fun some => not_isZero_of_pos some quotient)
      fun some => not_isZero_of_pos some zero
  · exact iff_of_true (div_pos positive half_unpack (by decide)) positive

/-- A poor trial quenches the radius if the step has no length, or if what it shrinks is subnormal
and rounds to zero. -/
theorem shrunk_pos_iff (radius : 0 < T.delta) (length : NotBelow trial.stepNorm.toModel.unpack) :
    0 < shrinkage trial * T.reach trial ↔ ¬ ((trial.stepNorm == 0) = true ∨
      T.reach trial < Scalar.minPositive ∧ (shrinkage trial * T.reach trial == 0) = true) := by
  rw [beq_zero_iff, beq_zero_iff]
  by_cases zero : IsZero trial.stepNorm
  · exact iff_of_false (not_pos_mul_zero (isZero_reach radius zero)) fun kept => kept (.inl zero)
  · have reaches := reach_pos radius length zero
    rw [mul_pos_iff (shrinkage_pos trial) reaches]
    constructor
    · rintro nonzero (none | ⟨_, vanishes⟩)
      · exact zero none
      · exact nonzero vanishes
    · intro kept vanishes
      refine kept (.inr ⟨?_, vanishes⟩)
      by_contra normal
      have large : Scalar.minPositive ≤ T.reach trial :=
        Scalar.Ordered.le_of_not_lt (by decide) (number_of_pos reaches) normal
      exact not_isZero_of_pos (mul_pos_of_normal (shrinkage_floor trial) large) vanishes

theorem adapt_pos_iff (radius : 0 < T.delta) (length : NotBelow trial.stepNorm.toModel.unpack) :
    0 < (T.adapt trial).delta ↔ ¬ T.Quenches trial := by
  by_cases poor : agreement trial ≤ 0.25
  · rw [T.adapt_poor poor, Quenches, if_pos poor]
    exact shrunk_pos_iff radius length
  · rw [Quenches, if_neg poor, adapt]
    simp only [if_neg poor]
    split
    · rename_i grows
      rw [doubled_pos_iff length, not_and_not_right]
      exact ⟨fun some _ => some, fun kept => kept grows⟩
    · rename_i stays
      exact iff_of_true radius fun quenches => stays quenches.1

/-! ## The first radius -/

theorem firstRadius_pos_iff (scale a : Vector Float n) :
    0 < firstRadius scale a ↔ Scalar.isNaN (scaledNorm scale a) = false := by
  have radius : firstRadius scale a =
      if (scaledNorm scale a == 0) = true then 0.1 else 0.1 * scaledNorm scale a := rfl
  rcases (scaledNorm_notBelow scale a).cases with missing | zero | positive
  · rw [missing]
    refine iff_of_false ?_ (by decide)
    rw [radius, if_neg (Bool.eq_false_iff.mp (beq_of_isNaN missing))]
    exact not_pos_of_isNaN (isNaN_mul_right missing)
  · refine iff_of_true ?_ (number_of_isFinite zero.isFinite)
    rw [radius, if_pos ((beq_zero_iff _).mpr zero)]
    decide
  · refine iff_of_true ?_ (number_of_pos positive)
    rw [radius, if_neg fun zero => not_isZero_of_pos positive ((beq_zero_iff _).mp zero)]
    have tenth : (0.1 : Float) ≤ 0.1 := by decide
    exact mul_pos_of_normal tenth (minPositive_le_sqrt positive)

end TrustRegion

namespace Fit

variable {M : Model Float σ ε n m} {L : Linearization Float n m} {fit first : Fit Float σ n m}

/-! ## Trials -/

/-- Whether the model answers at the next trial and the radius is quenched. -/
def Quenched (M : Model Float σ ε n m) (L : Linearization Float n m) (fit : Fit Float σ n m) :
    Prop :=
  ∃ proposal asked values, fit.propose L = .ok proposal ∧
    (fit.proposed proposal).evaluateAt M proposal.move.next = (asked, .ok values) ∧
    asked.trust.Quenches (asked.outcomeAt L proposal values)

theorem trustAt_pos (radius : 0 < fit.trust.delta) (fresh : Bool) (alpha length : Float) :
    0 < (fit.trustAt fresh alpha length).delta := by
  simp only [trustAt]
  split
  · rename_i short
    rw [Bool.and_eq_true, decide_eq_true_eq] at short
    exact min_pos radius short.2
  · exact radius

theorem trial_pos_iff (radius : 0 < fit.trust.delta) (M : Model Float σ ε n m)
    (L : Linearization Float n m) :
    0 < (fit.trial M L).fit.trust.delta ↔ ¬ fit.Quenched M L := by
  rcases fit.trial_cases M L with ⟨error, none, failed⟩ |
    ⟨proposal, asked, error, step, answer, failed⟩ |
    ⟨proposal, asked, values, step, answer, judged⟩
  · rw [failed]
    refine iff_of_true radius ?_
    rintro ⟨proposal, _, _, step, _, _⟩
    cases none.symm.trans step
  · obtain ⟨alpha, trust, -⟩ := propose_cases step
    rw [failed, evaluateAt_eq answer]
    refine iff_of_true ?_ ?_
    · change 0 < proposal.trust.delta
      rw [trust]
      exact trustAt_pos radius _ _ _
    · rintro ⟨_, _, _, again, other, _⟩
      cases step.symm.trans again
      cases answer.symm.trans other
  · obtain ⟨alpha, trust, length⟩ := propose_cases step
    have asks : 0 < asked.trust.delta := by
      rw [evaluateAt_eq answer]
      change 0 < proposal.trust.delta
      rw [trust]
      exact trustAt_pos radius _ _ _
    have measured : NotBelow (asked.outcomeAt L proposal values).stepNorm.toModel.unpack := by
      rw [outcomeAt_stepNorm, length]
      exact TrustRegion.scaledNorm_notBelow _ _
    have adapts : (fit.trial M L).fit.trust = (asked.adapted L proposal values).trust := by
      rw [judged]
      rcases asked.judge_cases (ε := ε) L proposal values with ⟨_, status, settled⟩ |
        ⟨_, _, settled⟩ | ⟨_, _, again⟩
      · rw [settled]
        rfl
      · rw [settled]
        rfl
      · rw [again]
        rfl
    rw [adapts]
    refine (TrustRegion.adapt_pos_iff asks measured).trans (not_congr ⟨fun quenches => ?_, ?_⟩)
    · exact ⟨proposal, asked, values, step, answer, quenches⟩
    · rintro ⟨_, _, _, again, other, quenches⟩
      cases step.symm.trans again
      cases answer.symm.trans other
      exact quenches

/-! ## Iterations -/

def KeepsRadius [Products Float] (M : Model Float σ ε n m) (fit : Fit Float σ n m) : Prop :=
  fit.prepared = true → ∀ first L, fit.Tries M first L →
    ∀ k later, retried M L k first = some later →
      0 < later.trust.delta ∧ 0 < (later.trial M L).fit.trust.delta

/-- Whether no trial of an iteration quenches the radius, and the first radius, where it is set,
comes from a length. -/
def Unquenched [Products Float] (M : Model Float σ ε n m) (fit : Fit Float σ n m) : Prop :=
  fit.prepared = true → ∀ first L, fit.Tries M first L →
    (fit.trust.initialized = false →
      Scalar.isNaN (TrustRegion.scaledNorm first.trust.scale fit.parameters) = false) ∧
    ∀ k later, retried M L k first = some later → ¬ later.Quenched M L

/-- Whether the radius is positive once the trust region has been set up. -/
def RadiusPos (fit : Fit Float σ n m) : Prop :=
  fit.trust.initialized = true → 0 < fit.trust.delta

theorem Tries.delta_pos_iff [Products Float] (tries : fit.Tries M first L)
    (positive : fit.RadiusPos) :
    0 < first.trust.delta ↔ (fit.trust.initialized = false →
      Scalar.isNaN (TrustRegion.scaledNorm first.trust.scale fit.parameters) = false) := by
  cases known : fit.trust.initialized with
  | true =>
      rw [tries.delta known]
      exact iff_of_true (positive known) fun fresh => by cases fresh
  | false =>
      have scale : first.trust.scale = TrustRegion.firstScale L.factor.norms ∧
          first.trust.delta =
            TrustRegion.firstRadius (TrustRegion.firstScale L.factor.norms) fit.parameters := by
        rw [tries.trust, TrustRegion.rescale, if_neg (Bool.eq_false_iff.mp known)]
        exact ⟨rfl, rfl⟩
      rw [scale.1, scale.2, TrustRegion.firstRadius_pos_iff]
      exact ⟨fun some _ => some, fun some => some rfl⟩

theorem keepsRadius_iff [Products Float]
    (positive : fit.RadiusPos) : fit.KeepsRadius M ↔ fit.Unquenched M := by
  constructor
  · intro keeps prepared first L tries
    have along := keeps prepared first L tries
    refine ⟨(tries.delta_pos_iff positive).mp (along 0 first rfl).1, fun k later reached => ?_⟩
    obtain ⟨before, after⟩ := along k later reached
    exact (trial_pos_iff before M L).mp after
  · intro unquenched prepared first L tries k later reached
    obtain ⟨begins, never⟩ := unquenched prepared first L tries
    have before : 0 < later.trust.delta := by
      induction k generalizing later with
      | zero =>
          cases reached
          exact (tries.delta_pos_iff positive).mpr begins
      | succ k ih =>
          obtain ⟨earlier, known, again⟩ := Option.bind_eq_some_iff.mp reached
          obtain ⟨events, rejected⟩ := retry_eq_some again
          have after := (trial_pos_iff (ih earlier known) M L).mpr (never k earlier known)
          rw [rejected] at after
          exact after
    exact ⟨before, (trial_pos_iff before M L).mpr (never k later reached)⟩

theorem KeepsRadius.iterate [Products Float] (keeps : fit.KeepsRadius M)
    (positive : fit.RadiusPos) {fuel : Nat}
    {call : Call Float σ ε n m Status} (ends : fit.iterate M fuel = some call) :
    call.fit.RadiusPos := by
  by_cases prepared : fit.prepared = true
  · rcases iterate_tries M prepared with ⟨_, _, settled, always⟩ | ⟨first, L, _, tries, _⟩
    · cases (always fuel).symm.trans ends
      have kept := congrArg Fit.trust (linearize_settled_fit settled)
      rw [RadiusPos, kept]
      exact positive
    · obtain ⟨k, later, last, events, reached, settled, rfl⟩ := tries.last prepared ends
      have after := (keeps prepared first L tries k later reached).2
      rw [settled] at after
      exact fun _ => after
  · rw [Fit.iterate, if_neg prepared] at ends
    cases ends
    exact positive

/-! ## Sessions -/

theorem keeps_radiusPos [Products Float] {P : Fit Float σ n m → Prop} {fuel : Nat}
    (keeps : ∀ fit, fit.RadiusPos → P fit → fit.KeepsRadius M) : Keeps M fuel P RadiusPos :=
  Keeps.of_trust (J := fun T => T.initialized = true → 0 < T.delta) fun fit _ positive holds ends =>
    (keeps fit positive holds).iterate positive ends

/-- In a session every trial has a positive radius, before and after it, just if no trial quenches
the radius and the first radius, where it is set, comes from a length that is a number. Then the
radius is positive at the end as well, if the trust region has been set up. -/
theorem session_radius_pos_iff [Products Float] {model : σ} {parameters : Vector Float n}
    {target : Vector Float m}
    {sigma : Array Float} {begun : Fit Float σ n m} {fuel : Nat} {requests : List (Request Float)}
    (started : Fit.start model parameters target sigma = .ok begun) :
    (begun.Throughout M fuel (KeepsRadius M) requests ↔
      begun.Throughout M fuel (Unquenched M) requests) ∧
    ∀ last, begun.Throughout M fuel (Unquenched M) requests →
      begun.performAll M fuel requests = some last → last.RadiusPos := by
  have positive : begun.RadiusPos := by
    intro known
    rw [start_trust started] at known
    cases known
  have unquenchedKeeps : Keeps M fuel (Unquenched M) RadiusPos :=
    keeps_radiusPos fun fit positive => (keepsRadius_iff positive).mpr
  have radiiKeep : Keeps M fuel (KeepsRadius M) RadiusPos := keeps_radiusPos fun _ _ keeps => keeps
  refine ⟨⟨fun keeps => ?_, fun unquenched => ?_⟩, fun last unquenched led => ?_⟩
  · exact radiiKeep.imp (fun fit positive => (keepsRadius_iff positive).mp) positive keeps
  · exact unquenchedKeeps.imp (fun fit positive => (keepsRadius_iff positive).mpr) positive
      unquenched
  · exact unquenchedKeeps.performAll positive unquenched led

/-! ## A step lost in rounding -/

/-- The model of one point whose value is one everywhere, and that claims a slope of one. -/
def plateau : Model Float Unit Empty 1 1 where
  values _ _ _ := { state := (), buffer := ones 1, failure? := none }
  jacobian _ _ _ := { state := (), buffer := .ofFn fun _ _ => 1, failure? := none }

/-- A parameter from which a step of one is lost in rounding. -/
def far : Vector Float 1 := .replicate 1 1e17

/-- The first trial on the plateau quenches the radius: the trust region is set up, and its radius
is zero. -/
theorem far_radius_zero : ∃ begun last : Fit Float Unit 1 1,
    Fit.start () far #v[(0 : Float)] #[(1 : Float)] = .ok begun ∧
    begun.performAll plateau 1 [.prepare, .iterate] = some last ∧
    last.trust.initialized = true ∧ (last.trust.delta == 0) = true ∧
    ¬ begun.Throughout plateau 1 (Unquenched plateau) [.prepare, .iterate] := by
  have started := onePoint_starts one_ne_zero far
  have ends : (performAll plateau 1 [.prepare, .iterate]
      { onePoint 1 with parameters := far }).any
        (fun last => last.trust.initialized && last.trust.delta == 0) = true := by
    decide +kernel
  cases led : performAll plateau 1 [.prepare, .iterate] { onePoint 1 with parameters := far } with
  | none =>
      rw [led] at ends
      cases ends
  | some last =>
      rw [led, Option.any_some, Bool.and_eq_true] at ends
      obtain ⟨known, zero⟩ := ends
      refine ⟨_, last, started, led, known, zero, fun unquenched => ?_⟩
      have radius : 0 < last.trust.delta :=
        (session_radius_pos_iff started).2 last unquenched led known
      exact not_isZero_of_pos radius ((beq_zero_iff _).mp zero)

end Fit

end LeastSquares

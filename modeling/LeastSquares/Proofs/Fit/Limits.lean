import Mathlib.Data.Option.Basic
import LeastSquares.Proofs.Fit.Outcome
import LeastSquares.Proofs.Fit.Requests
import LeastSquares.Proofs.Ordered

/-!
# Points within limits

A parameter is beyond a limit or it is not; one that is not a number is beyond none, and still not
enclosed. Of the limits that a fit can be given no lower one is above its upper one. Where
parameters are moved into such limits, and where a step is cut short at them, the point that comes
out is beyond none.
-/

set_option autoImplicit false

namespace LeastSquares

variable {α σ ε : Type} {n m : Nat}

namespace Limits

theorem missing_side {given : Option (Vector α n)} {end? : Option α} {p : Fin n}
    (missing : (match given with
      | some limits => limits.map some
      | none => Vector.replicate n end?) p = none) : end? = none := by
  cases given with
  | none => rwa [Vector.get_replicate] at missing
  | some limits =>
      rw [Vector.get_map] at missing
      cases missing

theorem mem_of_guarded {given : Option α} {beyond : α → Prop} [DecidablePred beyond] {limit : α}
    (found : (match given with
      | some limit => if beyond limit then some limit else none
      | none => none) = some limit) : limit ∈ given := by
  cases given with
  | none => cases found
  | some other =>
      by_cases far : beyond other
      · exact (if_pos far).symm.trans found
      · exact absurd ((if_neg far).symm.trans found) (Option.some_ne_none limit).symm

variable [Scalar α]

/-- Neither limit of parameter `p` is beyond `a`. -/
def AdmitsAt (L : Limits α n) (p : Fin n) (a : α) : Prop :=
  (∀ limit ∈ L.lower p, ¬ a < limit) ∧ ∀ limit ∈ L.upper p, ¬ limit < a

def Admits (L : Limits α n) (a : Vector α n) : Prop := ∀ p, L.AdmitsAt p (a p)

/-- Both limits of each parameter are known to be kept. -/
def Encloses (L : Limits α n) (a : Vector α n) : Prop :=
  ∀ p, (∀ limit ∈ L.lower p, limit ≤ a p) ∧ ∀ limit ∈ L.upper p, a p ≤ limit

/-- Parameter `p` is at one of its limits. -/
def Touches (L : Limits α n) (p : Fin n) (a : α) : Prop :=
  ∃ limit, (limit ∈ L.lower p ∨ limit ∈ L.upper p) ∧ (a == limit) = true

instance (L : Limits α n) (p : Fin n) (a : α) : Decidable (L.AdmitsAt p a) :=
  inferInstanceAs (Decidable ((∀ limit ∈ L.lower p, ¬ a < limit) ∧
    ∀ limit ∈ L.upper p, ¬ limit < a))

instance (L : Limits α n) (a : Vector α n) : Decidable (L.Admits a) :=
  inferInstanceAs (Decidable (∀ p, L.AdmitsAt p (a p)))

instance (L : Limits α n) (a : Vector α n) : Decidable (L.Encloses a) :=
  inferInstanceAs (Decidable (∀ p, (∀ limit ∈ L.lower p, limit ≤ a p) ∧
    ∀ limit ∈ L.upper p, a p ≤ limit))

structure Upright (L : Limits α n) : Prop where
  ordered : ∀ p, ∀ lower ∈ L.lower p, ∀ upper ∈ L.upper p, lower ≤ upper
  lowerless : ∀ p, L.lower p = none → (Scalar.least? : Option α) = none
  upperless : ∀ p, L.upper p = none → (Scalar.greatest? : Option α) = none

theorem ordered_of_not_inverted {L : Limits α n} (checked : L.firstInverted? = none) (p : Fin n) :
    ∀ lower ∈ L.lower p, ∀ upper ∈ L.upper p, lower ≤ upper := by
  intro lower below upper above
  have each := List.findSome?_eq_none_iff.mp checked p (List.mem_finRange p)
  rw [Option.map_eq_none_iff, inverted?, Option.mem_def.mp below, Option.mem_def.mp above] at each
  by_contra inverted
  simp only [if_neg inverted] at each
  cases each

theorem ofVectors_upright {lower upper : Option (Vector α n)}
    (checked : (ofVectors lower upper).firstInverted? = none) : (ofVectors lower upper).Upright :=
  ⟨ordered_of_not_inverted checked, fun _ => missing_side, fun _ => missing_side⟩

/-! ## Cutting short -/

theorem exceeded?_eq_none_iff (L : Limits α n) (p : Fin n) (a : α) :
    L.exceeded? p a = none ↔ L.AdmitsAt p a := by
  rw [exceeded?, AdmitsAt]
  cases L.lower p with
  | none =>
      cases L.upper p with
      | none => simp
      | some upper => simp
  | some lower =>
      cases L.upper p with
      | none => simp
      | some upper => simp

theorem mem_of_exceeded {L : Limits α n} {p : Fin n} {a limit : α}
    (exceeded : L.exceeded? p a = some limit) : limit ∈ L.lower p ∨ limit ∈ L.upper p := by
  rcases (Option.orElse_eq_some _ _ _).mp exceeded with below | ⟨_, above⟩
  · exact .inl (mem_of_guarded below)
  · exact .inr (mem_of_guarded above)

theorem mem_of_atLower {L : Limits α n} {p : Fin n} {a : α} (limited : L.atLower p a = true) :
    ∃ limit ∈ L.lower p, (a == limit) = true := by
  rw [atLower] at limited
  split at limited
  · rename_i limit given
    exact ⟨limit, given, limited⟩
  · cases limited

theorem mem_of_atUpper {L : Limits α n} {p : Fin n} {a : α} (limited : L.atUpper p a = true) :
    ∃ limit ∈ L.upper p, (a == limit) = true := by
  rw [atUpper] at limited
  split at limited
  · rename_i limit given
    exact ⟨limit, given, limited⟩
  · cases limited

/-! ## Limits of ordered scalars -/

variable [Scalar.Ordered α] {L : Limits α n} {p : Fin n}

theorem unbounded_upright : (unbounded : Limits α n).Upright := by
  refine ⟨fun p lower below upper above => ?_, fun p missing => ?_, fun p missing => ?_⟩
  · rw [unbounded, Vector.get_replicate, Option.mem_def] at below above
    exact Scalar.Ordered.least_le_greatest below above
  · rwa [unbounded, Vector.get_replicate] at missing
  · rwa [unbounded, Vector.get_replicate] at missing

theorem admitsAt_congr {x y : α} (same : Scalar.Ordered.position x = Scalar.Ordered.position y) :
    L.AdmitsAt p x ↔ L.AdmitsAt p y := by
  simp only [AdmitsAt, Scalar.Ordered.lt_congr_left same, Scalar.Ordered.lt_congr_right same]

theorem limit_admitted (upright : L.Upright) {limit : α}
    (given : limit ∈ L.lower p ∨ limit ∈ L.upper p) : L.AdmitsAt p limit := by
  rcases given with below | above
  · refine ⟨fun lower same => ?_, fun upper above => ?_⟩
    · cases below.symm.trans same
      exact Scalar.Ordered.lt_irrefl _
    · exact Scalar.Ordered.not_lt_of_le (upright.ordered p limit below upper above)
  · refine ⟨fun lower below => ?_, fun upper same => ?_⟩
    · exact Scalar.Ordered.not_lt_of_le (upright.ordered p lower below limit above)
    · cases above.symm.trans same
      exact Scalar.Ordered.lt_irrefl _

theorem touching_admitted (upright : L.Upright) {a : α} (touches : L.Touches p a) :
    L.AdmitsAt p a := by
  obtain ⟨limit, given, same⟩ := touches
  rw [admitsAt_congr (Scalar.Ordered.position_of_beq same)]
  exact limit_admitted upright given

theorem clamp_admitted (upright : L.Upright) (a : α) : L.AdmitsAt p (L.clamp p a) := by
  refine ⟨fun limit below => ?_, fun limit above => ?_⟩
  · rw [clamp, Option.mem_def.mp below]
    cases above : L.upper p with
    | none => exact Scalar.Ordered.max_not_lt a limit
    | some upper =>
        dsimp only
        rcases Scalar.Ordered.min_choice (Scalar.max a limit) upper with same | same
        · rw [same]
          exact Scalar.Ordered.max_not_lt a limit
        · rw [same]
          exact Scalar.Ordered.not_lt_of_le (upright.ordered p limit below upper above)
  · rw [clamp, Option.mem_def.mp above]
    exact Scalar.Ordered.not_lt_min _ limit

end Limits

namespace Fit

variable [Scalar α]

/-! ## Which calls change limits -/

theorem setInequalities_limits {fit next : Fit α σ n m} {tags : Option (Array Inequality)}
    (set : fit.setInequalities tags = .ok next) : next.limits = fit.limits := by
  obtain ⟨targets, rfl⟩ := setInequalities_eq set
  split
  · rfl
  · rfl

theorem prepare_limits (M : Model α σ ε n m) (fit : Fit α σ n m) :
    (fit.prepare M).fit.limits = fit.limits := by
  rcases fit.prepare_cases M with same | ⟨model, parameters, values, failed⟩ |
    ⟨model, parameters, values, ready⟩
  · rw [same]
  · rw [failed]
  · rw [ready]
    rfl

theorem trial_settings (M : Model α σ ε n m) (L : Linearization α n m) (fit : Fit α σ n m) :
    (fit.trial M L).fit.limits = fit.limits ∧ (fit.trial M L).fit.criteria = fit.criteria := by
  have limits := congrArg Fit.limits (fit.trial_fit M L)
  have criteria := congrArg Fit.criteria (fit.trial_fit M L)
  exact ⟨limits, criteria⟩

theorem trial_limits (M : Model α σ ε n m) (L : Linearization α n m) (fit : Fit α σ n m) :
    (fit.trial M L).fit.limits = fit.limits :=
  (trial_settings M L fit).1

theorem iterate_settings [Products α] {M : Model α σ ε n m} {fuel : Nat} {fit : Fit α σ n m}
    {call : Call α σ ε n m Status} (ends : fit.iterate M fuel = some call) :
    call.fit.limits = fit.limits ∧ call.fit.criteria = fit.criteria := by
  refine iterate_keeps (fun later => later.limits = fit.limits ∧ later.criteria = fit.criteria)
    (fun later same => same) (fun later same => ?_) (fun L later same => ?_) ⟨rfl, rfl⟩ ends
  · have stays := linearize_stays M later
    exact ⟨stays.limits.trans same.1, stays.criteria.trans same.2⟩
  · obtain ⟨limits, criteria⟩ := trial_settings M L later
    exact ⟨limits.trans same.1, criteria.trans same.2⟩

theorem iterate_limits [Products α] {M : Model α σ ε n m} {fuel : Nat} {fit : Fit α σ n m}
    {call : Call α σ ε n m Status} (ends : fit.iterate M fuel = some call) :
    call.fit.limits = fit.limits :=
  (iterate_settings ends).1

theorem setLimits_upright {fit next : Fit α σ n m} {lower upper : Option (Array α)}
    (set : fit.setLimits lower upper = .ok next) : next.limits.Upright := by
  simp only [setLimits, bind, Except.bind] at set
  split at set
  · cases set
  · split at set
    · cases set
    · split at set
      · cases set
      · rename_i checked
        cases set
        exact Limits.ofVectors_upright checked

theorem touches_of_not_free [Products α] {fit : Fit α σ n m} {J : DenseMatrix α m n} {p : Fin n}
    (frozen : fit.free J p = false) : fit.limits.Touches p (fit.parameters p) := by
  rw [free, Vector.get_ofFn, Bool.not_eq_false', isStuck, Bool.or_eq_true, Bool.and_eq_true,
    Bool.and_eq_true] at frozen
  rcases frozen with ⟨limited, _⟩ | ⟨limited, _⟩
  · obtain ⟨limit, given, same⟩ := Limits.mem_of_atUpper limited
    exact ⟨limit, .inr given, same⟩
  · obtain ⟨limit, given, same⟩ := Limits.mem_of_atLower limited
    exact ⟨limit, .inl given, same⟩

/-! ## Points that a fit moves to -/

variable [Scalar.Ordered α] {fit : Fit α σ n m}

theorem clamped_admitted (upright : fit.limits.Upright) : fit.limits.Admits fit.clamped := by
  intro p
  have admitted := Limits.clamp_admitted upright (p := p) (fit.parameters p)
  rw [clamped, Vector.get_ofFn]
  dsimp only
  split
  · rename_i same
    exact (Limits.admitsAt_congr (Scalar.Ordered.position_of_beq same)).mp admitted
  · exact admitted

theorem move_admitted (upright : fit.limits.Upright) (free : Vector Bool n) (x : Vector α n) :
    fit.limits.Admits (fit.move free x).next := by
  intro p
  rw [move, Vector.get_ofFn]
  dsimp only
  split
  · rename_i limit exceeded
    exact Limits.limit_admitted upright (Limits.mem_of_exceeded exceeded)
  · rename_i kept
    exact (Limits.exceeded?_eq_none_iff _ _ _).mp kept

theorem move_frozen (upright : fit.limits.Upright) {free : Vector Bool n} (x : Vector α n)
    {p : Fin n} (frozen : free p = false) (touches : fit.limits.Touches p (fit.parameters p)) :
    (fit.move free x).next p = fit.parameters p + 0 := by
  have here : fit.limits.AdmitsAt p (fit.parameters p + 0) := by
    rw [Limits.admitsAt_congr (Scalar.Ordered.position_add_zero _)]
    exact Limits.touching_admitted upright touches
  have kept := (Limits.exceeded?_eq_none_iff _ _ _).mpr here
  rw [move, Vector.get_ofFn]
  simp only [frozen, Bool.false_eq_true, if_false, kept]

end Fit

end LeastSquares

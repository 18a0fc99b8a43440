import Mathlib.Data.List.Range
import LeastSquares.TrustRegion.Damping

/-!
# The search, step by step

A search is a state that moves on by `next` until a step ends it. `Ended` says everything about how
a search ended: with which of the steps, that none before it ended the search, and what was seen on
the way.
-/

set_option autoImplicit false

namespace LeastSquares.Damping

namespace Problem

variable {α : Type} [Scalar α] {m n : Nat} (Q : Problem α m n)

/-! ## One step -/

def made (S : Search α) : Step α n :=
  let alpha := S.bounds.positive S.alpha
  { x := Q.factor.perm.restore (Q.triangle alpha).solve, alpha }

def length (S : Search α) : α := TrustRegion.scaledNorm Q.scale (Q.made S).x

def excess (S : Search α) : α := Q.length S - Q.delta

def ends (S : Search α) : Bool := Q.accepts S.bounds S.excess (Q.excess S) (Q.length S)

def newton (S : Search α) : α :=
  Q.correction (Q.triangle (Q.made S).alpha) (Q.made S).x (Q.length S) (Q.excess S)

def next (S : Search α) : Search α :=
  let bounds := S.bounds.narrow (Q.made S).alpha (Q.excess S)
  { bounds
    alpha := Scalar.max bounds.lower ((Q.made S).alpha + Q.newton S)
    excess := Q.excess S }

def observed (number : Nat) (S : Search α) : Observation α :=
  .tried number (Q.made S).alpha (Q.length S) Q.delta

theorem searchFrom_of_ends (left number : Nat) {S : Search α} (ends : Q.ends S = true) :
    Q.searchFrom (left + 1) number S = { step := Q.made S, seen := [Q.observed number S] } :=
  if_pos ends

theorem searchFrom_of_continues (left number : Nat) {S : Search α} (continues : Q.ends S = false) :
    Q.searchFrom (left + 1) number S =
      { Q.searchFrom left (number + 1) (Q.next S) with
        seen := Q.observed number S :: (Q.searchFrom left (number + 1) (Q.next S)).seen } :=
  if_neg (ne_true_of_eq_false continues)

/-! ## The run -/

/-- A search from `S` that was allowed `left` further steps and made `k` of them. -/
structure Ended (S : Search α) (left number k : Nat) (found : Found α n) : Prop where
  within : k ≤ left
  step : found.step = Q.made (Q.next^[k] S)
  seen : found.seen = (List.range (k + 1)).map fun i => Q.observed (number + i) (Q.next^[i] S)
  before : ∀ i < k, Q.ends (Q.next^[i] S) = false
  last : k = left ∨ Q.ends (Q.next^[k] S) = true

variable {Q}

theorem Ended.seen_length {S : Search α} {left number k : Nat} {found : Found α n}
    (ended : Q.Ended S left number k found) : found.seen.length = k + 1 := by
  rw [ended.seen, List.length_map, List.length_range]

theorem Ended.at_once {S : Search α} (left number : Nat) (last : 0 = left ∨ Q.ends S = true) :
    Q.Ended S left number 0 { step := Q.made S, seen := [Q.observed number S] } :=
  ⟨Nat.zero_le _, rfl, rfl, fun i inside => absurd inside (Nat.not_lt_zero i), last⟩

theorem Ended.cons {S : Search α} {left number k : Nat} {rest : Found α n}
    (continues : Q.ends S = false) (ended : Q.Ended (Q.next S) left (number + 1) k rest) :
    Q.Ended S (left + 1) number (k + 1) { rest with seen := Q.observed number S :: rest.seen } := by
  refine ⟨Nat.succ_le_succ ended.within, ended.step, ?_, fun i inside => ?_, ?_⟩
  · rw [List.range_succ_eq_map, List.map_cons, List.map_map, ended.seen]
    refine congrArg (_ :: ·) (List.map_congr_left fun i _ => ?_)
    change Q.observed (number + 1 + i) _ = Q.observed (number + (i + 1)) _
    rw [Nat.add_right_comm, Nat.add_assoc]
    rfl
  · cases i with
    | zero => exact continues
    | succ i => exact ended.before i (Nat.lt_of_succ_lt_succ inside)
  · rcases ended.last with all | ends
    · exact Or.inl (congrArg (· + 1) all)
    · exact Or.inr ends

variable (Q)

theorem searchFrom_ended (left number : Nat) (S : Search α) :
    ∃ k, Q.Ended S left number k (Q.searchFrom left number S) := by
  induction left generalizing number S with
  | zero => exact ⟨0, Ended.at_once 0 number (Or.inl rfl)⟩
  | succ left ih =>
      by_cases ends : Q.ends S = true
      · rw [Q.searchFrom_of_ends left number ends]
        exact ⟨0, Ended.at_once _ number (Or.inr ends)⟩
      · have continues := Bool.eq_false_iff.mpr ends
        obtain ⟨k, ended⟩ := ih (number + 1) (Q.next S)
        rw [Q.searchFrom_of_continues left number continues]
        exact ⟨k + 1, ended.cons continues⟩

/-! ## The beginning -/

def begun (fullRank : Bool) (previous : α) (x : Vector α n) : Search α :=
  let length := TrustRegion.scaledNorm Q.scale x
  let excess := length - Q.delta
  let bounds : Bounds α :=
    { lower := Q.lowerBound fullRank x length excess, upper := Q.upperBound Q.gradient }
  { bounds, alpha := bounds.start previous Q.gradient length, excess }

theorem solve_of_fits {fullRank : Bool} {x : Vector α n} (previous : α)
    (step : Q.gaussNewton fullRank = .ok x)
    (fits : TrustRegion.scaledNorm Q.scale x - Q.delta ≤ tolerance * Q.delta) :
    Q.solve fullRank previous = .ok
      { step := { x, alpha := 0 }
        seen := [.gaussNewtonFits (TrustRegion.scaledNorm Q.scale x)] } := by
  simp only [solve, step]
  exact if_pos fits

theorem solve_of_long {fullRank : Bool} {x : Vector α n} (previous : α)
    (step : Q.gaussNewton fullRank = .ok x)
    (long : ¬ TrustRegion.scaledNorm Q.scale x - Q.delta ≤ tolerance * Q.delta) :
    Q.solve fullRank previous =
      .ok (Q.searchFrom furtherSteps 1 (Q.begun fullRank previous x)) := by
  simp only [solve, step]
  exact if_neg long

end Problem

end LeastSquares.Damping

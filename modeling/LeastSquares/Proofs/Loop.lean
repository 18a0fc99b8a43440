import Mathlib.Data.Fin.Basic
import LeastSquares.Vector

/-!
# Loops over positions

A loop over the positions `0, …, n - 1` is a fold, and a loop in the other direction is a fold from
the right. An invariant of a loop is a statement about the state that is indexed by the number of
positions below which the loop has, or has not yet, been.
-/

set_option autoImplicit false

namespace LeastSquares

variable {σ : Type} {n : Nat}

/-- What holds before the first pass and is carried from each pass to the next holds at the end. -/
theorem foldl_carries (step : σ → Fin n → σ) (I : Nat → σ → Prop) (start : σ)
    (first : I 0 start) (next : ∀ (k : Fin n) (s : σ), I k s → I (k + 1) (step s k)) :
    I n (Fin.foldl n step start) := by
  induction n with
  | zero => simpa using first
  | succ n ih =>
      rw [Fin.foldl_succ_last]
      refine next (Fin.last n) _ ?_
      exact ih (fun s k => step s k.castSucc) fun k s holds => next k.castSucc s holds

theorem foldr_carries (step : Fin n → σ → σ) (I : Nat → σ → Prop) (start : σ)
    (last : I n start) (next : ∀ (k : Fin n) (s : σ), I (k + 1) s → I k (step k s)) :
    I 0 (Fin.foldr n step start) := by
  induction n generalizing start with
  | zero => simpa using last
  | succ n ih =>
      rw [Fin.foldr_succ_last]
      refine ih (fun k s => step k.castSucc s) _ ?_ fun k s holds => next k.castSucc s holds
      exact next (Fin.last n) start last

theorem foldl_finRange (step : σ → Fin n → σ) (start : σ) :
    Fin.foldl n step start = (List.finRange n).foldl step start := by
  induction n generalizing start with
  | zero => rfl
  | succ n ih =>
      rw [Fin.foldl_succ, ih, List.finRange_succ, List.foldl_cons, List.foldl_map]

end LeastSquares

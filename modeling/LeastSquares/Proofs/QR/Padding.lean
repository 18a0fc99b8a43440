import LeastSquares.Proofs.Double.Signs
import LeastSquares.Proofs.QR.MinimumNorm

/-!
# Padding with zero columns

A matrix of doubles whose columns from some position on are zero is factored without touching them:
no column has a remaining norm below zero, so the pivots come from the columns in front, and a
finite reflector leaves zeros zero. The factorization then finds no higher rank than there are
columns in front. Only a reflector that is not finite can spread into the padding.
-/

set_option autoImplicit false

namespace LeastSquares

open Double

variable {m n : Nat}

/-! ## Zero columns -/

namespace Reflector

/-- The lead of a reflector is not zero: one was added to the quotient of two doubles with one
sign. -/
theorem lead_ne_zero {norm : Float} (w : Vector Float m) (k : Fin m)
    (high : NotBelow norm.toModel.unpack) (nonzero : ¬ IsZero norm) :
    ¬ IsZero (normalize (signedLike (w k) norm) w k k) := by
  have sign (t : Float.Model.UnpackedFloat.Sign) (known : sign? norm.toModel.unpack = some t) :
      t = .positive := by
    cases t with
    | negative => exact absurd known (high.resolve_left nonzero)
    | positive => rfl
  rw [normalize, Vector.get_ofFn, if_pos rfl]
  refine add_one_ne_zero ?_
  rw [unpack_div]
  refine NotBelow.reread ?_
  rw [signedLike]
  split
  · rename_i below
    refine notBelow_div fun s t left right => ?_
    rw [sign?_of_lt_zero below] at left
    rw [unpack_neg, sign?_reread, sign?_neg, Option.map_eq_some_iff] at right
    obtain ⟨t, known, rfl⟩ := right
    cases left
    rw [sign t known]
    rfl
  · rename_i above
    rcases notBelow_of_not_lt_zero above with ⟨s, zero⟩ | other
    · rw [zero]
      exact notBelow_zero_div fun t same => nonzero ⟨t, same⟩
    · refine notBelow_div fun s t left right => ?_
      rw [sign t right]
      cases s with
      | negative => exact absurd left other
      | positive => rfl

theorem isZero_apply {start : Float} {v w : Vector Float m} {k : Fin m} (first : IsZero start)
    (finite : ∀ i, k ≤ i → (v i).isFinite = true) (lead : ¬ IsZero (v k))
    (zeros : ∀ i, IsZero (w i)) (i : Fin m) : IsZero (apply start v k w i) := by
  have product : IsZero (Scalar.addOver start (fun i => k ≤ i) fun i => v i * w i) := by
    refine isZero_addOver first fun j below => ?_
    exact (zeros j).mul_left (finite j (of_decide_eq_true below))
  have scale := product.div (finite k le_rfl) lead
  rw [apply, Vector.get_ofFn]
  split
  · rename_i below
    exact (zeros i).sub (scale.mul_right (finite i below))
  · exact zeros i

end Reflector

namespace PivotColumn

structure Blank (c : PivotColumn Float m n) : Prop where
  entries : ∀ i, IsZero (c.entries i)
  remaining : IsZero c.remaining
  reference : IsZero c.reference

theorem ofColumn_blank {w : Vector Float m} (zeros : ∀ i, IsZero (w i)) (source : Fin n) :
    (ofColumn w source).Blank where
  entries := zeros
  remaining := isZero_sumSquares fun i _ => zeros i
  reference := isZero_sumSquares fun i _ => zeros i

theorem ofColumn_high (w : Vector Float m) (source : Fin n) :
    ¬ (ofColumn w source).remaining < 0 :=
  not_sumSquares_lt_zero _ w

theorem not_zero_lt {x : Float} (zero : IsZero x) : ¬ 0 < x := by
  intro above
  exact Scalar.Ordered.lt_irrefl (0 : Float) (zero.lt_iff.mp above)

theorem Blank.reflect {c : PivotColumn Float m n} {v : Vector Float m} {k : Fin m} (blank : c.Blank)
    (finite : ∀ i, k ≤ i → (v i).isFinite = true) (lead : ¬ IsZero (v k)) :
    (c.reflect v k).Blank := by
  have zeros := Reflector.isZero_apply isZero_zero finite lead blank.entries
  have same : c.reflect v k = { c with entries := Reflector.apply 0 v k c.entries } :=
    if_neg (not_zero_lt blank.reference)
  rw [same]
  exact ⟨zeros, blank.remaining, blank.reference⟩

theorem reflect_high {c : PivotColumn Float m n} (high : ¬ c.remaining < 0) (v : Vector Float m)
    (k : Fin m) : ¬ (c.reflect v k).remaining < 0 := by
  rw [PivotColumn.reflect, finishRow]
  split
  · dsimp only
    split
    · exact not_sumSquares_lt_zero _ _
    · exact Scalar.Ordered.max_not_lt _ _
  · exact high

end PivotColumn

namespace Reduction

variable {S : Reduction Float m n} {k : Nat}

/-! ## The invariant -/

/-- What every step keeps: the columns from `k` on are blank. -/
structure Padded (S : Reduction Float m n) (k : Nat) : Prop where
  blank : ∀ j : Fin n, k ≤ j.val → (S.cols j).Blank
  high : ∀ j, ¬ (S.cols j).remaining < 0

theorem ofMatrix_padded {A : DenseMatrix Float m n}
    (zeros : ∀ (i : Fin m) (j : Fin n), k ≤ j.val → IsZero (A.get i j)) :
    (ofMatrix A).Padded k where
  blank j padding := by
    have column : (ofMatrix A).cols j = .ofColumn (A.col j) j := Vector.get_ofFn _ _
    rw [column]
    refine PivotColumn.ofColumn_blank (fun i => ?_) j
    rw [DenseMatrix.col, Vector.get_ofFn]
    exact zeros i j padding
  high j := by
    have column : (ofMatrix A).cols j = .ofColumn (A.col j) j := Vector.get_ofFn _ _
    rw [column]
    exact PivotColumn.ofColumn_high _ j

theorem le_pivot {α : Type} [Scalar α] (S : Reduction α m n) (s : Fin n) : s ≤ S.pivot s := by
  refine foldl_carries _ (fun _ best => s ≤ best) s le_rfl fun j best known => ?_
  split
  · rename_i better
    exact better.1.le
  · exact known

theorem Padded.pivot_lt (padded : S.Padded k) {s : Fin n} (front : s.val < k) :
    (S.pivot s).val < k := by
  refine foldl_carries _ (fun _ best => best.val < k) s front fun j best known => ?_
  split
  · rename_i better
    by_contra padding
    exact padded.high best ((padded.blank j (not_lt.mp padding)).remaining.lt_iff.mp better.2)
  · exact known

theorem Padded.bringPivot (padded : S.Padded k) {s : Fin n} (front : s.val < k) :
    (S.bringPivot s).Padded k where
  blank j padding := by
    have pivot := padded.pivot_lt front
    have other : Equiv.swap s (S.pivot s) j = j :=
      Equiv.swap_apply_of_ne_of_ne (fun same => by omega) (fun same => by omega)
    rw [bringPivot_cols, other]
    exact padded.blank j padding
  high j := by
    rw [bringPivot_cols]
    exact padded.high _

theorem exhausted_of_blank {s : Fin (min m n)} (blank : (S.cols (stepCol s)).Blank) :
    S.exhausted s = true := by
  have norm : (Reflector.tailNorm (S.cols (stepCol s)).entries (stepRow s) == 0) = true :=
    (beq_zero_iff _).mpr (isZero_sumSquares fun i _ => blank.entries i).sqrt
  simp only [Reduction.exhausted, Bool.or_eq_true]
  exact .inl norm

theorem Padded.exhausted (padded : S.Padded k) {s : Fin (min m n)} (edge : s.val = k) :
    (S.bringPivot (stepCol s)).exhausted s = true := by
  have behind : k ≤ (S.pivot (stepCol s)).val := edge ▸ S.le_pivot (stepCol s)
  apply exhausted_of_blank
  rw [bringPivot_cols, Equiv.swap_apply_left]
  exact padded.blank _ behind

def storedBy (S : Reduction Float m n) (s : Fin (min m n)) : Vector Float m :=
  ((S.eliminate s).cols (stepCol s)).entries

theorem storedBy_eq (S : Reduction Float m n) (s : Fin (min m n)) : S.storedBy s =
    Reflector.normalize (Reflector.signedLike ((S.cols (stepCol s)).entries (stepRow s))
      (Reflector.tailNorm (S.cols (stepCol s)).entries (stepRow s)))
      (S.cols (stepCol s)).entries (stepRow s) := by
  rw [storedBy, Reduction.eliminate, Vector.get_ofFn, if_pos rfl]

theorem storedBy_lead {s : Fin (min m n)} (usable : S.exhausted s = false) :
    ¬ IsZero (S.storedBy s (stepRow s)) := by
  have nonzero : ¬ IsZero (Reflector.tailNorm (S.cols (stepCol s)).entries (stepRow s)) := by
    rw [← beq_zero_iff]
    simp only [Reduction.exhausted, Bool.or_eq_false_iff] at usable
    exact Bool.eq_false_iff.mp usable.1
  rw [storedBy_eq]
  exact Reflector.lead_ne_zero _ _ (notBelow_sqrt _).reread nonzero

theorem eliminate_later {s : Fin (min m n)} {j : Fin n} (later : stepCol s < j) :
    (S.eliminate s).cols j = (S.cols j).reflect (S.storedBy s) (stepRow s) := by
  rw [storedBy_eq, Reduction.eliminate, Vector.get_ofFn, if_neg later.ne', if_pos later]

theorem Padded.eliminate (padded : S.Padded k) {s : Fin (min m n)} (front : s.val < k)
    (usable : S.exhausted s = false)
    (finite : ∀ i, stepRow s ≤ i → (S.storedBy s i).isFinite = true) :
    (S.eliminate s).Padded k := by
  constructor
  · intro j padding
    rw [eliminate_later (show s.val < j.val by omega)]
    exact (padded.blank j padding).reflect finite (storedBy_lead usable)
  · intro j
    rcases lt_trichotomy j (stepCol s) with before | same | later
    · rw [eliminate_before before]
      exact padded.high j
    · rw [Reduction.eliminate, Vector.get_ofFn, if_pos same]
      exact padded.high _
    · rw [eliminate_later later]
      exact PivotColumn.reflect_high (padded.high j) _ _

/-! ## The loop -/

theorem le_rank_reduceFrom {α : Type} [Scalar α] (t s : Nat) (h : s + t = min m n)
    (S : Reduction α m n) : s ≤ (reduceFrom t s h S).rank := by
  induction t generalizing s S with
  | zero => exact le_rfl
  | succ t ih =>
      rw [reduceFrom]
      split
      · exact le_rfl
      · exact (Nat.le_succ s).trans (ih (s + 1) _ _)

theorem reduceFrom_finished {α : Type} [Scalar α] (t s : Nat) (h : s + t = min m n)
    (S : Reduction α m n) {j : Fin n} (finished : j.val < s) :
    (reduceFrom t s h S).cols j = S.cols j := by
  induction t generalizing s S with
  | zero => rfl
  | succ t ih =>
      let step : Fin (min m n) := ⟨s, by omega⟩
      have brought : (S.bringPivot (stepCol step)).cols j = S.cols j := by
        have pivot : s ≤ (S.pivot (stepCol step)).val := S.le_pivot (stepCol step)
        have first : j ≠ stepCol step := fun same => by
          have value : j.val = s := congrArg Fin.val same
          omega
        rw [bringPivot_cols, Equiv.swap_apply_of_ne_of_ne first fun same => by
          have value := congrArg Fin.val same
          omega]
      rw [reduceFrom]
      split
      · exact brought
      · have before : j < stepCol step := finished
        rw [ih (s + 1) _ _ (by omega), eliminate_before before, brought]

/-- A reduction with finite reflectors stops at the padding. -/
theorem Padded.rank_le (t s : Nat) (h : s + t = min m n) (padded : S.Padded k) (front : s ≤ k)
    (finite : ∀ step : Fin (min m n), step.val < k → step.val < (reduceFrom t s h S).rank →
      ∀ i, stepRow step ≤ i →
        (((reduceFrom t s h S).cols (stepCol step)).entries i).isFinite = true) :
    (reduceFrom t s h S).rank ≤ k := by
  induction t generalizing s S with
  | zero => exact front
  | succ t ih =>
      let step : Fin (min m n) := ⟨s, by omega⟩
      rw [reduceFrom] at finite ⊢
      by_cases exhausted : (S.bringPivot (stepCol step)).exhausted step = true
      · rw [if_pos exhausted]
        exact front
      · rw [if_neg exhausted] at finite ⊢
        have inside : s < k := by
          by_contra edge
          exact exhausted (padded.exhausted (s := step) (show s = k by omega))
        have brought := padded.bringPivot (s := stepCol step) inside
        have stored := reduceFrom_finished t (s + 1) (by omega)
          ((S.bringPivot (stepCol step)).eliminate step) (j := stepCol step) (Nat.lt_succ_self s)
        refine ih (s + 1) (by omega) (brought.eliminate inside (Bool.eq_false_iff.mpr exhausted) ?_)
          inside finite
        intro i below
        have entry := finite step inside (le_rank_reduceFrom t (s + 1) (by omega) _) i below
        rw [stored] at entry
        exact entry

end Reduction

namespace Factorization

/-- If the columns of a matrix from `k` on are zero, its factorization has rank `k` at most, unless
one of the first `k` reflectors is not finite. -/
theorem ofMatrix_rank_le {A : DenseMatrix Float m n} {k : Nat}
    (zeros : ∀ (i : Fin m) (j : Fin n), k ≤ j.val → IsZero (A.get i j))
    (finite : ∀ step : Fin (min m n), step.val < k → step.val < (ofMatrix A).rank →
      ∀ i, stepRow step ≤ i → ((ofMatrix A).packed.get i (stepCol step)).isFinite = true) :
    (ofMatrix A).rank ≤ k := by
  refine (Reduction.ofMatrix_padded zeros).rank_le _ _ _ (Nat.zero_le k) ?_
  intro step front inside i below
  have entry := finite step front inside i below
  rw [ofMatrix_packed] at entry
  exact entry

theorem inner_rank_le_of_finite (F : Factorization Float m n)
    (finite : ∀ step : Fin (min n n), step.val < F.rank → step.val < F.inner.rank →
      ∀ i, stepRow step ≤ i → (F.inner.packed.get i (stepCol step)).isFinite = true) :
    F.inner.rank ≤ F.rank := by
  refine ofMatrix_rank_le (fun i j padding => ?_) finite
  rw [lower, DenseMatrix.get_ofFn, F.r_of_rank_le padding]
  exact isZero_zero

end Factorization

end LeastSquares

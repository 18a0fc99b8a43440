import LeastSquares.Proofs.QR.Reflector
import LeastSquares.QR.Reduction

/-!
# The bookkeeping of a column in exact arithmetic

The remaining norm that a column carries through a reduction is lowered by the entry each step
finishes, clamped at zero and computed afresh now and then. In exact arithmetic neither the clamp
nor the recomputation ever changes its value: it is the squared norm of the rows that are not
finished.
-/

set_option autoImplicit false

namespace LeastSquares

open Matrix

variable {m n : Nat}

/-! ## Rows from a position on -/

/-- The sum of the squares of rows `k` and below. -/
def tailSquare (w : Vector ℝ m) (k : Nat) : ℝ := ∑ i : Fin m, if k ≤ i.val then w i * w i else 0

theorem tailSquare_nonneg (w : Vector ℝ m) (k : Nat) : 0 ≤ tailSquare w k := by
  refine Finset.sum_nonneg fun i _ => ?_
  split
  · exact mul_self_nonneg _
  · exact le_rfl

theorem tailSquare_eq_sum (w : Vector ℝ m) (k : Nat) :
    tailSquare w k = ∑ i : Fin m with k ≤ i.val, w i ^ 2 := by
  rw [tailSquare, Finset.sum_filter]
  simp only [sq]

theorem tailSquare_zero (w : Vector ℝ m) : tailSquare w 0 = w.get ⬝ᵥ w.get := by
  simp [tailSquare, dotProduct]

theorem tailSquare_eq_tail (w : Vector ℝ m) (k : Fin m) :
    tailSquare w k = Reflector.tail w k ⬝ᵥ Reflector.tail w k := by
  rw [Reflector.tail_dot_tail]
  rfl

theorem tailSquare_succ (w : Vector ℝ m) (k : Fin m) :
    tailSquare w k = w k * w k + tailSquare w (k + 1) := by
  have lead : w k * w k = ∑ i : Fin m, if i = k then w i * w i else 0 := by
    rw [Finset.sum_ite_eq' Finset.univ k, if_pos (Finset.mem_univ k)]
  rw [lead, tailSquare, tailSquare, ← Finset.sum_add_distrib]
  refine Finset.sum_congr rfl fun i _ => ?_
  rcases lt_trichotomy i k with above | same | below
  · rw [if_neg (by omega), if_neg above.ne, if_neg (by omega), add_zero]
  · subst same
    rw [if_pos le_rfl, if_pos rfl, if_neg (by omega), add_zero]
  · rw [if_pos (by omega), if_neg below.ne', if_pos (by omega), zero_add]

theorem tailSquare_apply {v : Vector ℝ m} {k : Fin m} (proper : Reflector.Proper v k) {start : ℝ}
    (empty : start = 0) (w : Vector ℝ m) :
    tailSquare (Reflector.apply start v k w) k = tailSquare w k := by
  rw [tailSquare_eq_sum, tailSquare_eq_sum]
  simpa only [← Reflector.apply_real empty] using proper.keeps_rows w.get le_rfl

/-! ## The bookkeeping of one column -/

namespace PivotColumn

/-- The remaining norm of the rows from `k` on is exact, and is zero where the reference is. -/
structure Exact (c : PivotColumn ℝ m n) (k : Nat) : Prop where
  remaining : c.remaining = tailSquare c.entries k
  reference_nonneg : 0 ≤ c.reference
  remaining_of_reference : c.reference = 0 → c.remaining = 0

theorem finishRow_keeps {α : Type} [Scalar α] (c : PivotColumn α m n) (k : Fin m) :
    (c.finishRow k).entries = c.entries ∧ (c.finishRow k).source = c.source ∧
      (c.finishRow k).norm = c.norm := by
  unfold finishRow
  split
  · dsimp only
    split <;> exact ⟨rfl, rfl, rfl⟩
  · exact ⟨rfl, rfl, rfl⟩

@[simp] theorem reflect_entries {α : Type} [Scalar α] (c : PivotColumn α m n) (v : Vector α m)
    (k : Fin m) : (c.reflect v k).entries = Reflector.apply 0 v k c.entries :=
  (finishRow_keeps _ k).1

@[simp] theorem reflect_source {α : Type} [Scalar α] (c : PivotColumn α m n) (v : Vector α m)
    (k : Fin m) : (c.reflect v k).source = c.source :=
  (finishRow_keeps _ k).2.1

@[simp] theorem reflect_norm {α : Type} [Scalar α] (c : PivotColumn α m n) (v : Vector α m)
    (k : Fin m) : (c.reflect v k).norm = c.norm :=
  (finishRow_keeps _ k).2.2

theorem sumSquares_below (w : Vector ℝ m) (k : Fin m) :
    Scalar.sumSquares (fun i => decide (k < i)) w = tailSquare w (k + 1) := by
  rw [Scalar.sumSquares_real, tailSquare]
  refine Finset.sum_congr rfl fun i _ => ?_
  simp only [decide_eq_true_eq, Fin.lt_def, Nat.lt_iff_add_one_le]

theorem Exact.lowered {c : PivotColumn ℝ m n} {k : Fin m} (exact : c.Exact k) :
    c.remaining - c.entries k * c.entries k = tailSquare c.entries (k + 1) := by
  rw [exact.remaining, tailSquare_succ, add_sub_cancel_left]

/-- Finishing a row moves an exact remaining norm one row down: neither the clamp at zero nor the
recomputation changes its value. -/
theorem Exact.finishRow {c : PivotColumn ℝ m n} {k : Fin m} (exact : c.Exact k) :
    (c.finishRow k).Exact (k + 1) := by
  have rest := tailSquare_nonneg c.entries (k + 1)
  have clamped : Scalar.max (c.remaining - c.entries k * c.entries k) 0 =
      tailSquare c.entries (k + 1) := by
    rw [Scalar.max_real, exact.lowered, max_eq_left rest]
  unfold PivotColumn.finishRow
  split
  · rename_i positive
    dsimp only
    rw [clamped, sumSquares_below]
    split
    · exact ⟨rfl, rest, id⟩
    · exact ⟨rfl, exact.reference_nonneg, fun zero => absurd zero positive.ne'⟩
  · rename_i notPositive
    have zero : c.reference = 0 := le_antisymm (not_lt.mp notPositive) exact.reference_nonneg
    have none := exact.remaining_of_reference zero
    have square := mul_self_nonneg (c.entries k)
    refine ⟨?_, exact.reference_nonneg, exact.remaining_of_reference⟩
    rw [none]
    linarith [exact.lowered]

theorem Exact.apply {c : PivotColumn ℝ m n} {v : Vector ℝ m} {k : Fin m} (exact : c.Exact k)
    (proper : Reflector.Proper v k) :
    Exact { c with entries := Reflector.apply 0 v k c.entries } k :=
  ⟨by rw [tailSquare_apply proper rfl, exact.remaining], exact.reference_nonneg,
    exact.remaining_of_reference⟩

theorem Exact.reflect {c : PivotColumn ℝ m n} {v : Vector ℝ m} {k : Fin m} (exact : c.Exact k)
    (proper : Reflector.Proper v k) : (c.reflect v k).Exact (k + 1) :=
  (exact.apply proper).finishRow

theorem sumSquares_all (w : Vector ℝ m) :
    Scalar.sumSquares (fun _ => true) w = tailSquare w 0 := by
  rw [Scalar.sumSquares_real, tailSquare]
  simp

theorem ofColumn_exact (w : Vector ℝ m) (source : Fin n) : (ofColumn w source).Exact 0 :=
  ⟨sumSquares_all w, Scalar.sumSquares_nonneg (fun _ => true) w, id⟩

theorem ofColumn_norm (w : Vector ℝ m) (source : Fin n) :
    (ofColumn w source).norm = euclid w.get := by
  rw [euclid, ← tailSquare_zero, ← sumSquares_all]
  rfl

end PivotColumn

end LeastSquares

import LeastSquares.Proofs.QR.Factorization
import LeastSquares.QR.Triangular

/-!
# Triangular solves in exact arithmetic

Substitution solves the rows it is asked for, provided that none of their diagonal entries is zero,
and leaves zeros in all other places. Both directions are one argument: a pass writes an entry that
was zero until then, and the rows that are already solved do not read it.
-/

set_option autoImplicit false

namespace LeastSquares

open Matrix

variable {m n : Nat}

def Upper (U : Fin n → Fin n → ℝ) : Prop := ∀ i j, j < i → U i j = 0

theorem sum_mul_set {y : Vector ℝ n} {k : Fin n} (fresh : y k = 0) (f : Fin n → ℝ) (x : ℝ) :
    ∑ i, f i * y.set k x k.isLt i = f k * x + ∑ i, f i * y i := by
  have term (i : Fin n) :
      f i * y.set k x k.isLt i = (if i = k then f k * x else 0) + f i * y i := by
    rw [Vector.get_set]
    by_cases same : k = i
    · subst same
      rw [if_pos rfl, if_pos rfl, fresh, mul_zero, add_zero]
    · rw [if_neg same, if_neg (Ne.symm same), zero_add]
  rw [Finset.sum_congr rfl fun i _ => term i, Finset.sum_add_distrib,
    Finset.sum_ite_eq' Finset.univ k, if_pos (Finset.mem_univ k)]

theorem subOver_of_zero {start : ℝ} {p : Fin n → Bool} {f : Fin n → ℝ}
    (zero : ∀ i, p i = false → f i = 0) : Scalar.subOver start p f = start - ∑ i, f i := by
  rw [Scalar.subOver_real]
  refine congrArg (start - ·) (Finset.sum_congr rfl fun i _ => ?_)
  by_cases counted : p i = true
  · rw [if_pos counted]
  · rw [if_neg counted, zero i (Bool.eq_false_iff.mpr counted)]

section Substitution

variable {bound : Nat} {U : Fin n → Fin n → ℝ} (rhs : Vector ℝ n)

/-- A pass solves row `k` by writing entry `k`, which the rows solved before do not read. -/
theorem solve_row (V : Fin n → Fin n → ℝ) (solved : Fin n → Prop) {y : Vector ℝ n} {k : Fin n}
    (rows : ∀ j, solved j → ∑ i, V j i * y i = rhs j) (unread : ∀ j, solved j → V j k = 0)
    (fresh : y k = 0) (pivot : V k k ≠ 0) {j : Fin n} (now : j = k ∨ solved j) :
    ∑ i, V j i * y.set k ((rhs k - ∑ i, V k i * y i) / V k k) k.isLt i = rhs j := by
  rw [sum_mul_set fresh]
  rcases now with same | before
  · rw [same, mul_div_cancel₀ _ pivot, sub_add_cancel]
  · rw [unread j before, zero_mul, zero_add]
    exact rows j before

theorem backSubstitute_spec (upper : Upper U) (pivots : ∀ j : Fin n, j.val < bound → U j j ≠ 0) :
    (∀ j : Fin n, bound ≤ j.val → backSubstitute bound U rhs j = 0) ∧
      ∀ j : Fin n, j.val < bound → ∑ i, U j i * backSubstitute bound U rhs i = rhs j := by
  let solved (t : Nat) (y : Vector ℝ n) : Prop :=
    (∀ j : Fin n, j.val < t ∨ bound ≤ j.val → y j = 0) ∧
      ∀ j : Fin n, t ≤ j.val → j.val < bound → ∑ i, U j i * y i = rhs j
  have all : solved 0 (backSubstitute bound U rhs) := by
    refine foldr_carries _ solved _ ⟨fun j _ => Vector.get_replicate _ _, fun j late _ =>
      absurd j.isLt (not_lt.mpr late)⟩ fun k y holds => ?_
    obtain ⟨untouched, rows⟩ := holds
    split
    · rename_i inside
      have fresh : y k = 0 := untouched k (Or.inl (Nat.lt_succ_self k))
      have rest : Scalar.subOver (rhs k) (fun i => k < i && decide (i.val < bound))
          (fun i => U k i * y i) = rhs k - ∑ i, U k i * y i := by
        refine subOver_of_zero fun i skipped => ?_
        rcases lt_trichotomy i k with before | same | behind
        · rw [upper k i before, zero_mul]
        · rw [same, fresh, mul_zero]
        · have outside : bound ≤ i.val := by simpa [behind] using skipped
          rw [untouched i (Or.inr outside), mul_zero]
      refine ⟨fun j early => ?_, fun j late below => ?_⟩
      · have other : k ≠ j := by
          rintro rfl
          omega
        rw [Vector.get_set, if_neg other]
        exact untouched j (by omega)
      · rw [rest]
        exact solve_row rhs U (fun j => k < j ∧ j.val < bound)
          (fun j before => rows j before.1 before.2) (fun j before => upper j k before.1) fresh
          (pivots k inside) (by omega)
    · rename_i outside
      refine ⟨fun j early => untouched j (by omega), fun j late below => rows j ?_ below⟩
      by_contra notLate
      exact outside (by omega)
  exact ⟨fun j outside => all.1 j (Or.inr outside), fun j inside => all.2 j (Nat.zero_le _) inside⟩

theorem forwardSubstitute_spec (upper : Upper U)
    (pivots : ∀ j : Fin n, j.val < bound → U j j ≠ 0) :
    (∀ j : Fin n, bound ≤ j.val → forwardSubstitute bound U rhs j = 0) ∧
      ∀ j : Fin n, j.val < bound → ∑ i, U i j * forwardSubstitute bound U rhs i = rhs j := by
  let solved (t : Nat) (y : Vector ℝ n) : Prop :=
    (∀ j : Fin n, t ≤ j.val ∨ bound ≤ j.val → y j = 0) ∧
      ∀ j : Fin n, j.val < t → j.val < bound → ∑ i, U i j * y i = rhs j
  have all : solved n (forwardSubstitute bound U rhs) := by
    refine foldl_carries _ solved _ ⟨fun j _ => Vector.get_replicate _ _, fun j early _ =>
      absurd early (Nat.not_lt_zero _)⟩ fun k y holds => ?_
    obtain ⟨untouched, rows⟩ := holds
    split
    · rename_i inside
      have fresh : y k = 0 := untouched k (Or.inl le_rfl)
      have rest : Scalar.subOver (rhs k) (fun i => i < k) (fun i => U i k * y i) =
          rhs k - ∑ i, U i k * y i := by
        refine subOver_of_zero fun i skipped => ?_
        have late : k ≤ i := by simpa using skipped
        rw [untouched i (Or.inl late), mul_zero]
      refine ⟨fun j late => ?_, fun j early below => ?_⟩
      · have other : k ≠ j := by
          rintro rfl
          omega
        rw [Vector.get_set, if_neg other]
        exact untouched j (by omega)
      · rw [rest]
        exact solve_row rhs (fun j i => U i j) (fun j => j < k ∧ j.val < bound)
          (fun j before => rows j before.1 before.2) (fun j before => upper k j before.1) fresh
          (pivots k inside) (by omega)
    · rename_i outside
      refine ⟨fun j late => untouched j (by omega), fun j early below => rows j ?_ below⟩
      by_contra notEarly
      exact outside (by omega)
  exact ⟨fun j outside => all.1 j (Or.inr outside), fun j inside => all.2 j j.isLt inside⟩

end Substitution

/-! ## The caller's column order -/

namespace Permutation

variable {α : Type} [Zero α]

theorem restore_get {P : Permutation n} (bijective : Function.Bijective P.get) (v : Vector α n)
    (k : Fin n) : P.restore v (P.get k) = v k := by
  let placed (t : Nat) (out : Vector α n) : Prop := ∀ j : Fin n, j.val < t → out (P.get j) = v j
  have all : placed n (P.restore v) := by
    refine foldl_carries _ placed _ (fun j early => absurd early (Nat.not_lt_zero _))
      fun k out holds j early => ?_
    rw [Vector.get_set]
    by_cases same : k = j
    · rw [same, if_pos rfl]
    · rw [if_neg fun index => same (bijective.injective index)]
      exact holds j (by omega)
  exact all k k.isLt

end Permutation

end LeastSquares

import Mathlib.Algebra.BigOperators.Fin
import Mathlib.Analysis.Real.Sqrt
import LeastSquares.Proofs.Loop
import LeastSquares.Scalar

/-!
# Exact arithmetic

With the real numbers for scalars every definition of the library is read in exact arithmetic:
nothing is rounded, every number equals itself, and there is neither a least nor a greatest one. The
lemmas below say what the primitive operations come to in this reading.
-/

set_option autoImplicit false

namespace LeastSquares

noncomputable instance Scalar.real : Scalar ℝ where
  sqrt := Real.sqrt
  abs x := |x|
  epsilon := (2 ^ 52)⁻¹
  minPositive := (2 ^ 1022)⁻¹
  least? := none
  greatest? := none
  decLt := inferInstance
  decLe := inferInstance
  beq x y := decide (x = y)

namespace Scalar

variable {n : Nat}

@[simp] theorem sqrt_real (x : ℝ) : Scalar.sqrt x = √x := rfl

@[simp] theorem abs_real (x : ℝ) : Scalar.abs x = |x| := rfl

@[simp] theorem least?_real : (Scalar.least? : Option ℝ) = none := rfl

@[simp] theorem greatest?_real : (Scalar.greatest? : Option ℝ) = none := rfl

theorem epsilon_pos : 0 < (Scalar.epsilon : ℝ) := by
  change (0 : ℝ) < (2 ^ 52)⁻¹
  positivity

theorem minPositive_pos : 0 < (Scalar.minPositive : ℝ) := by
  change (0 : ℝ) < (2 ^ 1022)⁻¹
  positivity

@[simp] theorem isNaN_real (x : ℝ) : isNaN x = false := by
  simp [isNaN]

@[simp] theorem max_real (x y : ℝ) : Scalar.max x y = Max.max x y := by
  simp only [Scalar.max, beq_self_eq_true, if_true]
  split
  · rename_i less
    exact (max_eq_right less.le).symm
  · rename_i notLess
    exact (max_eq_left (not_lt.mp notLess)).symm

@[simp] theorem min_real (x y : ℝ) : Scalar.min x y = Min.min x y := by
  simp only [Scalar.min, beq_self_eq_true, if_true]
  split
  · rename_i less
    exact (min_eq_right less.le).symm
  · rename_i notLess
    exact (min_eq_left (not_lt.mp notLess)).symm

/-! ## Sums -/

theorem addOver_real (start : ℝ) (p : Fin n → Bool) (f : Fin n → ℝ) :
    addOver start p f = start + ∑ i, if p i then f i else 0 := by
  unfold addOver
  induction n with
  | zero => simp
  | succ n ih =>
      rw [Fin.foldl_succ_last, ih (fun i => p i.castSucc) fun i => f i.castSucc,
        Fin.sum_univ_castSucc]
      split
      · ring
      · ring

theorem subOver_real (start : ℝ) (p : Fin n → Bool) (f : Fin n → ℝ) :
    subOver start p f = start - ∑ i, if p i then f i else 0 := by
  unfold subOver
  induction n with
  | zero => simp
  | succ n ih =>
      rw [Fin.foldl_succ_last, ih (fun i => p i.castSucc) fun i => f i.castSucc,
        Fin.sum_univ_castSucc]
      split
      · ring
      · ring

theorem sumSquares_real (p : Fin n → Bool) (v : Vector ℝ n) :
    sumSquares p v = ∑ i, if p i then v i * v i else 0 := by
  simp [sumSquares, addOver_real]

theorem sumSquares_nonneg (p : Fin n → Bool) (v : Vector ℝ n) : 0 ≤ sumSquares p v := by
  rw [sumSquares_real]
  refine Finset.sum_nonneg fun i _ => ?_
  split
  · exact mul_self_nonneg _
  · exact le_rfl

theorem norm_real (p : Fin n → Bool) (v : Vector ℝ n) : Scalar.norm p v = √(sumSquares p v) := rfl

theorem norm_nonneg (p : Fin n → Bool) (v : Vector ℝ n) : 0 ≤ Scalar.norm p v :=
  Real.sqrt_nonneg _

theorem norm_mul_self (p : Fin n → Bool) (v : Vector ℝ n) :
    Scalar.norm p v * Scalar.norm p v = sumSquares p v :=
  Real.mul_self_sqrt (sumSquares_nonneg p v)

theorem norm_eq_zero_iff (p : Fin n → Bool) (v : Vector ℝ n) :
    Scalar.norm p v = 0 ↔ ∀ i, p i = true → v i = 0 := by
  have square (i : Fin n) : 0 ≤ if p i then v i * v i else 0 := by
    split
    · exact mul_self_nonneg _
    · exact le_rfl
  rw [norm_real, Real.sqrt_eq_zero (sumSquares_nonneg p v), sumSquares_real,
    Finset.sum_eq_zero_iff_of_nonneg fun i _ => square i]
  constructor
  · intro zeros i counted
    have zero := zeros i (Finset.mem_univ i)
    rw [if_pos counted] at zero
    exact mul_self_eq_zero.mp zero
  · intro zeros i _
    split
    · rename_i counted
      rw [zeros i counted, mul_zero]
    · rfl

end Scalar

end LeastSquares

import LeastSquares.Proofs.Double.Exact

/-!
# The mean of copies of a double

The mean of copies of a number is the number, but in doubles each sum is rounded, and so is the
quotient. Of a double with a short mantissa nothing is left when the mean of copies of it is taken
off; of others a rounding error can be left: the mean of three tenths is above a tenth.
-/

set_option autoImplicit false

namespace LeastSquares.Double

open Float.Model Float.Model.UnpackedFloat

/-- `start + x + x + …`, with so many copies of `x`. -/
def addCopies (start x : Float) (count : Nat) : Float := (· + x)^[count] start

/-- The mean of so many copies of a double, as it is rounded. -/
def meanOfCopies (c : Float) (count : Nat) : Float := addCopies (-0) c count / (count : Float)

/-- The square of what is left of a double when the mean of so many copies of it is taken off. -/
def leftover (c : Float) (count : Nat) : Float :=
  (c - meanOfCopies c count) * (c - meanOfCopies c count)

/-- The double is zero, or the sum of so many copies of its mantissa has at most 53 bits. -/
def Short (c : Float) (count : Nat) : Prop :=
  IsZero c ∨ ∃ sign a g, Stands c sign a g ∧ Fits (a * count) g

/-! ## Sums of copies -/

theorem addCopies_succ (start x : Float) (count : Nat) :
    addCopies start x (count + 1) = addCopies start x count + x :=
  Function.iterate_succ_apply' _ _ _

theorem addOver_copies {n : Nat} (start : Float) {p : Fin n → Bool} {f : Fin n → Float} {x : Float}
    (constant : ∀ i, p i = true → f i = x) :
    Scalar.addOver start p f = addCopies start x ((List.finRange n).countP p) := by
  rw [Scalar.addOver, Fin.foldl_eq_foldl_finRange]
  generalize List.finRange n = indices
  induction indices generalizing start with
  | nil => rfl
  | cons i rest ih =>
      rw [List.foldl_cons, ih]
      by_cases counted : p i = true
      · rw [if_pos counted, constant i counted, List.countP_cons_of_pos counted, addCopies,
          addCopies, Function.iterate_succ_apply]
      · rw [if_neg counted, List.countP_cons_of_neg counted]

theorem addCopies_pos {x : Float} (positive : 0 < x) (count : Nat) :
    0 < addCopies 0 x (count + 1) := by
  induction count with
  | zero => exact isZero_zero.add_pos positive
  | succ count ih =>
      rw [addCopies_succ]
      exact Double.add_pos ih positive

theorem vacant_addCopies {start x : Float} (first : Vacant start) (vacant : Vacant x)
    (count : Nat) : Vacant (addCopies start x count) := by
  induction count with
  | zero => exact first
  | succ count ih =>
      rw [addCopies_succ]
      exact ih.add vacant

theorem stands_addCopies {c : Float} {sign : Sign} {a : Nat} {g : ℤ} (value : Stands c sign a g)
    {count : Nat} (fits : Fits (a * (count + 1)) g) :
    Stands (addCopies (-0) c (count + 1)) sign (a * (count + 1)) g := by
  induction count with
  | zero =>
      have zero : IsZero (-0) := ⟨.negative, rfl⟩
      have same := zero.unpack_add value.not_isZero
      obtain ⟨shift, some, read⟩ := value
      rw [Nat.mul_one]
      exact ⟨shift, some, same.trans read⟩
  | succ count ih =>
      have before : a * (count + 1) ≤ a * (count + 1 + 1) := Nat.mul_le_mul_left a (Nat.le_succ _)
      have sum := ih (fits.of_le (Nat.mul_pos value.positive (Nat.succ_pos count)) before)
      rw [addCopies_succ]
      exact sum.add value fits

theorem addCopies_mul_self_pos_iff (x : Float) (count : Nat) :
    0 < addCopies 0 (x * x) count ↔ 0 < count ∧ 0 < x * x := by
  constructor
  · intro positive
    refine ⟨Nat.pos_of_ne_zero fun none => ?_, ?_⟩
    · rw [none] at positive
      exact vacant_zero.not_pos positive
    · by_contra small
      have high : NotBelow (x * x).toModel.unpack := by
        rw [unpack_mul]
        exact (notBelow_mul_self _).reread
      exact (vacant_addCopies vacant_zero (high.vacant small) count).not_pos positive
  · rintro ⟨some, positive⟩
    obtain ⟨count, rfl⟩ := Nat.exists_eq_succ_of_ne_zero some.ne'
    exact addCopies_pos positive count

/-! ## What is left -/

variable {c : Float} {count : Nat}

theorem leftover_of_vacant (vacant : Vacant (c - meanOfCopies c count)) : ¬ 0 < leftover c count :=
  (vacant.mul_left _).not_pos

theorem leftover_none (c : Float) : ¬ 0 < leftover c 0 := by
  have missing : Scalar.isNaN (meanOfCopies c 0) = true := by
    rw [meanOfCopies, addCopies, Function.iterate_zero_apply]
    decide +kernel
  exact leftover_of_vacant (.inr (isNaN_sub_right missing))

theorem leftover_of_short (short : Short c count) : ¬ 0 < leftover c count := by
  rcases short with zero | ⟨sign, a, g, value, fits⟩
  · have vacant : Vacant (addCopies (-0) c count) :=
      vacant_addCopies (.inl ⟨.negative, rfl⟩) (.inl zero) count
    exact leftover_of_vacant (Vacant.sub (.inl zero) (vacant.div _))
  · cases count with
    | zero => exact leftover_none c
    | succ count =>
        have positive := value.positive
        have more : a * 1 ≤ a * (count + 1) := Nat.mul_le_mul_left a (Nat.le_add_left 1 count)
        have times : 1 * (count + 1) ≤ a * (count + 1) := Nat.mul_le_mul_right _ positive
        rw [Nat.mul_one] at more
        rw [Nat.one_mul] at times
        have number := Stands.natCast (Nat.succ_pos count) (times.trans_lt fits.short)
        have mean := (stands_addCopies value fits).div number (fits.of_le positive more)
          (Nat.succ_pos count)
        exact leftover_of_vacant (.inl (value.sub mean))

/-- Nothing is left of two tenths, but of three there is. -/
example : ¬ 0 < leftover 0.1 2 ∧ 0 < leftover 0.1 3 := by decide +kernel

end LeastSquares.Double

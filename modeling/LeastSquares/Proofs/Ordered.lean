import LeastSquares.Proofs.Exact

/-!
# Ordered scalars

Scalars compare like numbers, as far as they are numbers: each has a position in a linear order, or
none, and a comparison holds just if both sides have positions and these compare so. The reals are
such scalars, and so are doubles. A `NaN` has no position; the two zeros share one.
-/

set_option autoImplicit false

namespace LeastSquares.Scalar

class Ordered (α : Type) [Scalar α] where
  Position : Type
  linear : LinearOrder Position
  position : α → Option Position
  lt_iff (x y : α) : x < y ↔ ∃ a b, position x = some a ∧ position y = some b ∧ a < b
  le_iff (x y : α) : x ≤ y ↔ ∃ a b, position x = some a ∧ position y = some b ∧ a ≤ b
  beq_iff (x y : α) : (x == y) = true ↔ ∃ a, position x = some a ∧ position y = some a
  position_add_zero (x : α) : position (x + 0) = position x
  least_le_greatest {least greatest : α} :
    Scalar.least? = some least → Scalar.greatest? = some greatest → least ≤ greatest
  /-- Where there is no least or no greatest scalar, all of them are numbers. -/
  position_of_endless (x : α) :
    (Scalar.least? : Option α) = none ∨ (Scalar.greatest? : Option α) = none →
      (position x).isSome = true

namespace Ordered

noncomputable instance real : Ordered ℝ where
  Position := ℝ
  linear := inferInstance
  position := some
  lt_iff x y := by simp
  le_iff x y := by simp
  beq_iff x y := by
    rw [beq_iff_eq]
    exact ⟨fun same => ⟨x, rfl, congrArg some same.symm⟩, fun ⟨a, left, right⟩ =>
      Option.some.inj (left.trans right.symm)⟩
  position_add_zero x := by rw [add_zero]
  least_le_greatest least := by cases least
  position_of_endless _ _ := rfl

variable {α : Type} [Scalar α] [Ordered α] {x y z : α}

instance linearOrder : LinearOrder (Position α) := linear

theorem lt_irrefl (x : α) : ¬ x < x := by
  rw [lt_iff]
  rintro ⟨a, b, left, right, less⟩
  cases left.symm.trans right
  exact less.false

theorem lt_trans (first : x < y) (second : y < z) : x < z := by
  obtain ⟨a, b, left, middle, less⟩ := (lt_iff x y).mp first
  obtain ⟨b', c, middle', right, more⟩ := (lt_iff y z).mp second
  cases middle.symm.trans middle'
  exact (lt_iff x z).mpr ⟨a, c, left, right, less.trans more⟩

theorem not_lt_of_le (atMost : x ≤ y) : ¬ y < x := by
  obtain ⟨a, b, left, right, le⟩ := (le_iff x y).mp atMost
  rw [lt_iff]
  rintro ⟨b', a', right', left', less⟩
  cases left.symm.trans left'
  cases right.symm.trans right'
  exact le.not_gt less

theorem max_not_lt (x y : α) : ¬ Scalar.max x y < y := by
  unfold Scalar.max
  split
  · split
    · exact lt_irrefl y
    · assumption
  · exact lt_irrefl y

theorem not_lt_min (x y : α) : ¬ y < Scalar.min x y := by
  unfold Scalar.min
  split
  · split
    · exact lt_irrefl y
    · assumption
  · exact lt_irrefl y

omit [Ordered α] in
theorem min_choice (x y : α) : Scalar.min x y = x ∨ Scalar.min x y = y := by
  unfold Scalar.min
  split
  · split
    · exact .inr rfl
    · exact .inl rfl
  · exact .inr rfl

/-! ## Numbers -/

theorem isNaN_eq_false_iff (x : α) : isNaN x = false ↔ (position x).isSome = true := by
  rw [isNaN, Bool.not_eq_false', beq_iff, Option.isSome_iff_exists]
  exact exists_congr fun _ => and_self_iff

theorem number_of_le (atMost : x ≤ y) : isNaN x = false ∧ isNaN y = false := by
  obtain ⟨a, b, left, right, _⟩ := (le_iff x y).mp atMost
  rw [isNaN_eq_false_iff, isNaN_eq_false_iff, left, right]
  exact ⟨rfl, rfl⟩

theorem le_of_not_lt (left : isNaN x = false) (right : isNaN y = false) (notLess : ¬ y < x) :
    x ≤ y := by
  rw [isNaN_eq_false_iff, Option.isSome_iff_exists] at left right
  obtain ⟨a, left⟩ := left
  obtain ⟨b, right⟩ := right
  refine (le_iff x y).mpr ⟨a, b, left, right, not_lt.mp fun less => notLess ?_⟩
  exact (lt_iff y x).mpr ⟨b, a, right, left, less⟩

theorem le_of_lt (less : x < y) : x ≤ y := by
  obtain ⟨a, b, left, right, below⟩ := (lt_iff x y).mp less
  exact (le_iff x y).mpr ⟨a, b, left, right, below.le⟩

theorem le_trans (first : x ≤ y) (second : y ≤ z) : x ≤ z := by
  obtain ⟨a, b, left, middle, below⟩ := (le_iff x y).mp first
  obtain ⟨b', c, middle', right, above⟩ := (le_iff y z).mp second
  cases middle.symm.trans middle'
  exact (le_iff x z).mpr ⟨a, c, left, right, below.trans above⟩

theorem lt_of_lt_of_le (first : x < y) (second : y ≤ z) : x < z := by
  obtain ⟨a, b, left, middle, below⟩ := (lt_iff x y).mp first
  obtain ⟨b', c, middle', right, above⟩ := (le_iff y z).mp second
  cases middle.symm.trans middle'
  exact (lt_iff x z).mpr ⟨a, c, left, right, below.trans_le above⟩

omit [Ordered α] in
theorem max_choice (x y : α) : Scalar.max x y = x ∧ isNaN x = false ∨ Scalar.max x y = y := by
  unfold Scalar.max
  split
  · rename_i number
    split
    · exact .inr rfl
    · exact .inl ⟨rfl, by simpa [isNaN] using number⟩
  · exact .inr rfl

theorem max_of_le (atMost : y ≤ x) : Scalar.max x y = x := by
  have number : (x == x) = true := by simpa [isNaN] using (number_of_le atMost).2
  rw [Scalar.max, if_pos number, if_neg (not_lt_of_le atMost)]

theorem min_of_le (atMost : x ≤ y) : Scalar.min x y = x := by
  have number : (x == x) = true := by simpa [isNaN] using (number_of_le atMost).1
  rw [Scalar.min, if_pos number, if_neg (not_lt_of_le atMost)]

theorem min_le_left (number : isNaN x = false) (y : α) : Scalar.min x y ≤ x := by
  have equal : (x == x) = true := by simpa [isNaN] using number
  rw [Scalar.min, if_pos equal]
  split
  · exact le_of_lt ‹_›
  · exact le_of_not_lt number number (lt_irrefl x)

/-! ## Equal scalars -/

theorem position_of_beq (same : (x == y) = true) : position x = position y := by
  obtain ⟨a, left, right⟩ := (beq_iff x y).mp same
  exact left.trans right.symm

theorem lt_congr_left (same : position x = position y) : x < z ↔ y < z := by
  rw [lt_iff, lt_iff, same]

theorem lt_congr_right (same : position x = position y) : z < x ↔ z < y := by
  rw [lt_iff, lt_iff, same]

end Ordered

end LeastSquares.Scalar

import Mathlib
import LeastSquares.Proofs.Ordered

/-!
# Doubles

A double is a word of 64 bits, and every operation unpacks it into a sign, an exponent and a
mantissa, or an infinity, a zero or `NaN`. Nothing is lost in between: packing an unpacked double
gives it back. Doubles compare by sign, then by exponent, then by mantissa, so they are ordered
scalars; and adding zero moves none of them.
-/

set_option autoImplicit false

namespace LeastSquares.Double

open Float.Model Float.Model.UnpackedFloat

/-! ## The order -/

/-- Where an unpacked double stands among the numbers. -/
def position : UnpackedFloat → Option (ℤ ×ₗ ℤ ×ₗ ℤ)
  | .notANumber => none
  | .infinity .negative => some (toLex (-2, toLex (0, 0)))
  | .finite .negative mantissa exponent _ => some (toLex (-1, toLex (-exponent, -(mantissa : ℤ))))
  | .zero _ => some (toLex (0, toLex (0, 0)))
  | .finite .positive mantissa exponent _ => some (toLex (1, toLex (exponent, (mantissa : ℤ))))
  | .infinity .positive => some (toLex (2, toLex (0, 0)))

theorem compare_lex (a b : ℤ ×ₗ ℤ ×ₗ ℤ) : compare a b =
    (compare (ofLex a).1 (ofLex b).1).then
      ((compare (ofLex (ofLex a).2).1 (ofLex (ofLex b).2).1).then
        (compare (ofLex (ofLex a).2).2 (ofLex (ofLex b).2).2)) := by
  simp only [Prod.Lex.compare_def, compareLex, compareOn]

theorem compare_natCast (a b : ℕ) : compare (a : ℤ) b = compare a b := by
  rcases lt_trichotomy a b with less | rfl | greater
  · rw [compare_lt_iff_lt.mpr less, compare_lt_iff_lt.mpr (Int.ofNat_lt.mpr less)]
  · rw [compare_eq_iff_eq.mpr rfl, compare_eq_iff_eq.mpr rfl]
  · rw [compare_gt_iff_gt.mpr greater, compare_gt_iff_gt.mpr (Int.ofNat_lt.mpr greater)]

theorem compare_neg_neg (a b : ℤ) : compare (-a) (-b) = (compare a b).swap := by
  rw [← Std.OrientedOrd.eq_swap]
  rcases lt_trichotomy a b with less | rfl | greater
  · rw [compare_gt_iff_gt.mpr less, compare_gt_iff_gt.mpr (neg_lt_neg less)]
  · rw [compare_eq_iff_eq.mpr rfl, compare_eq_iff_eq.mpr rfl]
  · rw [compare_lt_iff_lt.mpr greater, compare_lt_iff_lt.mpr (neg_lt_neg greater)]

theorem compare_position (x y : UnpackedFloat) :
    x.compare y = (position x).bind fun a => (position y).map fun b => compare a b := by
  cases x with
  | notANumber => rfl
  | infinity s =>
      cases y with
      | notANumber => cases s <;> rfl
      | infinity t => cases s <;> cases t <;> rfl
      | zero t => cases s <;> rfl
      | finite t _ _ _ => cases s <;> cases t <;> rfl
  | zero s =>
      cases y with
      | notANumber => rfl
      | infinity t => cases t <;> rfl
      | zero t => rfl
      | finite t _ _ _ => cases t <;> rfl
  | finite s _ _ _ =>
      cases y with
      | notANumber => cases s <;> rfl
      | infinity t => cases s <;> cases t <;> rfl
      | zero t => cases s <;> rfl
      | finite t _ _ _ =>
          cases s <;> cases t
          case negative.negative =>
            simp only [UnpackedFloat.compare, position, Option.bind_some, Option.map_some,
              compare_lex, ofLex_toLex, compare_neg_neg, compare_natCast, Ordering.swap_then]
            rfl
          case positive.positive =>
            simp only [UnpackedFloat.compare, position, Option.bind_some, Option.map_some,
              compare_lex, ofLex_toLex, compare_natCast]
            rfl
          all_goals rfl

theorem compare_eq_some_iff (x y : UnpackedFloat) (order : Ordering) : x.compare y = some order ↔
    ∃ a b, position x = some a ∧ position y = some b ∧ compare a b = order := by
  simp only [compare_position, Option.bind_eq_some_iff, Option.map_eq_some_iff]
  constructor
  · rintro ⟨a, left, b, right, same⟩
    exact ⟨a, b, left, right, same⟩
  · rintro ⟨a, b, left, right, same⟩
    exact ⟨a, left, b, right, same⟩

theorem lt_iff (x y : Float) : x < y ↔ ∃ a b, position x.toModel.unpack = some a ∧
    position y.toModel.unpack = some b ∧ a < b := by
  change decide ((x.toModel.unpack.compare y.toModel.unpack == some .lt) = true) = true ↔ _
  simp only [decide_eq_true_eq, beq_iff_eq, compare_eq_some_iff, compare_lt_iff_lt]

theorem beq_iff (x y : Float) : (x == y) = true ↔
    ∃ a, position x.toModel.unpack = some a ∧ position y.toModel.unpack = some a := by
  change (x.toModel.unpack.compare y.toModel.unpack == some .eq) = true ↔ _
  simp only [beq_iff_eq, compare_eq_some_iff, compare_eq_iff_eq]
  constructor
  · rintro ⟨a, b, left, right, rfl⟩
    exact ⟨a, left, right⟩
  · rintro ⟨a, left, right⟩
    exact ⟨a, a, left, right, rfl⟩

theorem isLE_compare {a b : ℤ ×ₗ ℤ ×ₗ ℤ} : (compare a b).isLE = true ↔ a ≤ b :=
  Ordering.isLE_iff_ne_gt.trans compare_le_iff_le

theorem le_iff (x y : Float) : x ≤ y ↔ ∃ a b, position x.toModel.unpack = some a ∧
    position y.toModel.unpack = some b ∧ a ≤ b := by
  change decide (((x.toModel.unpack.compare y.toModel.unpack).any (·.isLE)) = true) = true ↔ _
  simp only [decide_eq_true_eq, Option.any_eq_true, compare_eq_some_iff]
  constructor
  · rintro ⟨order, ⟨a, b, left, right, rfl⟩, atMost⟩
    exact ⟨a, b, left, right, isLE_compare.mp atMost⟩
  · rintro ⟨a, b, left, right, atMost⟩
    exact ⟨_, ⟨a, b, left, right, rfl⟩, isLE_compare.mpr atMost⟩

/-! ## Adding zero -/

theorem pack_unpack (x : Float.Model) : Float.Model.pack x.unpack = x := by
  obtain ⟨⟨word⟩, valid⟩ := x
  have whole := UnpackedFloat.pack_unpack_of_valid valid
  simp only [Float.Model.pack, Float.Model.unpack, whole]

theorem add_zero_unpack (x : UnpackedFloat) (number : ∀ sign, x ≠ .zero sign) :
    UnpackedFloat.add .binary64 x (.zero .positive) = x := by
  cases x with
  | zero sign => exact absurd rfl (number sign)
  | notANumber => rfl
  | infinity sign => rfl
  | finite sign _ _ _ => rfl

theorem zero_unpack : (0 : Float).toModel.unpack = .zero .positive := by rfl

theorem add_zero_eq (x : Float) (nonzero : ∀ sign, x.toModel.unpack ≠ .zero sign) :
    x + 0 = x := by
  change Float.ofModel (Float.Model.pack
    (UnpackedFloat.add .binary64 x.toModel.unpack (0 : Float).toModel.unpack)) = x
  rw [zero_unpack, add_zero_unpack _ nonzero, pack_unpack]

theorem position_add_zero (x : Float) :
    position (x + 0).toModel.unpack = position x.toModel.unpack := by
  by_cases nonzero : ∀ sign, x.toModel.unpack ≠ .zero sign
  · rw [add_zero_eq x nonzero]
  · push Not at nonzero
    obtain ⟨sign, zero⟩ := nonzero
    change position (Float.Model.pack
      (UnpackedFloat.add .binary64 x.toModel.unpack (0 : Float).toModel.unpack)).unpack = _
    rw [zero_unpack, zero]
    cases sign <;> decide

instance ordered : Scalar.Ordered Float where
  Position := ℤ ×ₗ ℤ ×ₗ ℤ
  linear := inferInstance
  position x := position x.toModel.unpack
  lt_iff := lt_iff
  le_iff := le_iff
  beq_iff := beq_iff
  position_add_zero := position_add_zero
  least_le_greatest least greatest := by
    cases least
    cases greatest
    decide
  position_of_endless _ endless := by rcases endless with missing | missing <;> cases missing

end LeastSquares.Double

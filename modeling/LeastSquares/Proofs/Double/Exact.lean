import LeastSquares.Proofs.Double.Positive

/-!
# Exact sums and quotients

A double with a short mantissa stays exact when copies of it are added up: as long as the sum of the
mantissas has at most 53 bits, nothing is rounded. Neither is the quotient when the sum is divided
by the number of copies.
-/

set_option autoImplicit false

namespace LeastSquares.Double

open Float.Model Float.Model.UnpackedFloat

/-! ## Numbers that are doubles -/

structure Fits (a : Nat) (g : ℤ) : Prop where
  positive : 0 < a
  short : a < 2 ^ 53
  least : -1074 ≤ g
  greatest : a.log2 + g ≤ 1023

/-- The double is `a · 2 ^ g` with this sign. -/
def Stands (x : Float) (sign : Sign) (a : Nat) (g : ℤ) : Prop :=
  ∃ (shift : Nat) (some : _), x.toModel.unpack = .finite sign (a * 2 ^ shift) (g - shift) some

variable {x y : Float} {sign : Sign} {a b : Nat} {g : ℤ}

theorem log2_mul_two_pow (positive : 0 < a) (k : Nat) : (a * 2 ^ k).log2 = a.log2 + k := by
  refine (Nat.log2_eq_iff (by positivity)).mpr ⟨?_, ?_⟩
  · rw [pow_add]
    exact Nat.mul_le_mul_right _ (Nat.log2_self_le positive.ne')
  · rw [Nat.add_right_comm, pow_add]
    exact Nat.mul_lt_mul_of_pos_right Nat.lt_log2_self (Nat.two_pow_pos k)

theorem shiftRight_exact (b k : Nat) :
    ExtendedMantissa.ofMantissaAndAccuracy (b * 2 ^ k) .exact >>> k =
      ExtendedMantissa.ofMantissaAndAccuracy b .exact := by
  induction k generalizing b with
  | zero =>
      rw [pow_zero, Nat.mul_one]
      rfl
  | succ k ih =>
      have split : b * 2 ^ (k + 1) = b * 2 * 2 ^ k := by ring
      have last : (ExtendedMantissa.ofMantissaAndAccuracy (b * 2) .exact).shiftRightOne =
          ExtendedMantissa.ofMantissaAndAccuracy b .exact := by
        simp [ExtendedMantissa.ofMantissaAndAccuracy, ExtendedMantissa.shiftRightOne]
      rw [split]
      exact (congrArg ExtendedMantissa.shiftRightOne (ih (b * 2))).trans last

namespace Fits

theorem of_le (fits : Fits b g) (positive : 0 < a) (atMost : a ≤ b) : Fits a g := by
  obtain ⟨_, short, least, greatest⟩ := fits
  have log : a.log2 ≤ b.log2 :=
    (Nat.le_log2 (positive.trans_le atMost).ne').mpr ((Nat.log2_self_le positive.ne').trans atMost)
  exact ⟨positive, atMost.trans_lt short, least, by omega⟩

variable (fits : Fits a g)

include fits

/-- A number that is a double is not rounded, however many zeros stand behind its mantissa. -/
theorem reread_roundWithAccuracy (sign : Sign) {k : Nat}
    (long : 52 ≤ a.log2 + k ∨ g - k ≤ -1074) :
    ∃ (shift : Nat) (some : _),
      reread (roundWithAccuracy .binary64 sign (a * 2 ^ k) (g - k) .exact) =
        .finite sign (a * 2 ^ shift) (g - shift) some := by
  obtain ⟨positive, short, least, greatest⟩ := fits
  have log : a.log2 < 53 := (Nat.log2_lt positive.ne').mpr short
  let lost := dropped (a * 2 ^ k) (g - k)
  let shift := k - lost
  have count : (lost : ℤ) = max (a.log2 + g - 52) (-1074) - (g - k) := by
    simp only [lost, dropped, log2_mul_two_pow positive]
    omega
  have kept : shift + lost = k := by omega
  have some : 0 < a * 2 ^ shift := by positivity
  have bits : a * 2 ^ shift < 2 ^ 53 := by
    rw [← Nat.log2_lt some.ne', log2_mul_two_pow positive]
    omega
  have place : g - k + lost = g - shift := by omega
  have canonical : Canonical (a * 2 ^ shift) (g - shift) := by
    refine ⟨some, bits, by omega, ?_⟩
    by_cases normal : 52 ≤ a.log2 + shift
    · refine .inl ?_
      rwa [← Nat.le_log2 some.ne', log2_mul_two_pow positive]
    · exact .inr (by omega)
  have mantissa : a * 2 ^ k = a * 2 ^ shift * 2 ^ lost := by
    rw [mul_assoc, ← pow_add, kept]
  have rounded : (ExtendedMantissa.ofMantissaAndAccuracy (a * 2 ^ k) .exact >>>
      lost).roundedMantissa = a * 2 ^ shift := by
    rw [mantissa, shiftRight_exact]
    rfl
  have result : roundWithAccuracy .binary64 sign (a * 2 ^ k) (g - k) .exact =
      .finite sign (a * 2 ^ shift) (g - shift) some := by
    have named : dropped (a * 2 ^ k) (g - k) = lost := rfl
    have whole : dropped (a * 2 ^ shift) (g - shift) = 0 := dropped_of_small bits canonical.least
    rw [roundWithAccuracy_eq]
    simp only [named, rounded, place, whole, pow_zero, Nat.div_one, Nat.cast_zero, add_zero]
    exact dif_neg some.ne'
  refine ⟨shift, some, ?_⟩
  rw [result]
  exact reread_canonical canonical (by omega)

theorem reread_round (sign : Sign) (k : Nat) :
    ∃ (shift : Nat) (some : _), reread (UnpackedFloat.round .binary64 sign (a * 2 ^ k) (g - k)) =
      .finite sign (a * 2 ^ shift) (g - shift) some := by
  let more := (g - k - max ((a * 2 ^ k).log2 + (g - k) - 52) (-1074)).toNat
  have log := log2_mul_two_pow fits.positive k
  have result : UnpackedFloat.round .binary64 sign (a * 2 ^ k) (g - k) =
      roundWithAccuracy .binary64 sign (a * 2 ^ (k + more)) (g - (k + more : Nat)) .exact := by
    have mantissa : a * 2 ^ k * 2 ^ more = a * 2 ^ (k + more) := by rw [mul_assoc, ← pow_add]
    have place : g - k - more = g - (k + more : Nat) := by omega
    rw [← mantissa, ← place]
    simp only [UnpackedFloat.round, decreaseExponent, targetExponent_eq, Nat.shiftLeft_eq]
    rfl
  rw [result]
  exact fits.reread_roundWithAccuracy sign (by omega)

end Fits

namespace Stands

theorem positive (value : Stands x sign a g) : 0 < a := by
  obtain ⟨shift, some, _⟩ := value
  exact Nat.pos_of_mul_pos_right some

theorem not_isZero (value : Stands x sign a g) : ¬ IsZero x := by
  obtain ⟨shift, some, value⟩ := value
  rintro ⟨other, zero⟩
  rw [value] at zero
  cases zero

theorem of_normalize (fits : Fits a g) (k : Nat) (zeroSign : Sign)
    (value : x.toModel.unpack = reread (UnpackedFloat.normalize .binary64
      (sign.apply (a * 2 ^ k : Nat)) (g - k) zeroSign)) : Stands x sign a g := by
  have positive : 0 < ((a * 2 ^ k : Nat) : ℤ) :=
    Int.natCast_pos.mpr (Nat.mul_pos fits.positive (Nat.two_pow_pos k))
  have rounds : UnpackedFloat.normalize .binary64 (sign.apply (a * 2 ^ k : Nat)) (g - k) zeroSign =
      UnpackedFloat.round .binary64 sign (a * 2 ^ k) (g - k) := by
    cases sign with
    | positive => exact normalize_of_pos positive _ _
    | negative =>
        have below : compare (-((a * 2 ^ k : Nat) : ℤ)) 0 = .lt :=
          Int.compare_eq_lt.mpr (Int.neg_neg_of_pos positive)
        simp only [UnpackedFloat.normalize, Sign.apply, below, neg_neg, Int.toNat_natCast]
  rw [rounds] at value
  obtain ⟨shift, some, read⟩ := fits.reread_round sign k
  exact ⟨shift, some, value.trans read⟩

theorem add (left : Stands x sign a g) (right : Stands y sign b g) (fits : Fits (a + b) g) :
    Stands (x + y) sign (a + b) g := by
  obtain ⟨i, some, left⟩ := left
  obtain ⟨j, other, right⟩ := right
  refine of_normalize fits (max i j) .positive ?_
  rw [unpack_add, left, right, UnpackedFloat.add]
  have least : min (g - i) (g - j) = g - (max i j : Nat) := by omega
  have first : a * 2 ^ i * 2 ^ (g - i - (g - (max i j : Nat))).toNat = a * 2 ^ max i j := by
    rw [mul_assoc, ← pow_add]
    congr 2
    omega
  have second : b * 2 ^ j * 2 ^ (g - j - (g - (max i j : Nat))).toNat = b * 2 ^ max i j := by
    rw [mul_assoc, ← pow_add]
    congr 2
    omega
  have sum : sign.apply (a * 2 ^ max i j : Nat) + sign.apply (b * 2 ^ max i j : Nat) =
      sign.apply ((a + b) * 2 ^ max i j : Nat) := by
    cases sign <;> simp only [Sign.apply] <;> push_cast <;> ring
  simp only [decreaseExponent, Nat.shiftLeft_eq, least, first, second, sum]

theorem sub (left : Stands x sign a g) (right : Stands y sign a g) : IsZero (x - y) := by
  obtain ⟨i, some, left⟩ := left
  obtain ⟨j, other, right⟩ := right
  refine ⟨.positive, ?_⟩
  rw [unpack_sub, left, right, UnpackedFloat.sub]
  have aligned : a * 2 ^ i * 2 ^ (g - i - min (g - i) (g - j)).toNat =
      a * 2 ^ j * 2 ^ (g - j - min (g - i) (g - j)).toNat := by
    rw [mul_assoc, mul_assoc, ← pow_add, ← pow_add]
    congr 2
    omega
  simp only [decreaseExponent, Nat.shiftLeft_eq, aligned, sub_self]
  exact reread_zero _

theorem natCast (positive : 0 < a) (short : a < 2 ^ 53) : Stands (a : Float) .positive a 0 := by
  have log : a.log2 < 53 := (Nat.log2_lt positive.ne').mpr short
  have fits : Fits a 0 := ⟨positive, short, by decide, by omega⟩
  have split : (a : Float) = a.toUInt64.toFloat * Float.exactlyRepresentablePowersOfTen[0] := by
    change Float.ofScientific a false 0 = _
    rw [Float.ofScientific, dif_pos ⟨short, by decide⟩]
    rfl
  have one : (Float.exactlyRepresentablePowersOfTen[0]).toModel.unpack =
      .finite .positive (2 ^ 52) (-52) (by decide) := by rfl
  have word : a.toUInt64.toNat = a := Nat.mod_eq_of_lt (short.trans (by decide))
  have counted : Stands a.toUInt64.toFloat .positive a 0 := by
    have value : a.toUInt64.toFloat.toModel.unpack =
        reread (UnpackedFloat.normalize .binary64 a.toUInt64.toNat 0 .positive) := rfl
    rw [word] at value
    refine of_normalize fits 0 .positive ?_
    rw [value, pow_zero, Nat.mul_one]
    rfl
  obtain ⟨i, some, value⟩ := counted
  have product : (a : Float).toModel.unpack = reread (roundWithAccuracy .binary64 .positive
      (a * 2 ^ (i + 52)) (0 - (i + 52 : Nat)) .exact) := by
    have mantissa : a * 2 ^ i * 2 ^ 52 = a * 2 ^ (i + 52) := by rw [mul_assoc, ← pow_add]
    have place : 0 - (i : ℤ) + -52 = 0 - (i + 52 : Nat) := by omega
    rw [split, unpack_mul, value, one, UnpackedFloat.mul, mantissa, place]
    rfl
  have long : 52 ≤ a.log2 + (i + 52) ∨ 0 - ((i + 52 : Nat) : ℤ) ≤ -1074 := .inl (by omega)
  obtain ⟨shift, other, read⟩ := fits.reread_roundWithAccuracy .positive long
  exact ⟨shift, other, product.trans read⟩

theorem div (left : Stands x sign (a * b) g) (right : Stands y .positive b 0) (fits : Fits a g)
    (positive : 0 < b) : Stands (x / y) sign a g := by
  obtain ⟨i, some, left⟩ := left
  obtain ⟨j, other, right⟩ := right
  have least := fits.least
  have log : a.log2 < 53 := (Nat.log2_lt fits.positive.ne').mpr fits.short
  have product : 0 < a * b := Nat.mul_pos fits.positive positive
  have longer : (a * b).log2 < a.log2 + b.log2 + 2 := by
    rw [Nat.log2_lt product.ne']
    calc a * b < 2 ^ (a.log2 + 1) * 2 ^ (b.log2 + 1) :=
          Nat.mul_lt_mul'' Nat.lt_log2_self Nat.lt_log2_self
      _ = 2 ^ (a.log2 + b.log2 + 2) := by rw [← pow_add]; congr 1; omega
  let target := min (g - i - (0 - j)) (max (totalExponent (a * b * 2 ^ i) (g - i) -
    totalExponent (b * 2 ^ j) (0 - j) - 53) (-1074))
  let more := (g - i - (0 - j) - target).toNat
  let k := (g - target).toNat
  have bound : target ≤ max (a.log2 + g - 52) (-1074) := by
    simp only [target, totalExponent, log2_mul_two_pow product, log2_mul_two_pow positive]
    omega
  have place : target = g - k := by omega
  have mantissa : a * b * 2 ^ i * 2 ^ more = a * 2 ^ k * (b * 2 ^ j) := by
    have powers : i + more = k + j := by omega
    calc a * b * 2 ^ i * 2 ^ more = a * b * 2 ^ (i + more) := by rw [mul_assoc, ← pow_add]
      _ = a * b * (2 ^ k * 2 ^ j) := by rw [powers, pow_add]
      _ = a * 2 ^ k * (b * 2 ^ j) := mul_mul_mul_comm _ _ _ _
  have result : (x / y).toModel.unpack =
      reread (roundWithAccuracy .binary64 sign (a * 2 ^ k) (g - k) .exact) := by
    have quotient : UnpackedFloat.div .binary64 (.finite sign (a * b * 2 ^ i) (g - i) some)
        (.finite .positive (b * 2 ^ j) (0 - j) other) = roundWithAccuracy .binary64
          (sign / .positive) ((a * b * 2 ^ i) <<< more / (b * 2 ^ j)) target
          (accuracyOfFraction ((a * b * 2 ^ i) <<< more % (b * 2 ^ j)) (b * 2 ^ j)) := rfl
    have same : sign / .positive = sign := by cases sign <;> rfl
    rw [unpack_div, left, right, quotient, Nat.shiftLeft_eq, mantissa, Nat.mul_div_cancel _ other,
      Nat.mul_mod_left, same, place]
    rfl
  have long : 52 ≤ a.log2 + k ∨ g - k ≤ -1074 := by omega
  obtain ⟨shift, some, read⟩ := fits.reread_roundWithAccuracy sign long
  exact ⟨shift, some, result.trans read⟩

end Stands

end LeastSquares.Double

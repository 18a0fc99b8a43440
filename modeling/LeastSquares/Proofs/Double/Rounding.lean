import LeastSquares.Proofs.Double.Packing

/-!
# Rounding

A result is rounded by shifting its mantissa to the exponent that its size asks for, and adding one
at most. So a result that is not below the least positive double does not vanish, and half of a
double is less than the double, unless that is subnormal.
-/

set_option autoImplicit false

namespace LeastSquares.Double

open Float.Model Float.Model.UnpackedFloat

/-! ## Shifting -/

theorem mantissa_shiftRight (extended : ExtendedMantissa) (k : Nat) :
    (extended >>> k).mantissa = extended.mantissa / 2 ^ k := by
  induction k with
  | zero => simp [HShiftRight.hShiftRight, Nat.repeat]
  | succ k ih =>
      change (extended >>> k).mantissa / 2 = _
      rw [ih, Nat.div_div_eq_div_mul, pow_succ]

theorem roundedMantissa_bounds (extended : ExtendedMantissa) :
    extended.mantissa ≤ extended.roundedMantissa ∧
      extended.roundedMantissa ≤ extended.mantissa + 1 := by
  obtain ⟨mantissa, round, sticky⟩ := extended
  cases round <;> cases sticky <;>
    simp only [ExtendedMantissa.roundedMantissa, ExtendedMantissa.accuracy,
      Accuracy.roundToNearestEven] <;> omega

theorem mantissa_ofMantissaAndAccuracy (mantissa : Nat) (accuracy : Accuracy) :
    (ExtendedMantissa.ofMantissaAndAccuracy mantissa accuracy).mantissa = mantissa := by
  cases accuracy with
  | exact => rfl
  | inexact order => cases order <;> rfl

theorem targetExponent_eq (mantissa : Nat) (exponent : ℤ) :
    Format.binary64.targetExponent (totalExponent mantissa exponent) =
      max (mantissa.log2 + exponent - 52) (-1074) := by
  have bits : (Format.binary64.mantissaBits : ℤ) = 53 := by decide
  have least : Format.binary64.minExponent = -1074 := by decide
  rw [Format.targetExponent, totalExponent, bits, least]
  omega

def dropped (mantissa : Nat) (exponent : ℤ) : Nat :=
  (max (mantissa.log2 + exponent - 52) (-1074) - exponent).toNat

theorem shiftToTargetExponent_eq (mantissa : Nat) (exponent : ℤ) (accuracy : Accuracy) :
    shiftToTargetExponent .binary64 mantissa exponent accuracy =
      (ExtendedMantissa.ofMantissaAndAccuracy mantissa accuracy >>> dropped mantissa exponent,
        exponent + dropped mantissa exponent) := by
  rw [shiftToTargetExponent, targetExponent_eq]
  rfl

theorem div_dropped_lt (mantissa : Nat) (exponent : ℤ) :
    mantissa / 2 ^ dropped mantissa exponent < 2 ^ 53 := by
  have enough : mantissa.log2 + 1 ≤ 53 + dropped mantissa exponent := by
    rw [dropped]
    omega
  rw [Nat.div_lt_iff_lt_mul (by positivity), ← pow_add]
  exact Nat.lt_log2_self.trans_le (Nat.pow_le_pow_right (by decide) enough)

theorem dropped_of_small {mantissa : Nat} {exponent : ℤ} (small : mantissa < 2 ^ 53)
    (least : -1074 ≤ exponent) : dropped mantissa exponent = 0 := by
  have log : mantissa.log2 ≤ 52 := by
    by_cases zero : mantissa = 0
    · rw [zero]
      decide
    · have less := (Nat.log2_lt zero).mpr small
      omega
  rw [dropped]
  omega

/-! ## Rounding to 53 bits -/

theorem roundWithAccuracy_eq (sign : Sign) (mantissa : Nat) (exponent : ℤ) (accuracy : Accuracy) :
    roundWithAccuracy .binary64 sign mantissa exponent accuracy =
      let rounded := (ExtendedMantissa.ofMantissaAndAccuracy mantissa accuracy >>>
        dropped mantissa exponent).roundedMantissa
      let place := exponent + dropped mantissa exponent
      if h : rounded / 2 ^ dropped rounded place = 0 then .zero sign
      else .finite sign (rounded / 2 ^ dropped rounded place) (place + dropped rounded place)
        (Nat.pos_of_ne_zero h) := by
  simp only [roundWithAccuracy, shiftToTargetExponent_eq, mantissa_shiftRight,
    mantissa_ofMantissaAndAccuracy]

/-- What rounding leaves of a mantissa and an exponent: the shifted mantissa or one more, brought
back to 53 bits if the one more was carried into the next. -/
theorem roundWithAccuracy_cases (sign : Sign) (mantissa : Nat) (exponent : ℤ)
    (accuracy : Accuracy) :
    ∃ rounded, mantissa / 2 ^ dropped mantissa exponent ≤ rounded ∧
      rounded ≤ mantissa / 2 ^ dropped mantissa exponent + 1 ∧
      ((rounded = 0 ∧ roundWithAccuracy .binary64 sign mantissa exponent accuracy = .zero sign) ∨
      (rounded < 2 ^ 53 ∧ ∃ positive,
        roundWithAccuracy .binary64 sign mantissa exponent accuracy =
          .finite sign rounded (exponent + dropped mantissa exponent) positive) ∨
      (rounded = 2 ^ 53 ∧ ∃ positive,
        roundWithAccuracy .binary64 sign mantissa exponent accuracy =
          .finite sign (2 ^ 52) (exponent + dropped mantissa exponent + 1) positive)) := by
  have bounds := roundedMantissa_bounds
    (ExtendedMantissa.ofMantissaAndAccuracy mantissa accuracy >>> dropped mantissa exponent)
  rw [mantissa_shiftRight, mantissa_ofMantissaAndAccuracy] at bounds
  have small := div_dropped_lt mantissa exponent
  have least : -1074 ≤ exponent + dropped mantissa exponent := by
    rw [dropped]
    omega
  rw [roundWithAccuracy_eq]
  dsimp only
  generalize (ExtendedMantissa.ofMantissaAndAccuracy mantissa accuracy >>>
    dropped mantissa exponent).roundedMantissa = rounded at bounds
  refine ⟨rounded, bounds.1, bounds.2, ?_⟩
  by_cases carried : rounded = 2 ^ 53
  · have one : dropped (2 ^ 53) (exponent + dropped mantissa exponent) = 1 := by
      rw [dropped, Nat.log2_two_pow]
      omega
    refine .inr (.inr ⟨carried, by decide, ?_⟩)
    simp only [carried, one]
    rfl
  · have fits : rounded < 2 ^ 53 := by omega
    simp only [dropped_of_small fits least, pow_zero, Nat.div_one]
    by_cases zero : rounded = 0
    · exact .inl ⟨zero, dif_pos zero⟩
    · refine .inr (.inl ⟨fits, Nat.pos_of_ne_zero zero, ?_⟩)
      rw [dif_neg zero]
      congr 1
      omega

theorem reread_roundWithAccuracy_ne_zero (sign other : Sign) {mantissa : Nat} {exponent : ℤ}
    (accuracy : Accuracy) (positive : 0 < mantissa) (least : -1074 ≤ mantissa.log2 + exponent) :
    reread (roundWithAccuracy .binary64 sign mantissa exponent accuracy) ≠ .zero other := by
  have whole : 0 < mantissa / 2 ^ dropped mantissa exponent := by
    refine Nat.div_pos ((Nat.pow_le_pow_right (by decide) ?_).trans (Nat.log2_self_le positive.ne'))
      (by positivity)
    rw [dropped]
    omega
  have lowest : -1074 ≤ exponent + dropped mantissa exponent := by
    rw [dropped]
    omega
  obtain ⟨rounded, low, _, ⟨zero, _⟩ | ⟨small, _, result⟩ | ⟨_, _, result⟩⟩ :=
    roundWithAccuracy_cases sign mantissa exponent accuracy
  · omega
  · rw [result]
    exact reread_ne_zero small (by omega) other
  · rw [result]
    exact reread_ne_zero (by decide) (by omega) other

/-! ## Half of a double -/

theorem normal_of_dropped {mantissa : Nat} {exponent : ℤ} (positive : 0 < mantissa)
    (long : 52 ≤ mantissa.log2 ∨ exponent ≤ -1074) :
    2 ^ 52 ≤ mantissa / 2 ^ dropped mantissa exponent ∨
      exponent + dropped mantissa exponent = -1074 := by
  by_cases least : exponent + dropped mantissa exponent = -1074
  · exact .inr least
  · refine .inl ?_
    have kept : 52 + dropped mantissa exponent = mantissa.log2 := by
      rw [dropped] at least ⊢
      omega
    rw [Nat.le_div_iff_mul_le (by positivity), ← pow_add, kept]
    exact Nat.log2_self_le positive.ne'

theorem roundWithAccuracy_half (sign : Sign) {factor mantissa shift : Nat} {exponent : ℤ}
    (half : factor ≤ 2 ^ shift) (positive : 0 < factor) (canonical : Canonical mantissa exponent)
    (accuracy : Accuracy) :
    roundWithAccuracy .binary64 sign (factor * mantissa) (exponent - 1 - shift) accuracy =
      .zero sign ∨
    ∃ rounded least some, roundWithAccuracy .binary64 sign (factor * mantissa)
        (exponent - 1 - shift) accuracy = .finite sign rounded least some ∧
      Canonical rounded least ∧
      (least < exponent ∨ least = exponent ∧ (rounded < mantissa ∨ rounded < 2 ^ 52)) := by
  obtain ⟨present, bits, lowest, normal⟩ := canonical
  have product : 0 < factor * mantissa := Nat.mul_pos positive present
  have below : factor * mantissa ≤ 2 ^ shift * mantissa := Nat.mul_le_mul_right mantissa half
  have log : (factor * mantissa).log2 < shift + 53 := by
    rw [Nat.log2_lt product.ne', pow_add]
    exact below.trans_lt (Nat.mul_lt_mul_of_pos_left bits (by positivity))
  have long : 52 ≤ (factor * mantissa).log2 ∨ exponent - 1 - shift ≤ -1074 := by
    rcases normal with normal | rfl
    · exact .inl ((Nat.le_log2 product.ne').mpr (normal.trans (Nat.le_mul_of_pos_left _ positive)))
    · exact .inr (by omega)
  have kept := normal_of_dropped product long
  obtain ⟨rounded, low, high, outcome⟩ :=
    roundWithAccuracy_cases sign (factor * mantissa) (exponent - 1 - shift) accuracy
  have place : -1074 ≤ exponent - 1 - shift + dropped (factor * mantissa) (exponent - 1 - shift) ∧
      exponent - 1 - shift + dropped (factor * mantissa) (exponent - 1 - shift) ≤
        max (exponent - 1) (-1074) := by
    rw [dropped]
    omega
  generalize dropped (factor * mantissa) (exponent - 1 - shift) = bitsDropped at *
  -- At the exponent of the mantissa, or one below, the shifted product is bounded by the mantissa.
  have same : bitsDropped = shift + 1 → factor * mantissa / 2 ^ bitsDropped ≤ mantissa / 2 := by
    rintro rfl
    rw [pow_succ, ← Nat.div_div_eq_div_mul]
    exact Nat.div_le_div_right (Nat.div_le_of_le_mul below)
  have next : bitsDropped = shift → factor * mantissa / 2 ^ bitsDropped ≤ mantissa := by
    rintro rfl
    exact Nat.div_le_of_le_mul below
  rcases outcome with ⟨_, result⟩ | ⟨small, some, result⟩ | ⟨carried, some, result⟩
  · exact .inl result
  · refine .inr ⟨rounded, _, some, result, ⟨some, small, place.1, by omega⟩, ?_⟩
    omega
  · refine .inr ⟨2 ^ 52, _, some, result, ⟨some, by decide, by omega, .inl le_rfl⟩, ?_⟩
    omega

/-! ## Comparing -/

section Compare

variable {x y : Float} {m l : Nat} {e f : ℤ} {someX : 0 < m} {someY : 0 < l}

theorem lt_finite_iff (left : x.toModel.unpack = .finite .positive m e someX)
    (right : y.toModel.unpack = .finite .positive l f someY) :
    x < y ↔ e < f ∨ e = f ∧ m < l := by
  rw [lt_iff, left, right]
  simp only [position, Option.some.injEq, exists_and_left, exists_eq_left',
    Prod.Lex.toLex_lt_toLex, lt_irrefl, true_and, false_or, Nat.cast_lt]

theorem le_finite_iff (left : x.toModel.unpack = .finite .positive m e someX)
    (right : y.toModel.unpack = .finite .positive l f someY) :
    x ≤ y ↔ e < f ∨ e = f ∧ m ≤ l := by
  rw [le_iff, left, right]
  simp only [position, Option.some.injEq, exists_and_left, exists_eq_left',
    Prod.Lex.toLex_le_toLex, lt_irrefl, true_and, false_or, Nat.cast_le]

theorem unpack_of_pos (positive : 0 < x) : x.toModel.unpack = .infinity .positive ∨
    ∃ m e some, x.toModel.unpack = .finite .positive m e some := by
  rw [lt_iff, zero_unpack] at positive
  cases value : x.toModel.unpack with
  | notANumber => simp [value, position] at positive
  | infinity sign =>
      cases sign with
      | negative => simp [value, position, Prod.Lex.toLex_lt_toLex] at positive
      | positive => exact .inl rfl
  | zero sign => simp [value, position] at positive
  | finite sign m e some =>
      cases sign with
      | negative => simp [value, position, Prod.Lex.toLex_lt_toLex] at positive
      | positive => exact .inr ⟨m, e, some, rfl⟩

/-- Whether an unpacked double is a number that is not above zero. -/
def Low (u : UnpackedFloat) : Prop := ∃ sign, u = .zero sign ∨ sign? u = some .negative

theorem lt_of_low (low : Low x.toModel.unpack)
    (right : y.toModel.unpack = .finite .positive l f someY) : x < y := by
  obtain ⟨sign, zero | negative⟩ := low
  · rw [lt_iff, zero, right]
    exact ⟨_, _, rfl, rfl, by simp [Prod.Lex.toLex_lt_toLex]⟩
  · rw [lt_iff, right]
    cases u : x.toModel.unpack with
    | notANumber =>
        rw [u] at negative
        cases negative
    | infinity sign =>
        rw [u] at negative
        cases negative
        exact ⟨_, _, rfl, rfl, by simp [Prod.Lex.toLex_lt_toLex]⟩
    | zero sign => exact ⟨_, _, rfl, rfl, by simp [Prod.Lex.toLex_lt_toLex]⟩
    | finite sign _ _ _ =>
        rw [u] at negative
        cases negative
        exact ⟨_, _, rfl, rfl, by simp [Prod.Lex.toLex_lt_toLex]⟩

end Compare

theorem half_unpack :
    (0.5 : Float).toModel.unpack = .finite .positive (2 ^ 52) (-53) (by decide) := by
  rfl

theorem minPositive_unpack : (Scalar.minPositive : Float).toModel.unpack =
    .finite .positive (2 ^ 52) (-1074) (by decide) := by
  rfl

theorem sign?_roundWithAccuracy (sign : Sign) (mantissa : Nat) (exponent : ℤ)
    (accuracy : Accuracy) :
    sign? (roundWithAccuracy .binary64 sign mantissa exponent accuracy) = some sign := by
  obtain ⟨_, _, _, ⟨_, result⟩ | ⟨_, _, result⟩ | ⟨_, _, result⟩⟩ :=
    roundWithAccuracy_cases sign mantissa exponent accuracy
  all_goals
    rw [result]
    rfl

theorem unpack_of_le_half {mu : Float} (positive : 0 < mu) (half : mu ≤ 0.5) :
    ∃ (m shift : Nat) (some : 0 < m), m ≤ 2 ^ shift ∧
      mu.toModel.unpack = .finite .positive m (-1 - shift) some := by
  rcases unpack_of_pos positive with value | ⟨m, e, some, value⟩
  · obtain ⟨c, d, same, top, below⟩ := (le_iff _ _).mp half
    rw [value] at same
    rw [half_unpack] at top
    cases same
    cases top
    simp [Prod.Lex.toLex_le_toLex] at below
  · have bits := (unpack_canonical value).1.bits
    have small := (le_finite_iff value half_unpack).mp half
    refine ⟨m, (-1 - e).toNat, some, ?_, ?_⟩
    · rcases small with less | ⟨rfl, atMost⟩
      · have room : 53 ≤ (-1 - e).toNat := by omega
        exact bits.le.trans (Nat.pow_le_pow_right (by decide) room)
      · exact atMost
    · rw [value]
      congr 1
      omega

/-- Half of a double, or less, is below the double or below the least normal one. -/
theorem mul_half {mu b : Float} (positive : 0 < mu) (half : mu ≤ 0.5)
    (number : Scalar.isNaN b = false) (below : b.toModel.unpack ≠ .infinity .positive) :
    mu * b < b ∨ mu * b < Scalar.minPositive := by
  obtain ⟨m, shift, some, atMost, factor⟩ := unpack_of_le_half positive half
  have low (negative : Low (mu * b).toModel.unpack) : mu * b < Scalar.minPositive :=
    lt_of_low negative minPositive_unpack
  cases value : b.toModel.unpack with
  | notANumber =>
      rw [Scalar.Ordered.isNaN_eq_false_iff] at number
      change (position b.toModel.unpack).isSome = true at number
      rw [value] at number
      cases number
  | infinity sign =>
      cases sign with
      | positive => exact absurd value below
      | negative =>
          refine .inr (low ⟨.negative, .inr ?_⟩)
          rw [unpack_mul, factor, value]
          exact sign?_reread _
  | zero sign =>
      refine .inr (low ⟨.positive * sign, .inl ?_⟩)
      rw [unpack_mul, factor, value]
      exact reread_zero _
  | finite sign l f other =>
      have product : (mu * b).toModel.unpack = reread (roundWithAccuracy .binary64
          (.positive * sign) (m * l) (f - 1 - shift) .exact) := by
        have sum : -1 - (shift : ℤ) + f = f - 1 - shift := by ring
        rw [unpack_mul, factor, value, UnpackedFloat.mul, sum]
      cases sign with
      | negative =>
          refine .inr (low ⟨.negative, .inr ?_⟩)
          rw [product, sign?_reread, sign?_roundWithAccuracy]
          rfl
      | positive =>
          obtain ⟨canonical, fits⟩ := unpack_canonical value
          rcases roundWithAccuracy_half (.positive * .positive) atMost some canonical .exact with
            zero | ⟨rounded, least, another, result, shape, less⟩
          · refine .inr (low ⟨.positive, .inl ?_⟩)
            rw [product, zero]
            exact reread_zero _
          · have read : (mu * b).toModel.unpack = .finite .positive rounded least another := by
              rw [product, result]
              exact reread_canonical shape (by omega)
            rcases less with smaller | ⟨same, smaller | subnormal⟩
            · exact .inl ((lt_finite_iff read value).mpr (.inl smaller))
            · exact .inl ((lt_finite_iff read value).mpr (.inr ⟨same, smaller⟩))
            · have lowest := shape.normal.resolve_left (not_le.mpr subnormal)
              exact .inr ((lt_finite_iff read minPositive_unpack).mpr (.inr ⟨lowest, subnormal⟩))

end LeastSquares.Double

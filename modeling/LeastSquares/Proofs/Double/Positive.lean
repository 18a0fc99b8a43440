import LeastSquares.Proofs.Double.Signs

/-!
# Positive doubles

The product of positive doubles is positive or rounds to zero, and it does the latter only where one
of them is below a tenth or subnormal. Their sum is positive, and so is the quotient of one by
another that is not far above it, as a double is by one that is not above a half. The root of a
positive double is far from the subnormal ones; hence a positive double over the root of its square
rounds to zero only where the square overflows.
-/

set_option autoImplicit false

namespace LeastSquares.Double

open Float.Model Float.Model.UnpackedFloat

variable {x y : Float}

/-! ## What makes a double positive -/

theorem pos_of_sign (sign : sign? x.toModel.unpack = some .positive) (nonzero : ¬ IsZero x) :
    0 < x := by
  rw [lt_iff, zero_unpack]
  cases value : x.toModel.unpack with
  | notANumber =>
      rw [value] at sign
      cases sign
  | infinity s =>
      rw [value] at sign
      cases sign
      exact ⟨_, _, rfl, rfl, by simp [Prod.Lex.toLex_lt_toLex]⟩
  | zero s => exact absurd ⟨s, value⟩ nonzero
  | finite s m e some =>
      rw [value] at sign
      cases sign
      exact ⟨_, _, rfl, rfl, by simp [Prod.Lex.toLex_lt_toLex, some]⟩

theorem pos_of_infinity (value : x.toModel.unpack = .infinity .positive) : 0 < x := by
  refine pos_of_sign ?_ ?_
  · rw [value]
    rfl
  · rintro ⟨sign, zero⟩
    rw [value] at zero
    cases zero

theorem not_isZero_of_pos (positive : 0 < x) : ¬ IsZero x := by
  rintro ⟨sign, zero⟩
  rcases unpack_of_pos positive with value | ⟨m, e, some, value⟩
  · rw [value] at zero
    cases zero
  · rw [value] at zero
    cases zero

theorem NotBelow.cases (high : NotBelow x.toModel.unpack) :
    Scalar.isNaN x = true ∨ IsZero x ∨ 0 < x := by
  by_cases zero : IsZero x
  · exact .inr (.inl zero)
  · cases value : x.toModel.unpack with
    | notANumber => exact .inl ((isNaN_iff x).mpr value)
    | infinity sign =>
        refine .inr (.inr (pos_of_sign ?_ zero))
        rw [value] at high ⊢
        obtain ⟨_, same⟩ | other := high
        · cases same
        · cases sign with
          | negative => exact absurd rfl other
          | positive => rfl
    | zero sign => exact absurd ⟨sign, value⟩ zero
    | finite sign m e some =>
        refine .inr (.inr (pos_of_sign ?_ zero))
        rw [value] at high ⊢
        rw [positive_of_notBelow high]
        rfl

theorem not_pos_of_isNaN (missing : Scalar.isNaN x = true) : ¬ 0 < x :=
  not_lt_of_isNaN_right missing

theorem Vacant.not_pos (vacant : Vacant x) : ¬ 0 < x := by
  rcases vacant with zero | missing
  · exact fun positive => not_isZero_of_pos positive zero
  · exact not_pos_of_isNaN missing

theorem NotBelow.vacant (high : NotBelow x.toModel.unpack) (small : ¬ 0 < x) : Vacant x := by
  rcases high.cases with missing | zero | positive
  · exact .inr missing
  · exact .inl zero
  · exact absurd positive small

theorem number_of_pos (positive : 0 < x) : Scalar.isNaN x = false := by
  by_contra missing
  exact not_pos_of_isNaN (Bool.not_eq_false _ ▸ missing) positive

theorem IsZero.lt_of_pos (zero : IsZero x) (positive : 0 < y) : x < y :=
  (Scalar.Ordered.lt_congr_left
    (Scalar.Ordered.position_of_beq ((beq_zero_iff x).mpr zero))).mpr positive

theorem min_pos (left : 0 < x) (right : 0 < y) : 0 < Scalar.min x y := by
  rcases Scalar.Ordered.min_choice x y with same | same
  · rw [same]
    exact left
  · rw [same]
    exact right

theorem min_of_isNaN (number : Scalar.isNaN x = false) (missing : Scalar.isNaN y = true) :
    Scalar.min x y = x := by
  have equal : (x == x) = true := by simpa [Scalar.isNaN] using number
  rw [Scalar.min, if_pos equal, if_neg (not_lt_of_isNaN_left missing)]

theorem min_of_lt (less : y < x) (number : Scalar.isNaN x = false) : Scalar.min x y = y := by
  have equal : (x == x) = true := by simpa [Scalar.isNaN] using number
  rw [Scalar.min, if_pos equal, if_pos less]

/-! ## Products -/

theorem sign_mul (left : 0 < x) (right : 0 < y) :
    sign? (x * y).toModel.unpack = some .positive := by
  rw [unpack_mul, sign?_reread]
  rcases unpack_of_pos left with first | ⟨m, e, some, first⟩ <;>
    rcases unpack_of_pos right with second | ⟨l, f, other, second⟩ <;>
    rw [first, second]
  · rfl
  · rfl
  · rfl
  · exact sign?_roundWithAccuracy _ _ _ _

theorem mul_pos_iff (left : 0 < x) (right : 0 < y) : 0 < x * y ↔ ¬ IsZero (x * y) :=
  ⟨not_isZero_of_pos, pos_of_sign (sign_mul left right)⟩

theorem tenth_unpack : (0.1 : Float).toModel.unpack =
    .finite .positive 7205759403792794 (-56) (by decide) := by
  rfl

theorem mul_pos_of_normal (large : 0.1 ≤ x) (normal : Scalar.minPositive ≤ y) : 0 < x * y := by
  have left : 0 < x := Scalar.Ordered.lt_of_lt_of_le (by decide) large
  have right : 0 < y := Scalar.Ordered.lt_of_lt_of_le (by decide) normal
  rcases unpack_of_pos left with first | ⟨m, e, some, first⟩
  · refine pos_of_infinity ?_
    rcases unpack_of_pos right with second | ⟨l, f, other, second⟩ <;>
      rw [unpack_mul, first, second] <;>
      exact reread_infinity _
  · rcases unpack_of_pos right with second | ⟨l, f, other, second⟩
    · refine pos_of_infinity ?_
      rw [unpack_mul, first, second]
      exact reread_infinity _
    · have above := (le_finite_iff tenth_unpack first).mp large
      have bound := (le_finite_iff minPositive_unpack second).mp normal
      have shape := (unpack_canonical first).1
      have wide := (unpack_canonical second).1
      have factor : 2 ^ 52 ≤ m := by
        rcases shape.normal with whole | least
        · exact whole
        · omega
      have other : 2 ^ 52 ≤ l := by
        rcases wide.normal with whole | least
        · exact whole
        · omega
      have long : 104 ≤ (m * l).log2 := by
        rw [Nat.le_log2 (by positivity)]
        calc 2 ^ 104 = 2 ^ 52 * 2 ^ 52 := by norm_num
          _ ≤ m * l := Nat.mul_le_mul factor other
      refine (mul_pos_iff left right).mpr ?_
      rintro ⟨sign, zero⟩
      rw [unpack_mul, first, second, UnpackedFloat.mul] at zero
      refine reread_roundWithAccuracy_ne_zero _ sign .exact ?_ ?_ zero
      · positivity
      · have least := wide.least
        omega

theorem not_pos_mul_zero (zero : IsZero y) : ¬ 0 < x * y :=
  (Vacant.mul_left (.inl zero) x).not_pos

/-! ## Sums -/

theorem IsZero.unpack_add (zero : IsZero x) (nonzero : ¬ IsZero y) :
    (x + y).toModel.unpack = y.toModel.unpack := by
  obtain ⟨sign, zero⟩ := zero
  rw [Double.unpack_add, zero]
  cases value : y.toModel.unpack with
  | notANumber => exact reread_notANumber
  | infinity s => exact reread_infinity s
  | zero s => exact absurd ⟨s, value⟩ nonzero
  | finite s m e some =>
      exact reread_canonical (unpack_canonical value).1 (unpack_canonical value).2

theorem IsZero.add_pos (zero : IsZero x) (positive : 0 < y) : 0 < x + y := by
  have same := zero.unpack_add (not_isZero_of_pos positive)
  rw [Double.lt_iff] at positive ⊢
  rwa [same]

theorem add_pos (left : 0 < x) (right : 0 < y) : 0 < x + y := by
  rcases unpack_of_pos left with first | ⟨m, e, some, first⟩
  · refine pos_of_infinity ?_
    rcases unpack_of_pos right with second | ⟨l, f, other, second⟩ <;>
      rw [unpack_add, first, second] <;>
      exact reread_infinity _
  · rcases unpack_of_pos right with second | ⟨l, f, other, second⟩
    · refine pos_of_infinity ?_
      rw [unpack_add, first, second]
      exact reread_infinity _
    · have least := (unpack_canonical first).1.least
      have lowest := (unpack_canonical second).1.least
      have sum := add_shifted_pos some other (e - min e f).toNat (f - min e f).toNat
      have result : (x + y).toModel.unpack = reread (UnpackedFloat.round .binary64 .positive
          (Sign.positive.apply (m <<< (e - min e f).toNat : Nat) +
            Sign.positive.apply (l <<< (f - min e f).toNat : Nat)).toNat (min e f)) := by
        rw [unpack_add, first, second, UnpackedFloat.add]
        simp only [decreaseExponent, normalize_of_pos sum]
      refine pos_of_sign ?_ ?_
      · rw [result, sign?_reread, UnpackedFloat.round, sign?_roundWithAccuracy]
      · rintro ⟨sign, zero⟩
        simp only [result, UnpackedFloat.round, decreaseExponent] at zero
        refine reread_roundWithAccuracy_ne_zero .positive sign .exact ?_ ?_ zero
        · exact shiftLeft_pos (by omega) _
        · rw [targetExponent_eq]
          omega

/-! ## Quotients -/

/-- The quotient of positive doubles does not round to zero where the first is not far below the
second: its mantissa is shifted until it is longer than that of the divisor. -/
theorem div_pos_of_near {m l : Nat} {e f : ℤ} {other : 0 < m} {some : 0 < l}
    (value : x.toModel.unpack = .finite .positive m e other)
    (divisor : y.toModel.unpack = .finite .positive l f some)
    (near : l.log2 + f ≤ m.log2 + e + 1073) : 0 < x / y := by
  have bits := (unpack_canonical divisor).1.bits
  let target := min (e - f)
    (max (totalExponent m e - totalExponent l f - 53) (-1074))
  have result : UnpackedFloat.div .binary64 (.finite .positive m e other)
      (.finite .positive l f some) = roundWithAccuracy .binary64 .positive
        ((m <<< (e - f - target).toNat) / l) target
        (accuracyOfFraction ((m <<< (e - f - target).toNat) % l) l) := by
    rfl
  have log : l.log2 ≤ 52 := by
    have less := (Nat.log2_lt some.ne').mpr bits
    omega
  have longer : l.log2 + 1 ≤ m.log2 + (e - f - target).toNat := by
    have total : target ≤ max (m.log2 + e - l.log2 - f - 53) (-1074) := by
      simp only [target, totalExponent]
      omega
    omega
  let kept := m.log2 + (e - f - target).toNat - (l.log2 + 1)
  have long : 2 ^ kept ≤ (m <<< (e - f - target).toNat) / l := by
    rw [Nat.le_div_iff_mul_le some]
    calc 2 ^ kept * l ≤ 2 ^ kept * 2 ^ (l.log2 + 1) :=
          Nat.mul_le_mul_left _ Nat.lt_log2_self.le
      _ = 2 ^ (m.log2 + (e - f - target).toNat) := by
          rw [← pow_add, Nat.sub_add_cancel longer]
      _ = 2 ^ m.log2 * 2 ^ (e - f - target).toNat := pow_add _ _ _
      _ ≤ m * 2 ^ (e - f - target).toNat :=
        Nat.mul_le_mul_right _ (Nat.log2_self_le other.ne')
      _ = m <<< (e - f - target).toNat := (Nat.shiftLeft_eq _ _).symm
  have quotient : 0 < (m <<< (e - f - target).toNat) / l :=
    lt_of_lt_of_le (Nat.two_pow_pos kept) long
  have high := (Nat.le_log2 quotient.ne').mpr long
  refine pos_of_sign ?_ ?_
  · rw [unpack_div, value, divisor, result, sign?_reread, sign?_roundWithAccuracy]
  · rintro ⟨sign, zero⟩
    rw [unpack_div, value, divisor, result] at zero
    exact reread_roundWithAccuracy_ne_zero _ sign _ quotient (by omega) zero

theorem div_pos {l : Nat} {f : ℤ} {some : 0 < l} (positive : 0 < x)
    (divisor : y.toModel.unpack = .finite .positive l f some) (small : f ≤ -53) : 0 < x / y := by
  rcases unpack_of_pos positive with value | ⟨m, e, other, value⟩
  · refine pos_of_infinity ?_
    rw [unpack_div, value, divisor]
    exact reread_infinity _
  · have least := (unpack_canonical value).1.least
    have less := (Nat.log2_lt some.ne').mpr (unpack_canonical divisor).1.bits
    exact div_pos_of_near value divisor (by omega)

/-! ## Roots -/

theorem unpack_sqrt_of_finite {m : Nat} {e : ℤ} {some : 0 < m}
    (value : x.toModel.unpack = .finite .positive m e some) :
    ∃ root place other, x.sqrt.toModel.unpack = .finite .positive root place other ∧
      -589 ≤ place ∧ 2 * place ≤ m.log2 + e - 102 := by
  obtain ⟨⟨_, bits, least, _⟩, top⟩ := unpack_canonical value
  let target := min (e / 2) (max ((totalExponent m e + 1) / 2 - 53) (-1074))
  let root := (m <<< (e - 2 * target).toNat).sqrt
  let rest := m <<< (e - 2 * target).toNat - root * root
  let accuracy : Accuracy :=
    if rest = 0 then .exact else .inexact (if rest ≤ root then .lt else .gt)
  have result : x.sqrt.toModel.unpack =
      reread (roundWithAccuracy .binary64 .positive root target accuracy) := by
    rw [unpack_sqrt, value]
    rfl
  have total : totalExponent m e = m.log2 + 1 + e := rfl
  have log : m.log2 < 53 := (Nat.log2_lt some.ne').mpr bits
  have half : target = (m.log2 + e + 2) / 2 - 53 := by omega
  have place : -589 ≤ target := by omega
  -- The mantissa is shifted to twice the length that the root is to have.
  have shifted : 104 ≤ m.log2 + (e - 2 * target).toNat ∧
      m.log2 + (e - 2 * target).toNat ≤ 105 := by omega
  have long : 2 ^ 52 ≤ root := by
    refine Nat.le_sqrt.mpr ?_
    calc 2 ^ 52 * 2 ^ 52 = 2 ^ 104 := by norm_num
      _ ≤ 2 ^ (m.log2 + (e - 2 * target).toNat) := Nat.pow_le_pow_right (by decide) shifted.1
      _ = 2 ^ m.log2 * 2 ^ (e - 2 * target).toNat := pow_add _ _ _
      _ ≤ m * 2 ^ (e - 2 * target).toNat := Nat.mul_le_mul_right _ (Nat.log2_self_le some.ne')
      _ = m <<< (e - 2 * target).toNat := (Nat.shiftLeft_eq _ _).symm
  have short : root < 2 ^ 53 := by
    refine Nat.sqrt_lt.mpr ?_
    calc m <<< (e - 2 * target).toNat = m * 2 ^ (e - 2 * target).toNat := Nat.shiftLeft_eq _ _
      _ < 2 ^ (m.log2 + 1) * 2 ^ (e - 2 * target).toNat :=
        Nat.mul_lt_mul_of_pos_right Nat.lt_log2_self (Nat.two_pow_pos _)
      _ = 2 ^ (m.log2 + 1 + (e - 2 * target).toNat) := (pow_add _ _ _).symm
      _ ≤ 2 ^ 106 := Nat.pow_le_pow_right (by decide) (by omega)
      _ = 2 ^ 53 * 2 ^ 53 := by norm_num
  have whole : dropped root target = 0 := dropped_of_small short (by omega)
  have read {mantissa : Nat} {exponent : ℤ} (other : 0 < mantissa) (normal : 2 ^ 52 ≤ mantissa)
      (small : mantissa < 2 ^ 53) (low : target ≤ exponent) (high : exponent ≤ target + 1) :
      ∃ root place some, reread (.finite .positive mantissa exponent other) =
        .finite .positive root place some ∧ -589 ≤ place ∧ 2 * place ≤ m.log2 + e - 102 :=
    ⟨mantissa, exponent, other,
      reread_canonical ⟨other, small, by omega, .inl normal⟩ (by omega), by omega, by omega⟩
  obtain ⟨rounded, low, _, ⟨zero, _⟩ | ⟨small, other, rounds⟩ | ⟨_, other, rounds⟩⟩ :=
    roundWithAccuracy_cases .positive root target accuracy
  all_goals rw [whole, pow_zero, Nat.div_one] at low
  · omega
  · rw [result, rounds]
    exact read other (long.trans low) small (by omega) (by omega)
  · rw [result, rounds]
    exact read other le_rfl (by decide) (by omega) (by omega)

theorem unpack_sqrt_special (special : ∀ m e some, x.toModel.unpack ≠ .finite .positive m e some)
    (positive : 0 < x.sqrt) : x.sqrt.toModel.unpack = .infinity .positive := by
  have nonzero := not_isZero_of_pos positive
  have number : x.sqrt.toModel.unpack ≠ .notANumber := fun missing =>
    not_pos_of_isNaN ((isNaN_iff _).mpr missing) positive
  cases value : x.toModel.unpack with
  | notANumber =>
      refine absurd ?_ number
      rw [unpack_sqrt, value]
      rfl
  | infinity sign =>
      cases sign with
      | negative =>
          refine absurd ?_ number
          rw [unpack_sqrt, value]
          rfl
      | positive =>
          rw [unpack_sqrt, value]
          exact reread_infinity _
  | zero sign =>
      refine absurd ⟨sign, ?_⟩ nonzero
      rw [unpack_sqrt, value]
      exact reread_zero _
  | finite sign m e some =>
      cases sign with
      | negative =>
          refine absurd ?_ number
          rw [unpack_sqrt, value, UnpackedFloat.sqrt]
          exact reread_notANumber
      | positive => exact absurd value (special m e some)

theorem minPositive_le_sqrt (positive : 0 < x.sqrt) : Scalar.minPositive ≤ x.sqrt := by
  have top (value : x.sqrt.toModel.unpack = .infinity .positive) :
      Scalar.minPositive ≤ x.sqrt := by
    rw [le_iff, minPositive_unpack, value]
    exact ⟨_, _, rfl, rfl, by simp [Prod.Lex.toLex_le_toLex]⟩
  by_cases finite : ∃ m e some, x.toModel.unpack = .finite .positive m e some
  · obtain ⟨m, e, some, value⟩ := finite
    obtain ⟨root, place, other, read, high, _⟩ := unpack_sqrt_of_finite value
    exact (le_finite_iff minPositive_unpack read).mpr (.inl (by omega))
  · push Not at finite
    exact top (unpack_sqrt_special finite positive)

/-! ## The root of a square -/

theorem mul_self_cases {m : Nat} {e : ℤ} {some : 0 < m}
    (value : x.toModel.unpack = .finite .positive m e some) :
    IsZero (x * x) ∨ (x * x).toModel.unpack = .infinity .positive ∨
      ∃ l f other, (x * x).toModel.unpack = .finite .positive l f other ∧
        f ≤ max (2 * e + 54) (-1073) := by
  obtain ⟨⟨_, bits, least, normal⟩, _⟩ := unpack_canonical value
  have product : 0 < m * m := Nat.mul_pos some some
  have log : (m * m).log2 < 106 := by
    rw [Nat.log2_lt product.ne']
    calc m * m < 2 ^ 53 * 2 ^ 53 := Nat.mul_lt_mul'' bits bits
      _ = 2 ^ 106 := by norm_num
  have long : 52 ≤ (m * m).log2 ∨ e + e ≤ -1074 := by
    rcases normal with normal | rfl
    · exact .inl ((Nat.le_log2 product.ne').mpr (normal.trans (Nat.le_mul_self m)))
    · exact .inr (by omega)
  have kept := normal_of_dropped product long
  have place : -1074 ≤ e + e + dropped (m * m) (e + e) ∧
      e + e + dropped (m * m) (e + e) ≤ max (2 * e + 53) (-1074) := by
    rw [dropped]
    omega
  have read {l : Nat} {f : ℤ} (other : 0 < l) (canonical : Canonical l f)
      (high : f ≤ max (2 * e + 54) (-1073)) :
      reread (.finite .positive l f other) = .infinity .positive ∨
        ∃ k g some, reread (.finite .positive l f other) = .finite .positive k g some ∧
          g ≤ max (2 * e + 54) (-1073) := by
    by_cases fits : f ≤ 971
    · exact .inr ⟨l, f, other, reread_canonical canonical fits, high⟩
    · exact .inl (reread_overflow (not_le.mp fits))
  have result : (x * x).toModel.unpack =
      reread (roundWithAccuracy .binary64 .positive (m * m) (e + e) .exact) := by
    rw [unpack_mul, value]
    rfl
  obtain ⟨rounded, low, _, ⟨_, rounds⟩ | ⟨small, other, rounds⟩ | ⟨_, other, rounds⟩⟩ :=
    roundWithAccuracy_cases .positive (m * m) (e + e) .exact
  · refine .inl ⟨.positive, ?_⟩
    rw [result, rounds]
    exact reread_zero _
  · have canonical : Canonical rounded (e + e + dropped (m * m) (e + e)) :=
      ⟨other, small, place.1, kept.imp_left low.trans'⟩
    rw [result, rounds]
    exact .inr (read other canonical (by omega))
  · have canonical : Canonical (2 ^ 52) (e + e + dropped (m * m) (e + e) + 1) :=
      ⟨other, by decide, by omega, .inl le_rfl⟩
    rw [result, rounds]
    exact .inr (read other canonical (by omega))

/-- A positive double divided by the root of its square is not zero, unless the square overflows. -/
theorem isZero_div_sqrt_iff (positive : 0 < x) :
    IsZero (x / (x * x).sqrt) ↔ x.isFinite = true ∧ (x * x).isFinite = false := by
  rw [isFinite_iff, ← Bool.not_eq_true, isFinite_iff]
  rcases unpack_of_pos positive with value | ⟨m, e, some, value⟩
  · -- An infinity by itself is not a number.
    have square : (x * x).toModel.unpack = .infinity .positive := by
      rw [unpack_mul, value]
      exact reread_infinity _
    have root : (x * x).sqrt.toModel.unpack = .infinity .positive := by
      rw [unpack_sqrt, square]
      exact reread_infinity _
    have ratio : (x / (x * x).sqrt).toModel.unpack = .notANumber := by
      rw [unpack_div, value, root]
      exact reread_notANumber
    refine iff_of_false ?_ ?_
    · rintro ⟨sign, zero⟩
      rw [ratio] at zero
      cases zero
    · rw [value]
      rintro ⟨finite, _⟩
      cases finite
  · rcases mul_self_cases value with zero | square | ⟨l, f, other, square, high⟩
    · obtain ⟨sign, zero⟩ := zero
      have root : (x * x).sqrt.toModel.unpack = .zero sign := by
        rw [unpack_sqrt, zero]
        exact reread_zero _
      have ratio : (x / (x * x).sqrt).toModel.unpack = .infinity (.positive / sign) := by
        rw [unpack_div, value, root]
        exact reread_infinity _
      refine iff_of_false ?_ ?_
      · rintro ⟨sign, zero⟩
        rw [ratio] at zero
        cases zero
      · rw [zero]
        rintro ⟨_, infinite⟩
        exact infinite rfl
    · have root : (x * x).sqrt.toModel.unpack = .infinity .positive := by
        rw [unpack_sqrt, square]
        exact reread_infinity _
      refine iff_of_true ⟨.positive / .positive, ?_⟩ ⟨?_, ?_⟩
      · rw [unpack_div, value, root]
        exact reread_zero _
      · rw [value]
        rfl
      · rw [square]
        exact fun finite => by cases finite
    · obtain ⟨root, place, another, read, _, half⟩ := unpack_sqrt_of_finite square
      have least := (unpack_canonical value).1.least
      have log : l.log2 < 53 := (Nat.log2_lt other.ne').mpr (unpack_canonical square).1.bits
      have long : root.log2 < 53 := (Nat.log2_lt another.ne').mpr (unpack_canonical read).1.bits
      refine iff_of_false (not_isZero_of_pos (div_pos_of_near value read (by omega))) ?_
      rw [square]
      rintro ⟨_, infinite⟩
      exact infinite rfl

end LeastSquares.Double

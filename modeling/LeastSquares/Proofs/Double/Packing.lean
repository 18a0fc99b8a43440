import LeastSquares.Proofs.Double

/-!
# Packed doubles

The result of an operation is packed into a word, and the next operation unpacks it again. A finite
result comes back as it was if it is canonical: its mantissa has 53 bits, or its exponent is the
least one. A result whose exponent is too large comes back as an infinity.
-/

set_option autoImplicit false

namespace LeastSquares.Double

open Float.Model Float.Model.UnpackedFloat

structure Canonical (mantissa : Nat) (exponent : ℤ) : Prop where
  positive : 0 < mantissa
  bits : mantissa < 2 ^ 53
  least : -1074 ≤ exponent
  normal : 2 ^ 52 ≤ mantissa ∨ exponent = -1074

/-! ## Fields of a word -/

theorem unpackSign_packComponents (sign : Sign) (exponent : BitVec 11) (mantissa : BitVec 52) :
    unpackSign (packComponents .binary64 sign exponent mantissa) = sign.toBitVec := by
  change (sign.toBitVec ++ exponent ++ mantissa).extractLsb' 63 1 = sign.toBitVec
  rw [BitVec.extractLsb'_append_eq_of_le (by decide),
    BitVec.extractLsb'_append_eq_of_le (by decide)]
  exact BitVec.extractLsb'_eq_self

theorem ofBitVec_toBitVec (sign : Sign) : Sign.ofBitVec sign.toBitVec = sign := by
  cases sign <;> rfl

theorem toNat_append_mantissa (mantissa : BitVec 52) :
    (1#1 ++ mantissa).toNat = 2 ^ 52 + mantissa.toNat := by
  rw [BitVec.toNat_append, ← Nat.shiftLeft_add_eq_or_of_lt mantissa.isLt]
  rfl

theorem unpack_packComponents_normal (sign : Sign) {exponent : BitVec 11} (mantissa : BitVec 52)
    (notZero : exponent.toNat ≠ 0) (notTop : exponent.toNat ≠ 2047) :
    UnpackedFloat.unpack .binary64 (packComponents .binary64 sign exponent mantissa) =
      .finite sign (2 ^ 52 + mantissa.toNat) (exponent.toNat - 1075)
        (Nat.add_pos_left (by decide) _) := by
  have top : exponent ≠ -1#11 := fun same => notTop (congrArg BitVec.toNat same)
  have zero : exponent ≠ 0#11 := fun same => notZero (congrArg BitVec.toNat same)
  have hidden := toNat_append_mantissa mantissa
  simp only [UnpackedFloat.unpack, unpackMantissa_packComponents, unpackExponent_packComponents,
    unpackSign_packComponents, ofBitVec_toBitVec, if_neg top, if_neg zero]
  congr 1

theorem unpack_packComponents_subnormal (sign : Sign) {mantissa : BitVec 52}
    (positive : 0 < mantissa.toNat) :
    UnpackedFloat.unpack .binary64 (packComponents .binary64 sign 0#11 mantissa) =
      .finite sign mantissa.toNat (-1074) positive := by
  have nonzero : mantissa ≠ 0#52 := fun same => positive.ne' (congrArg BitVec.toNat same)
  have low : (0#11) ≠ -1#11 := by decide
  simp only [UnpackedFloat.unpack, unpackMantissa_packComponents, unpackExponent_packComponents,
    unpackSign_packComponents, ofBitVec_toBitVec, if_neg low, if_true, dif_neg nonzero]
  congr 1

def sign? : UnpackedFloat → Option Sign
  | .notANumber => none
  | .infinity sign => some sign
  | .zero sign => some sign
  | .finite sign _ _ _ => some sign

theorem sign?_unpack_packComponents (sign : Sign) {exponent : BitVec 11} (mantissa : BitVec 52)
    (notTop : exponent.toNat ≠ 2047) :
    sign? (UnpackedFloat.unpack .binary64 (packComponents .binary64 sign exponent mantissa)) =
      some sign := by
  have top : exponent ≠ -1#11 := fun same => notTop (congrArg BitVec.toNat same)
  simp only [UnpackedFloat.unpack, unpackMantissa_packComponents, unpackExponent_packComponents,
    unpackSign_packComponents, ofBitVec_toBitVec, if_neg top]
  split
  · split <;> rfl
  · rfl

/-! ## Reading a result -/

/-- What the next operation reads of a result. -/
def reread (u : UnpackedFloat) : UnpackedFloat :=
  UnpackedFloat.unpack .binary64 (UnpackedFloat.pack .binary64 u)

theorem unpack_add (x y : Float) : (x + y).toModel.unpack =
    reread (UnpackedFloat.add .binary64 x.toModel.unpack y.toModel.unpack) := rfl

theorem unpack_sub (x y : Float) : (x - y).toModel.unpack =
    reread (UnpackedFloat.sub .binary64 x.toModel.unpack y.toModel.unpack) := rfl

theorem unpack_mul (x y : Float) : (x * y).toModel.unpack =
    reread (UnpackedFloat.mul .binary64 x.toModel.unpack y.toModel.unpack) := rfl

theorem unpack_div (x y : Float) : (x / y).toModel.unpack =
    reread (UnpackedFloat.div .binary64 x.toModel.unpack y.toModel.unpack) := rfl

theorem unpack_sqrt (x : Float) : x.sqrt.toModel.unpack =
    reread (UnpackedFloat.sqrt .binary64 x.toModel.unpack) := rfl

theorem unpack_neg (x : Float) : (-x).toModel.unpack = reread x.toModel.unpack.neg := rfl

@[simp] theorem reread_notANumber : reread .notANumber = .notANumber := rfl

@[simp] theorem reread_infinity (sign : Sign) : reread (.infinity sign) = .infinity sign := by
  cases sign <;> rfl

@[simp] theorem reread_zero (sign : Sign) : reread (.zero sign) = .zero sign := by
  cases sign <;> rfl

section Finite

variable {sign : Sign} {mantissa : Nat} {exponent : ℤ} {positive : 0 < mantissa}

theorem reread_overflow (large : 971 < exponent) :
    reread (.finite sign mantissa exponent positive) = .infinity sign := by
  have overflows : 2 ^ Format.binary64.exponentBits ≤ (exponent + Format.binary64.exponentBias +
      Format.binary64.mantissaBitsWithoutImplicit).toNat + 1 := by
    change 2048 ≤ (exponent + 1023 + 52).toNat + 1
    omega
  simp only [reread, UnpackedFloat.pack, if_pos overflows]
  exact reread_infinity sign

theorem pack_fits (fits : exponent ≤ 971) :
    UnpackedFloat.pack .binary64 (.finite sign mantissa exponent positive) =
      if mantissa.log2 = 52 then
        packComponents .binary64 sign (BitVec.ofNat 11 (exponent + 1075).toNat)
          (BitVec.ofNat 52 mantissa)
      else packComponents .binary64 sign 0#11 (BitVec.ofNat 52 mantissa) := by
  have room : ¬ 2048 ≤ (exponent + 1023 + 52).toNat + 1 := by omega
  have bias : exponent + 1023 + 52 = exponent + 1075 := by ring
  have whole : mantissa.log2 + 1 = 53 ↔ mantissa.log2 = 52 := by omega
  change (if 2048 ≤ (exponent + 1023 + 52).toNat + 1 then packedInfinity .binary64 sign
    else if mantissa.log2 + 1 = 53 then
      packComponents .binary64 sign (BitVec.ofNat 11 (exponent + 1023 + 52).toNat)
        (BitVec.ofNat 52 mantissa)
    else packComponents .binary64 sign 0#11 (BitVec.ofNat 52 mantissa)) = _
  rw [if_neg room, bias]
  simp only [whole]

theorem reread_canonical (canonical : Canonical mantissa exponent) (fits : exponent ≤ 971) :
    reread (.finite sign mantissa exponent positive) = .finite sign mantissa exponent positive := by
  have bits := canonical.bits
  have least := canonical.least
  rw [reread, pack_fits fits]
  by_cases normal : 2 ^ 52 ≤ mantissa
  · have log : mantissa.log2 = 52 := (Nat.log2_eq_iff positive.ne').mpr ⟨normal, bits⟩
    have field : (BitVec.ofNat 11 (exponent + 1075).toNat).toNat = (exponent + 1075).toNat := by
      rw [BitVec.toNat_ofNat, Nat.mod_eq_of_lt (by omega)]
    have rest : (BitVec.ofNat 52 mantissa).toNat = mantissa - 2 ^ 52 := by
      rw [BitVec.toNat_ofNat]
      omega
    rw [if_pos log, unpack_packComponents_normal _ _ (by omega) (by omega)]
    congr 1
    · omega
    · omega
  · obtain rfl := canonical.normal.resolve_left normal
    have log : ¬ mantissa.log2 = 52 := by
      have small : mantissa.log2 < 52 := (Nat.log2_lt positive.ne').mpr (by omega)
      omega
    have rest : (BitVec.ofNat 52 mantissa).toNat = mantissa := by
      rw [BitVec.toNat_ofNat, Nat.mod_eq_of_lt (by omega)]
    rw [if_neg log, unpack_packComponents_subnormal _ (by omega)]
    congr 1

theorem sign?_reread_finite :
    sign? (reread (.finite sign mantissa exponent positive)) = some sign := by
  by_cases fits : exponent ≤ 971
  · have field : (BitVec.ofNat 11 (exponent + 1075).toNat).toNat ≠ 2047 := by
      rw [BitVec.toNat_ofNat, Nat.mod_eq_of_lt (by omega)]
      omega
    rw [reread, pack_fits fits]
    split
    · exact sign?_unpack_packComponents sign _ field
    · exact sign?_unpack_packComponents sign _ (by decide)
  · rw [reread_overflow (not_le.mp fits)]
    rfl

theorem reread_ne_zero (bits : mantissa < 2 ^ 53) (least : -1074 ≤ exponent) (other : Sign) :
    reread (.finite sign mantissa exponent positive) ≠ .zero other := by
  by_cases fits : exponent ≤ 971
  · rw [reread, pack_fits fits]
    split
    · rw [unpack_packComponents_normal _ _ (by rw [BitVec.toNat_ofNat]; omega)
        (by rw [BitVec.toNat_ofNat]; omega)]
      exact fun same => by cases same
    · rename_i short
      have small : mantissa < 2 ^ 52 := by
        by_contra large
        exact short ((Nat.log2_eq_iff positive.ne').mpr ⟨not_lt.mp large, bits⟩)
      rw [unpack_packComponents_subnormal _ (by rw [BitVec.toNat_ofNat]; omega)]
      exact fun same => by cases same
  · rw [reread_overflow (not_le.mp fits)]
    exact fun same => by cases same

theorem unpack_canonical {x : Float}
    (finite : x.toModel.unpack = .finite sign mantissa exponent positive) :
    Canonical mantissa exponent ∧ exponent ≤ 971 := by
  have word : (@unpackMantissa .binary64 x.toModel.toBits.toBitVec).toNat < 2 ^ 52 :=
    (@unpackMantissa .binary64 x.toModel.toBits.toBitVec).isLt
  have field : (@unpackExponent .binary64 x.toModel.toBits.toBitVec).toNat < 2048 :=
    (@unpackExponent .binary64 x.toModel.toBits.toBitVec).isLt
  have bias : (Format.binary64.exponentBias : ℤ) = 1023 := by decide
  simp only [Float.Model.unpack, UnpackedFloat.unpack] at finite
  split at finite
  · split at finite <;> cases finite
  rename_i notTop
  split at finite
  · rename_i zero
    split at finite
    · cases finite
    · cases finite
      rw [zero]
      exact ⟨⟨positive, by omega, by decide, .inr (by decide)⟩, by decide⟩
  · rename_i nonzero
    cases finite
    have low : (@unpackExponent .binary64 x.toModel.toBits.toBitVec).toNat ≠ 0 :=
      fun same => nonzero (BitVec.eq_of_toNat_eq same)
    have high : (@unpackExponent .binary64 x.toModel.toBits.toBitVec).toNat ≠ 2047 :=
      fun same => notTop (BitVec.eq_of_toNat_eq same)
    have hidden := toNat_append_mantissa
      (@unpackMantissa .binary64 x.toModel.toBits.toBitVec)
    refine ⟨⟨positive, ?_, ?_, .inl ?_⟩, ?_⟩ <;> omega

end Finite

theorem sign?_reread (u : UnpackedFloat) : sign? (reread u) = sign? u := by
  cases u with
  | notANumber => rw [reread_notANumber]
  | infinity sign => rw [reread_infinity]
  | zero sign => rw [reread_zero]
  | finite sign mantissa exponent positive => exact sign?_reread_finite

end LeastSquares.Double

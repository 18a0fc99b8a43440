import LeastSquares.Proofs.Double.Special

/-!
# Zeros and signs

A zero stays zero when it is multiplied by a finite double, and zeros add up to zero; where
infinities may come in, what becomes of zeros is zero or no number. A sum of squares, whatever is
summed, is not below zero, and neither is the quotient of doubles with the same sign.
-/

set_option autoImplicit false

namespace LeastSquares.Double

open Float.Model Float.Model.UnpackedFloat

/-! ## Zeros -/

def IsZero (x : Float) : Prop := ∃ sign, x.toModel.unpack = .zero sign

section Zero

variable {x y : Float}

theorem position_eq_zero_iff (u : UnpackedFloat) :
    position u = some (toLex (0, toLex (0, 0))) ↔ ∃ sign, u = .zero sign := by
  cases u with
  | notANumber => simp [position]
  | infinity sign => cases sign <;> simp [position]
  | zero sign => simp [position]
  | finite sign _ _ _ => cases sign <;> simp [position]

theorem beq_zero_iff (x : Float) : (x == 0) = true ↔ IsZero x := by
  rw [beq_iff, IsZero, ← position_eq_zero_iff, zero_unpack]
  constructor
  · rintro ⟨a, same, zero⟩
    exact same.trans zero.symm
  · intro zero
    exact ⟨_, zero, rfl⟩

theorem IsZero.lt_iff (zero : IsZero y) : x < y ↔ x < 0 :=
  Scalar.Ordered.lt_congr_right (Scalar.Ordered.position_of_beq ((beq_zero_iff y).mpr zero))

theorem isZero_zero : IsZero 0 := ⟨_, zero_unpack⟩

theorem IsZero.beq (left : IsZero x) (right : IsZero y) : (x == y) = true :=
  (beq_iff x y).mpr
    ⟨_, (position_eq_zero_iff _).mpr left, (position_eq_zero_iff _).mpr right⟩

theorem IsZero.of_neg (zero : IsZero (-x)) : IsZero x := by
  obtain ⟨sign, zero⟩ := zero
  rw [unpack_neg] at zero
  cases unpacked : x.toModel.unpack with
  | notANumber =>
      rw [unpacked] at zero
      cases zero
  | infinity s =>
      rw [unpacked, UnpackedFloat.neg, reread_infinity] at zero
      cases zero
  | zero s => exact ⟨s, unpacked⟩
  | finite s mantissa exponent positive =>
      have canonical := (unpack_canonical unpacked).1
      rw [unpacked, UnpackedFloat.neg] at zero
      exact absurd zero (reread_ne_zero canonical.bits canonical.least sign)

theorem IsZero.add (left : IsZero x) (right : IsZero y) : IsZero (x + y) := by
  obtain ⟨s, left⟩ := left
  obtain ⟨t, right⟩ := right
  rw [IsZero, unpack_add, left, right]
  cases s <;> cases t <;> exact ⟨_, reread_zero _⟩

theorem IsZero.sub (left : IsZero x) (right : IsZero y) : IsZero (x - y) := by
  obtain ⟨s, left⟩ := left
  obtain ⟨t, right⟩ := right
  rw [IsZero, unpack_sub, left, right]
  cases s <;> cases t <;> exact ⟨_, reread_zero _⟩

theorem IsZero.mul_left (zero : IsZero y) (finite : x.isFinite = true) : IsZero (x * y) := by
  obtain ⟨t, zero⟩ := zero
  rw [IsZero, unpack_mul, zero]
  rcases finite_cases finite with ⟨s, value⟩ | ⟨s, m, e, some, value⟩
  · rw [value]
    exact ⟨_, reread_zero _⟩
  · rw [value]
    exact ⟨_, reread_zero _⟩

theorem IsZero.mul_right (zero : IsZero x) (finite : y.isFinite = true) : IsZero (x * y) := by
  obtain ⟨t, zero⟩ := zero
  rw [IsZero, unpack_mul, zero]
  rcases finite_cases finite with ⟨s, value⟩ | ⟨s, m, e, some, value⟩
  · rw [value]
    exact ⟨_, reread_zero _⟩
  · rw [value]
    exact ⟨_, reread_zero _⟩

theorem IsZero.isFinite (zero : IsZero x) : x.isFinite = true := by
  obtain ⟨sign, zero⟩ := zero
  rw [isFinite_iff, zero]
  rfl

theorem IsZero.div (zero : IsZero x) (finite : y.isFinite = true) (nonzero : ¬ IsZero y) :
    IsZero (x / y) := by
  obtain ⟨t, zero⟩ := zero
  rw [IsZero, unpack_div, zero]
  rcases finite_cases finite with ⟨s, value⟩ | ⟨s, m, e, some, value⟩
  · exact absurd ⟨s, value⟩ nonzero
  · rw [value]
    exact ⟨_, reread_zero _⟩

theorem IsZero.sqrt (zero : IsZero x) : IsZero (Scalar.sqrt x) := by
  obtain ⟨sign, zero⟩ := zero
  change ∃ sign, x.sqrt.toModel.unpack = .zero sign
  rw [unpack_sqrt, zero]
  exact ⟨_, reread_zero _⟩

/-! ## Zero or no number -/

/-- Whether a double is zero or no number at all. -/
def Vacant (x : Float) : Prop := IsZero x ∨ Scalar.isNaN x = true

theorem vacant_zero : Vacant 0 := .inl isZero_zero

theorem Vacant.isZero (vacant : Vacant x) (number : Scalar.isNaN x = false) : IsZero x := by
  rcases vacant with zero | missing
  · exact zero
  · rw [missing] at number
    cases number

theorem Vacant.mul_left (vacant : Vacant y) (x : Float) : Vacant (x * y) := by
  rcases vacant with zero | missing
  · cases finite : x.isFinite with
    | true => exact .inl (zero.mul_left finite)
    | false =>
        -- An infinity times zero is no number.
        refine .inr ?_
        obtain ⟨sign, zero⟩ := zero
        rcases nonfinite_cases finite with missing | value | value
        · exact isNaN_mul_left missing
        · rw [isNaN_iff, unpack_mul, value, zero]
          exact reread_notANumber
        · rw [isNaN_iff, unpack_mul, value, zero]
          exact reread_notANumber
  · exact .inr (isNaN_mul_right missing)

theorem Vacant.div (vacant : Vacant x) (y : Float) : Vacant (x / y) := by
  rcases vacant with ⟨sign, zero⟩ | missing
  · cases value : y.toModel.unpack with
    | notANumber =>
        refine .inr ?_
        rw [isNaN_iff, unpack_div, zero, value]
        exact reread_notANumber
    | infinity other =>
        refine .inl ⟨sign / other, ?_⟩
        rw [unpack_div, zero, value]
        exact reread_zero _
    | zero other =>
        refine .inr ?_
        rw [isNaN_iff, unpack_div, zero, value]
        exact reread_notANumber
    | finite other _ _ _ =>
        refine .inl ⟨sign / other, ?_⟩
        rw [unpack_div, zero, value]
        exact reread_zero _
  · exact .inr (isNaN_div_left missing)

theorem Vacant.add (left : Vacant x) (right : Vacant y) : Vacant (x + y) := by
  rcases left with zero | missing
  · exact right.imp zero.add isNaN_add_right
  · exact .inr (isNaN_add_left missing)

theorem Vacant.sub (left : Vacant x) (right : Vacant y) : Vacant (x - y) := by
  rcases left with zero | missing
  · exact right.imp zero.sub isNaN_sub_right
  · exact .inr (isNaN_sub_left missing)

/-! ## Sums of zeros -/

variable {n : Nat}

theorem isZero_addOver {start : Float} {p : Fin n → Bool} {f : Fin n → Float}
    (first : IsZero start) (zeros : ∀ i, p i = true → IsZero (f i)) :
    IsZero (Scalar.addOver start p f) := by
  refine foldl_carries _ (fun _ sum => IsZero sum) start first fun k sum known => ?_
  by_cases counted : p k = true
  · rw [if_pos counted]
    exact known.add (zeros k counted)
  · rw [if_neg counted]
    exact known

theorem isZero_sumSquares {p : Fin n → Bool} {v : Vector Float n}
    (zeros : ∀ i, p i = true → IsZero (v i)) : IsZero (Scalar.sumSquares p v) := by
  refine isZero_addOver ⟨.negative, by rfl⟩ fun i counted => ?_
  exact (zeros i counted).mul_left (zeros i counted).isFinite

end Zero

/-! ## Not below zero -/

/-- Whether an unpacked double is not below zero. `NaN` is not. -/
def NotBelow (u : UnpackedFloat) : Prop := (∃ sign, u = .zero sign) ∨ sign? u ≠ some .negative

theorem lt_zero_iff (x : Float) : x < 0 ↔ ¬ NotBelow x.toModel.unpack := by
  rw [lt_iff, zero_unpack, NotBelow]
  cases x.toModel.unpack with
  | notANumber => simp [position, sign?]
  | infinity sign => cases sign <;> simp [position, sign?, Prod.Lex.toLex_lt_toLex]
  | zero sign => simp [position]
  | finite sign m e some => cases sign <;> simp [position, sign?, Prod.Lex.toLex_lt_toLex]

theorem not_lt_zero_of_notBelow {x : Float} (high : NotBelow x.toModel.unpack) : ¬ x < 0 :=
  fun below => (lt_zero_iff x).mp below high

theorem notBelow_of_not_lt_zero {x : Float} (high : ¬ x < 0) : NotBelow x.toModel.unpack :=
  not_not.mp fun low => high ((lt_zero_iff x).mpr low)

theorem sign?_of_lt_zero {x : Float} (below : x < 0) : sign? x.toModel.unpack = some .negative := by
  by_contra other
  exact not_lt_zero_of_notBelow (.inr other) below

theorem NotBelow.reread {u : UnpackedFloat} (high : NotBelow u) : NotBelow (reread u) := by
  obtain ⟨sign, rfl⟩ | other := high
  · exact .inl ⟨sign, reread_zero sign⟩
  · refine .inr ?_
    rw [sign?_reread]
    exact other

theorem notBelow_mul_self (u : UnpackedFloat) : NotBelow (UnpackedFloat.mul .binary64 u u) := by
  have square (sign : Sign) : sign * sign = .positive := by cases sign <;> rfl
  refine .inr ?_
  cases u with
  | notANumber => simp [UnpackedFloat.mul, sign?]
  | infinity sign => simp [UnpackedFloat.mul, sign?, square]
  | zero sign => simp [UnpackedFloat.mul, sign?, square]
  | finite sign m e some => simp [UnpackedFloat.mul, sign?_roundWithAccuracy, square]

theorem positive_of_notBelow {sign : Sign} {m : Nat} {e : ℤ} {some : 0 < m}
    (high : NotBelow (.finite sign m e some)) : sign = .positive := by
  obtain ⟨other, same⟩ | high := high
  · cases same
  · cases sign with
    | negative => exact absurd rfl high
    | positive => rfl

theorem normalize_of_pos {m : ℤ} (some : 0 < m) (e : ℤ) (zeroSign : Sign) :
    UnpackedFloat.normalize .binary64 m e zeroSign =
      UnpackedFloat.round .binary64 .positive m.toNat e := by
  rw [UnpackedFloat.normalize, Int.compare_eq_gt.mpr some]

theorem shiftLeft_pos {m : Nat} (some : 0 < m) (k : Nat) : 0 < m <<< k := by
  rw [Nat.shiftLeft_eq]
  positivity

theorem add_shifted_pos {m l : Nat} (some : 0 < m) (other : 0 < l) (k j : Nat) :
    0 < Sign.positive.apply (m <<< k : Nat) + Sign.positive.apply (l <<< j : Nat) :=
  Int.add_pos (Int.natCast_pos.mpr (shiftLeft_pos some k))
    (Int.natCast_pos.mpr (shiftLeft_pos other j))

theorem NotBelow.add {u v : UnpackedFloat} (left : NotBelow u) (right : NotBelow v) :
    NotBelow (UnpackedFloat.add .binary64 u v) := by
  cases u with
  | notANumber =>
      rw [add_notANumber_left]
      exact left
  | infinity s =>
      cases v with
      | notANumber =>
          rw [add_notANumber_right]
          exact right
      | infinity t =>
          simp only [UnpackedFloat.add]
          split
          · exact left
          · exact .inr (by simp [sign?])
      | zero t => exact left
      | finite t _ _ _ => exact left
  | zero s =>
      cases v with
      | notANumber =>
          rw [add_notANumber_right]
          exact right
      | infinity t => exact right
      | zero t =>
          simp only [UnpackedFloat.add]
          split <;> exact .inl ⟨_, rfl⟩
      | finite t _ _ _ => exact right
  | finite s m e some =>
      cases v with
      | notANumber =>
          rw [add_notANumber_right]
          exact right
      | infinity t => exact right
      | zero t => exact left
      | finite t l f other =>
          obtain rfl := positive_of_notBelow left
          obtain rfl := positive_of_notBelow right
          have sum := add_shifted_pos some other (e - min e f).toNat (f - min e f).toNat
          refine .inr ?_
          simp only [UnpackedFloat.add, decreaseExponent, normalize_of_pos sum, UnpackedFloat.round,
            sign?_roundWithAccuracy]
          simp

theorem isNotBelow_sumSquares {n : Nat} (p : Fin n → Bool) (v : Vector Float n) :
    NotBelow (Scalar.sumSquares p v).toModel.unpack := by
  refine foldl_carries _ (fun _ (sum : Float) => NotBelow sum.toModel.unpack) _
    (.inl ⟨.negative, rfl⟩) fun k sum known => ?_
  split
  · rw [unpack_add]
    exact (known.add (by rw [unpack_mul]; exact (notBelow_mul_self _).reread)).reread
  · exact known

theorem not_sumSquares_lt_zero {n : Nat} (p : Fin n → Bool) (v : Vector Float n) :
    ¬ Scalar.sumSquares p v < 0 :=
  not_lt_zero_of_notBelow (isNotBelow_sumSquares p v)

/-! ## Signs of quotients -/

theorem notBelow_sqrt (u : UnpackedFloat) : NotBelow (UnpackedFloat.sqrt .binary64 u) := by
  cases u with
  | notANumber => exact .inr (by simp [UnpackedFloat.sqrt, sign?])
  | infinity sign => cases sign <;> exact .inr (by simp [UnpackedFloat.sqrt, sign?])
  | zero sign => exact .inl ⟨sign, rfl⟩
  | finite sign m e some =>
      cases sign with
      | negative => exact .inr (by simp [UnpackedFloat.sqrt, sign?])
      | positive => exact .inr (by simp [UnpackedFloat.sqrt, sign?_roundWithAccuracy])

theorem sign?_neg (u : UnpackedFloat) : sign? u.neg = (sign? u).map (-·) := by
  cases u <;> rfl

theorem sign?_div (u v : UnpackedFloat) : sign? (UnpackedFloat.div .binary64 u v) = none ∨
    ∃ s t, sign? u = some s ∧ sign? v = some t ∧
      sign? (UnpackedFloat.div .binary64 u v) = some (s / t) := by
  cases u <;> cases v
  case finite.finite => exact .inr ⟨_, _, rfl, rfl, sign?_roundWithAccuracy _ _ _ _⟩
  all_goals simp [UnpackedFloat.div, sign?]

theorem notBelow_div {u v : UnpackedFloat}
    (same : ∀ s t, sign? u = some s → sign? v = some t → s = t) :
    NotBelow (UnpackedFloat.div .binary64 u v) := by
  refine .inr ?_
  rcases sign?_div u v with none | ⟨s, t, left, right, sign⟩
  · rw [none]
    exact fun other => by cases other
  · obtain rfl := same s t left right
    rw [sign]
    cases s <;> exact fun other => by cases other

theorem notBelow_zero_div {sign : Sign} {v : UnpackedFloat} (nonzero : ∀ other, v ≠ .zero other) :
    NotBelow (UnpackedFloat.div .binary64 (.zero sign) v) := by
  cases v with
  | notANumber => exact .inr (by simp [UnpackedFloat.div, sign?])
  | infinity other => exact .inl ⟨_, rfl⟩
  | zero other => exact absurd rfl (nonzero other)
  | finite other m e some => exact .inl ⟨_, rfl⟩

theorem add_one_ne_zero {x : Float} (high : NotBelow x.toModel.unpack) : ¬ IsZero (x + 1) := by
  have one : (1 : Float).toModel.unpack = .finite .positive (2 ^ 52) (-52) (by decide) := by rfl
  rintro ⟨zeroSign, zero⟩
  rw [unpack_add, one] at zero
  cases value : x.toModel.unpack with
  | notANumber =>
      rw [value, add_notANumber_left] at zero
      cases zero
  | infinity sign =>
      rw [value] at zero
      exact absurd ((reread_infinity sign).symm.trans zero) (by simp)
  | zero sign =>
      rw [value] at zero
      exact reread_ne_zero (by decide) (by decide) zeroSign zero
  | finite sign m e some =>
      rw [value] at high zero
      obtain rfl := positive_of_notBelow high
      have least := (unpack_canonical value).1.least
      have sum := add_shifted_pos some (show 0 < 2 ^ 52 by decide) (e - min e (-52)).toNat
        (-52 - min e (-52)).toNat
      simp only [UnpackedFloat.add, decreaseExponent, normalize_of_pos sum,
        UnpackedFloat.round] at zero
      refine reread_roundWithAccuracy_ne_zero .positive zeroSign .exact ?_ ?_ zero
      · exact shiftLeft_pos (by omega) _
      · rw [targetExponent_eq]
        omega

end LeastSquares.Double

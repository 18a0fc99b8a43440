import LeastSquares.Proofs.Double.Rounding
import LeastSquares.Proofs.Loop

/-!
# Infinities and NaN

What becomes of the doubles that are not finite does not depend on rounding. A `NaN` is passed on by
every operation, and so by every sum, and no comparison with it holds. The infinities bound all
other numbers, and there are only finitely many of these, so none can be lowered for ever.
-/

set_option autoImplicit false

namespace LeastSquares.Double

open Float.Model Float.Model.UnpackedFloat

/-! ## NaN -/

theorem position_eq_none_iff (u : UnpackedFloat) : position u = none ↔ u = .notANumber := by
  cases u with
  | notANumber => exact ⟨fun _ => rfl, fun _ => rfl⟩
  | infinity sign => cases sign <;> simp [position]
  | zero sign => simp [position]
  | finite sign _ _ _ => cases sign <;> simp [position]

theorem isNaN_iff (x : Float) : Scalar.isNaN x = true ↔ x.toModel.unpack = .notANumber := by
  rw [← position_eq_none_iff, ← Option.not_isSome_iff_eq_none, ← Bool.not_eq_false,
    Scalar.Ordered.isNaN_eq_false_iff]
  exact Iff.rfl

theorem add_notANumber_left (u : UnpackedFloat) :
    UnpackedFloat.add .binary64 .notANumber u = .notANumber := by cases u <;> rfl

theorem add_notANumber_right (u : UnpackedFloat) :
    UnpackedFloat.add .binary64 u .notANumber = .notANumber := by cases u <;> rfl

theorem mul_notANumber_left (u : UnpackedFloat) :
    UnpackedFloat.mul .binary64 .notANumber u = .notANumber := by cases u <;> rfl

theorem mul_notANumber_right (u : UnpackedFloat) :
    UnpackedFloat.mul .binary64 u .notANumber = .notANumber := by cases u <;> rfl

theorem div_notANumber_left (u : UnpackedFloat) :
    UnpackedFloat.div .binary64 .notANumber u = .notANumber := by cases u <;> rfl

section NaN

variable {x y : Float}

theorem isNaN_add_left (missing : Scalar.isNaN x = true) : Scalar.isNaN (x + y) = true := by
  rw [isNaN_iff] at missing ⊢
  rw [unpack_add, missing, add_notANumber_left, reread_notANumber]

theorem isNaN_add_right (missing : Scalar.isNaN y = true) : Scalar.isNaN (x + y) = true := by
  rw [isNaN_iff] at missing ⊢
  rw [unpack_add, missing, add_notANumber_right, reread_notANumber]

theorem isNaN_sub_left (missing : Scalar.isNaN x = true) : Scalar.isNaN (x - y) = true := by
  rw [isNaN_iff] at missing ⊢
  rw [unpack_sub, missing]
  cases y.toModel.unpack <;> exact reread_notANumber

theorem isNaN_sub_right (missing : Scalar.isNaN y = true) : Scalar.isNaN (x - y) = true := by
  rw [isNaN_iff] at missing ⊢
  rw [unpack_sub, missing]
  cases x.toModel.unpack <;> exact reread_notANumber

theorem isNaN_mul_right (missing : Scalar.isNaN y = true) : Scalar.isNaN (x * y) = true := by
  rw [isNaN_iff] at missing ⊢
  rw [unpack_mul, missing, mul_notANumber_right, reread_notANumber]

theorem isNaN_mul_left (missing : Scalar.isNaN x = true) : Scalar.isNaN (x * y) = true := by
  rw [isNaN_iff] at missing ⊢
  rw [unpack_mul, missing, mul_notANumber_left, reread_notANumber]

theorem isNaN_div_left (missing : Scalar.isNaN x = true) : Scalar.isNaN (x / y) = true := by
  rw [isNaN_iff] at missing ⊢
  rw [unpack_div, missing, div_notANumber_left, reread_notANumber]

theorem isNaN_sqrt (missing : Scalar.isNaN x = true) : Scalar.isNaN (Scalar.sqrt x) = true := by
  rw [isNaN_iff] at missing ⊢
  change x.sqrt.toModel.unpack = _
  rw [unpack_sqrt, missing]
  rfl

theorem not_lt_of_isNaN_left (missing : Scalar.isNaN x = true) : ¬ x < y := by
  rw [isNaN_iff] at missing
  rw [lt_iff, missing]
  rintro ⟨_, _, none, _⟩
  cases none

theorem not_lt_of_isNaN_right (missing : Scalar.isNaN y = true) : ¬ x < y := by
  rw [isNaN_iff] at missing
  rw [lt_iff, missing]
  rintro ⟨_, _, _, none, _⟩
  cases none

theorem not_le_of_isNaN_left (missing : Scalar.isNaN x = true) : ¬ x ≤ y := fun atMost => by
  rw [(Scalar.Ordered.number_of_le atMost).1] at missing
  cases missing

theorem beq_of_isNaN (missing : Scalar.isNaN x = true) : (x == y) = false := by
  rw [isNaN_iff] at missing
  rw [Bool.eq_false_iff, ne_eq, beq_iff, missing]
  rintro ⟨_, none, _⟩
  cases none

theorem isNaN_min (left : Scalar.isNaN x = true) (right : Scalar.isNaN y = true) :
    Scalar.isNaN (Scalar.min x y) = true := by
  rcases Scalar.Ordered.min_choice x y with same | same
  · rw [same]
    exact left
  · rw [same]
    exact right

variable {n : Nat}

theorem isNaN_addOver (start : Float) {p : Fin n → Bool} {f : Fin n → Float} {i : Fin n}
    (counted : p i = true) (missing : Scalar.isNaN (f i) = true) :
    Scalar.isNaN (Scalar.addOver start p f) = true := by
  refine foldl_carries _ (fun k sum => i.val < k → Scalar.isNaN sum = true) start
    (fun before => absurd before (Nat.not_lt_zero _)) (fun k sum known after => ?_) i.isLt
  by_cases here : k = i
  · subst here
    rw [if_pos counted]
    exact isNaN_add_right missing
  · have earlier := known (by omega)
    split
    · exact isNaN_add_left earlier
    · exact earlier

theorem isNaN_norm {p : Fin n → Bool} {v : Vector Float n} {i : Fin n} (counted : p i = true)
    (missing : Scalar.isNaN (v i) = true) : Scalar.isNaN (Scalar.norm p v) = true :=
  isNaN_sqrt (isNaN_addOver _ counted (isNaN_mul_left missing))

end NaN

/-! ## Finite doubles -/

theorem isFinite_iff (x : Float) : x.isFinite = true ↔ x.toModel.unpack.isFinite = true := Iff.rfl

theorem number_of_isFinite {x : Float} (finite : x.isFinite = true) : Scalar.isNaN x = false := by
  rw [Bool.eq_false_iff, ne_eq, isNaN_iff]
  intro missing
  rw [isFinite_iff, missing] at finite
  cases finite

theorem finite_cases {x : Float} (finite : x.isFinite = true) :
    (∃ sign, x.toModel.unpack = .zero sign) ∨
      ∃ sign m e some, x.toModel.unpack = .finite sign m e some := by
  rw [isFinite_iff] at finite
  cases value : x.toModel.unpack with
  | notANumber =>
      rw [value] at finite
      cases finite
  | infinity sign =>
      rw [value] at finite
      cases finite
  | zero sign => exact .inl ⟨sign, rfl⟩
  | finite sign m e some => exact .inr ⟨sign, m, e, some, rfl⟩

theorem ne_infinity_of_le {x y : Float} (finite : y.isFinite = true) (atMost : x ≤ y) :
    x.toModel.unpack ≠ .infinity .positive := by
  intro top
  obtain ⟨a, b, left, right, below⟩ := (le_iff _ _).mp atMost
  rw [top] at left
  cases left
  rcases finite_cases finite with ⟨sign, value⟩ | ⟨sign, m, e, some, value⟩
  · rw [value] at right
    cases right
    simp [Prod.Lex.toLex_le_toLex] at below
  · rw [value] at right
    cases sign <;> cases right <;> simp [Prod.Lex.toLex_le_toLex] at below

theorem nonfinite_cases {x : Float} (outside : x.isFinite = false) :
    Scalar.isNaN x = true ∨ x.toModel.unpack = .infinity .positive ∨
      x.toModel.unpack = .infinity .negative := by
  rw [isNaN_iff]
  cases value : x.toModel.unpack with
  | notANumber => exact .inl rfl
  | infinity sign => cases sign <;> simp
  | zero sign =>
      have finite : x.isFinite = true := by rw [isFinite_iff, value]; rfl
      rw [finite] at outside
      cases outside
  | finite sign _ _ _ =>
      have finite : x.isFinite = true := by rw [isFinite_iff, value]; rfl
      rw [finite] at outside
      cases outside

theorem position_le_top {u : UnpackedFloat} {a : ℤ ×ₗ ℤ ×ₗ ℤ} (place : position u = some a) :
    toLex (-2, toLex (0, 0)) ≤ a ∧ a ≤ toLex (2, toLex (0, 0)) := by
  cases u with
  | notANumber => cases place
  | infinity sign => cases sign <;> cases place <;> simp [Prod.Lex.toLex_le_toLex]
  | zero sign => cases place; simp [Prod.Lex.toLex_le_toLex]
  | finite sign _ _ _ => cases sign <;> cases place <;> simp [Prod.Lex.toLex_le_toLex]

theorem not_infinity_lt {x y : Float} (top : x.toModel.unpack = .infinity .positive) : ¬ x < y := by
  intro below
  obtain ⟨a, b, left, right, less⟩ := (lt_iff _ _).mp below
  rw [top] at left
  cases left
  exact absurd less (not_lt.mpr (position_le_top right).2)

theorem lt_infinity {x y : Float} (number : Scalar.isNaN x = false)
    (bounded : x.toModel.unpack ≠ .infinity .positive)
    (top : y.toModel.unpack = .infinity .positive) : x < y := by
  rw [lt_iff, top]
  cases value : x.toModel.unpack with
  | notANumber =>
      rw [(isNaN_iff x).mpr value] at number
      cases number
  | infinity sign =>
      cases sign with
      | negative => exact ⟨_, _, rfl, rfl, by simp [Prod.Lex.toLex_lt_toLex]⟩
      | positive => exact absurd value bounded
  | zero sign => exact ⟨_, _, rfl, rfl, by simp [Prod.Lex.toLex_lt_toLex]⟩
  | finite sign _ _ _ =>
      cases sign <;> exact ⟨_, _, rfl, rfl, by simp [Prod.Lex.toLex_lt_toLex]⟩

theorem not_lt_infinity {x y : Float} (bottom : y.toModel.unpack = .infinity .negative) :
    ¬ x < y := by
  intro below
  obtain ⟨a, b, left, right, less⟩ := (lt_iff _ _).mp below
  rw [bottom] at right
  cases right
  exact absurd less (not_lt.mpr (position_le_top left).1)

theorem isFinite_of_between {x y : Float} (finite : y.isFinite = true) (below : x < y)
    (normal : ¬ x < Scalar.minPositive) : x.isFinite = true := by
  have bounded := ne_infinity_of_le finite (Scalar.Ordered.le_of_lt below)
  have number := (Scalar.Ordered.number_of_le (Scalar.Ordered.le_of_lt below)).1
  rw [isFinite_iff]
  cases value : x.toModel.unpack with
  | notANumber =>
      rw [(isNaN_iff x).mpr value] at number
      cases number
  | infinity sign =>
      cases sign with
      | negative =>
          refine absurd (lt_of_low ?_ minPositive_unpack) normal
          rw [value]
          exact ⟨.negative, .inr rfl⟩
      | positive => exact absurd value bounded
  | zero sign => rfl
  | finite sign _ _ _ => rfl

/-- There are only finitely many doubles, so none of them descend for ever. -/
instance finite_double : Finite Float :=
  Finite.of_injective (fun x : Float => x.toModel.toBits.toBitVec) fun x y same => by
    obtain ⟨⟨⟨⟩, _⟩⟩ := x
    obtain ⟨⟨⟨⟩, _⟩⟩ := y
    cases same
    rfl

theorem wellFounded_lt : WellFounded fun x y : Float => x < y :=
  have : IsTrans Float (· < ·) := ⟨fun _ _ _ => Scalar.Ordered.lt_trans⟩
  have : Std.Irrefl (α := Float) (· < ·) := ⟨Scalar.Ordered.lt_irrefl⟩
  Finite.wellFounded_of_trans_of_irrefl _

end LeastSquares.Double

import Mathlib.Tactic.LinearCombination
import LeastSquares.Proofs.QR.Triangular
import LeastSquares.QR.Damped

/-!
# Folding rows into a triangle

A Givens rotation mixes one row of the triangle with the extra row. A row is looked at through its
defect at `(z, t)`, its product with `z` minus `t` times its right-hand side. Rotations leave sums
of products of two defects alone, which is at once the Gram matrix and the residual. After the last
one nothing of the extra row is left but its right-hand side.
-/

set_option autoImplicit false

namespace LeastSquares

variable {m n : Nat}

/-! ## One rotation -/

theorem half_div_sqrt (t : ℝ) :
    0.5 / √(0.25 + 0.25 * t * t) * (0.5 / √(0.25 + 0.25 * t * t)) * (1 + t * t) = 1 := by
  have positive : 0 < 0.25 + 0.25 * t * t := by nlinarith [mul_self_nonneg t]
  rw [div_mul_div_comm, Real.mul_self_sqrt positive.le, div_mul_eq_mul_div,
    div_eq_one_iff_eq positive.ne']
  ring

theorem givens_spec (a : ℝ) {b : ℝ} (nonzero : b ≠ 0) :
    (givens a b).1 * (givens a b).1 + (givens a b).2 * (givens a b).2 = 1 ∧
      -(givens a b).2 * a + (givens a b).1 * b = 0 := by
  simp only [givens, Scalar.abs_real, Scalar.sqrt_real]
  split
  · have unit := half_div_sqrt (a / b)
    refine ⟨by linear_combination unit, ?_⟩
    simp only
    rw [neg_mul, mul_assoc _ (a / b) b, div_mul_cancel₀ a nonzero, neg_add_cancel]
  · rename_i large
    have other : a ≠ 0 := by
      rintro rfl
      rw [abs_zero] at large
      exact large (abs_pos.mpr nonzero)
    have unit := half_div_sqrt (b / a)
    refine ⟨by linear_combination unit, ?_⟩
    simp only
    rw [neg_mul, mul_assoc, div_mul_cancel₀ b other, neg_add_cancel]

theorem sum_exchange {f g : Fin n → ℝ} {k : Fin n} (same : ∀ i, i ≠ k → f i = g i) :
    ∑ i, f i + g k = ∑ i, g i + f k := by
  have rest : ∑ i ∈ Finset.univ.erase k, f i = ∑ i ∈ Finset.univ.erase k, g i :=
    Finset.sum_congr rfl fun i other => same i (Finset.ne_of_mem_erase other)
  rw [← Finset.add_sum_erase _ f (Finset.mem_univ k),
    ← Finset.add_sum_erase _ g (Finset.mem_univ k), rest]
  ring

namespace Triangle

/-- The defect of row `k` at `(z, t)`. -/
def defect (S : Triangle ℝ n) (k : Fin n) (z : Fin n → ℝ) (t : ℝ) : ℝ :=
  ∑ i, S.entry k i * z i - t * S.rhs k

def pairing (S : Triangle ℝ n) (z : Fin n → ℝ) (t : ℝ) (w : Fin n → ℝ) (u : ℝ) : ℝ :=
  ∑ k, S.defect k z t * S.defect k w u

end Triangle

namespace Folding

variable {S : Folding ℝ n}

/-- The defect of the extra row, of which only the entries from position `start` on count. -/
def extraDefect (S : Folding ℝ n) (start : Nat) (z : Fin n → ℝ) (t : ℝ) : ℝ :=
  ∑ i : Fin n, (if start ≤ i.val then S.extra i else 0) * z i - t * S.carried

def pairing (S : Folding ℝ n) (start : Nat) (z : Fin n → ℝ) (t : ℝ) (w : Fin n → ℝ) (u : ℝ) : ℝ :=
  S.toTriangle.pairing z t w u + S.extraDefect start z t * S.extraDefect start w u

theorem extraDefect_end (S : Folding ℝ n) (z : Fin n → ℝ) (t : ℝ) :
    S.extraDefect n z t = -(t * S.carried) := by
  have none (i : Fin n) : (if n ≤ i.val then S.extra i else 0) * z i = 0 := by
    rw [if_neg (not_le.mpr i.isLt), zero_mul]
  rw [extraDefect, Finset.sum_congr rfl fun i _ => none i, Finset.sum_const_zero, zero_sub]

theorem rotate_of_zero {k : Fin n} (zero : S.extra k = 0) : S.rotate k = S := by
  rw [rotate, if_pos (beq_iff_eq.mpr zero)]

section Rotate

variable {k : Fin n} (nonzero : S.extra k ≠ 0)

include nonzero

theorem rotate_entry (i j : Fin n) : (S.rotate k).entry i j =
    if i = k then
      if k ≤ j then (givens (S.entry k k) (S.extra k)).1 * S.entry k j +
        (givens (S.entry k k) (S.extra k)).2 * S.extra j else S.entry k j
    else S.entry i j := by
  rw [rotate, if_neg (by simpa using nonzero), Triangle.entry]
  simp only [Vector.get_set, eq_comm (a := k) (b := i)]
  split
  · exact Vector.get_ofFn _ _
  · rfl

theorem rotate_rhs (i : Fin n) : (S.rotate k).rhs i =
    if i = k then (givens (S.entry k k) (S.extra k)).1 * S.rhs k +
      (givens (S.entry k k) (S.extra k)).2 * S.carried else S.rhs i := by
  rw [rotate, if_neg (by simpa using nonzero)]
  simp only [Vector.get_set, eq_comm (a := k) (b := i)]
  rfl

theorem rotate_extra (i : Fin n) : (S.rotate k).extra i =
    if k < i then -(givens (S.entry k k) (S.extra k)).2 * S.entry k i +
      (givens (S.entry k k) (S.extra k)).1 * S.extra i else S.extra i := by
  rw [rotate, if_neg (by simpa using nonzero)]
  exact Vector.get_ofFn _ _

theorem rotate_carried : (S.rotate k).carried =
    -(givens (S.entry k k) (S.extra k)).2 * S.rhs k +
      (givens (S.entry k k) (S.extra k)).1 * S.carried := by
  rw [rotate, if_neg (by simpa using nonzero)]
  rfl

theorem rotate_defect (upper : Upper S.entry) (z : Fin n → ℝ) (t : ℝ) :
    (S.rotate k).defect k z t = (givens (S.entry k k) (S.extra k)).1 * S.defect k z t +
      (givens (S.entry k k) (S.extra k)).2 * S.extraDefect k z t := by
  have term (i : Fin n) : (S.rotate k).entry k i * z i =
      (givens (S.entry k k) (S.extra k)).1 * (S.entry k i * z i) +
        (givens (S.entry k k) (S.extra k)).2 *
          ((if k.val ≤ i.val then S.extra i else 0) * z i) := by
    rw [rotate_entry nonzero, if_pos rfl]
    by_cases late : k ≤ i
    · rw [if_pos late, if_pos (show k.val ≤ i.val from late)]
      ring
    · rw [if_neg late, if_neg (show ¬ k.val ≤ i.val from late), upper k i (not_le.mp late)]
      ring
  rw [Triangle.defect, Triangle.defect, extraDefect, Finset.sum_congr rfl fun i _ => term i,
    Finset.sum_add_distrib, ← Finset.mul_sum, ← Finset.mul_sum, rotate_rhs nonzero, if_pos rfl]
  ring

theorem rotate_defect_of_ne {j : Fin n} (other : j ≠ k) (z : Fin n → ℝ) (t : ℝ) :
    (S.rotate k).defect j z t = S.defect j z t := by
  have term (i : Fin n) : (S.rotate k).entry j i * z i = S.entry j i * z i := by
    rw [rotate_entry nonzero, if_neg other]
  rw [Triangle.defect, Triangle.defect, Finset.sum_congr rfl fun i _ => term i, rotate_rhs nonzero,
    if_neg other]

theorem rotate_extraDefect (upper : Upper S.entry) (z : Fin n → ℝ) (t : ℝ) :
    (S.rotate k).extraDefect (k + 1) z t =
      -(givens (S.entry k k) (S.extra k)).2 * S.defect k z t +
        (givens (S.entry k k) (S.extra k)).1 * S.extraDefect k z t := by
  have cleared := (givens_spec (S.entry k k) nonzero).2
  have term (i : Fin n) : (if k.val + 1 ≤ i.val then (S.rotate k).extra i else 0) * z i =
      -(givens (S.entry k k) (S.extra k)).2 * (S.entry k i * z i) +
        (givens (S.entry k k) (S.extra k)).1 *
          ((if k.val ≤ i.val then S.extra i else 0) * z i) := by
    rcases lt_trichotomy i k with before | same | behind
    · rw [if_neg (by omega), if_neg (by omega), upper k i before]
      ring
    · subst same
      rw [if_neg (by omega), if_pos le_rfl]
      linear_combination -z i * cleared
    · rw [if_pos (show k.val + 1 ≤ i.val from behind), if_pos (by omega), rotate_extra nonzero,
        if_pos behind]
      ring
  rw [Triangle.defect, extraDefect, extraDefect, Finset.sum_congr rfl fun i _ => term i,
    Finset.sum_add_distrib, ← Finset.mul_sum, ← Finset.mul_sum, rotate_carried nonzero]
  ring

end Rotate

theorem rotate_upper {k : Fin n} (upper : Upper S.entry) : Upper (S.rotate k).entry := by
  intro i j below
  by_cases zero : S.extra k = 0
  · rw [rotate_of_zero zero]
    exact upper i j below
  · rw [rotate_entry zero]
    by_cases same : i = k
    · rw [if_pos same, if_neg (not_le.mpr (same ▸ below)), ← same]
      exact upper i j below
    · rw [if_neg same]
      exact upper i j below

/-- A rotation leaves the pairing alone, and one more entry of the extra row does not count. -/
theorem rotate_pairing {k : Fin n} (upper : Upper S.entry) (z : Fin n → ℝ) (t : ℝ) (w : Fin n → ℝ)
    (u : ℝ) : (S.rotate k).pairing (k + 1) z t w u = S.pairing k z t w u := by
  by_cases zero : S.extra k = 0
  · have skipped (v : Fin n → ℝ) (r : ℝ) : S.extraDefect (k + 1) v r = S.extraDefect k v r := by
      refine congrArg (· - r * S.carried) (Finset.sum_congr rfl fun i _ => ?_)
      rcases lt_trichotomy i k with before | same | behind
      · rw [if_neg (by omega), if_neg (by omega)]
      · rw [same, zero, ite_self, ite_self]
      · rw [if_pos (show k.val + 1 ≤ i.val from behind), if_pos (by omega)]
    rw [rotate_of_zero zero, pairing, pairing, skipped, skipped]
  · obtain ⟨unit, _⟩ := givens_spec (S.entry k k) zero
    have exchanged := sum_exchange (k := k)
      (f := fun j => (S.rotate k).defect j z t * (S.rotate k).defect j w u)
      (g := fun j => S.defect j z t * S.defect j w u) fun j other => by
        rw [rotate_defect_of_ne zero other, rotate_defect_of_ne zero other]
    simp only [rotate_defect zero upper] at exchanged
    rw [pairing, pairing, Triangle.pairing, Triangle.pairing, rotate_extraDefect zero upper,
      rotate_extraDefect zero upper]
    linear_combination exchanged +
      (S.defect k z t * S.defect k w u + S.extraDefect k z t * S.extraDefect k w u) * unit

end Folding

/-! ## A row, and all rows -/

namespace Triangle

noncomputable def withExtra (S : Triangle ℝ n) (j : Fin n) (d : ℝ) : Folding ℝ n :=
  { S with extra := Vector.ofFn fun i => if i = j then d else 0, carried := 0 }

theorem withExtra_extraDefect (S : Triangle ℝ n) (j : Fin n) (d : ℝ) (z : Fin n → ℝ) (t : ℝ) :
    (S.withExtra j d).extraDefect j z t = d * z j := by
  have term (i : Fin n) : (if j.val ≤ i.val then (S.withExtra j d).extra i else 0) * z i =
      if i = j then d * z j else 0 := by
    rw [withExtra, Vector.get_ofFn]
    by_cases same : i = j
    · rw [same, if_pos le_rfl, if_pos rfl, if_pos rfl]
    · rw [if_neg same, if_neg same, ite_self, zero_mul]
  rw [Folding.extraDefect, Finset.sum_congr rfl fun i _ => term i, Finset.sum_ite_eq',
    if_pos (Finset.mem_univ j)]
  exact (congrArg (d * z j - ·) (mul_zero t)).trans (sub_zero _)

theorem foldl_rotate (j : Fin n) {S : Folding ℝ n} (upper : Upper S.entry) :
    let T := Fin.foldl n (fun T k => if j ≤ k then T.rotate k else T) S
    Upper T.entry ∧ ∃ rest : ℝ, ∀ z t w u,
      T.toTriangle.pairing z t w u + t * u * rest = S.pairing j z t w u := by
  intro T
  -- The rotations start at `j`: before that, the entries of the extra row that count do not change.
  let folded (p : Nat) (T : Folding ℝ n) : Prop := Upper T.entry ∧ ∀ z t w u,
    T.pairing (max j.val p) z t w u = S.pairing j z t w u
  have all : folded n T := by
    refine foldl_carries _ folded _ ⟨upper, fun z t w u => ?_⟩ fun k T holds => ?_
    · rw [Nat.max_zero]
    · obtain ⟨keeps, pairs⟩ := holds
      split
      · rename_i late
        have here : max j.val k.val = k.val := max_eq_right late
        have next : max j.val (k.val + 1) = k.val + 1 := max_eq_right (Nat.le_succ_of_le late)
        refine ⟨T.rotate_upper keeps, fun z t w u => ?_⟩
        rw [next, T.rotate_pairing keeps, ← pairs, here]
      · rename_i early
        have before : k.val < j.val := not_le.mp early
        have same : max j.val (k.val + 1) = max j.val k.val := by omega
        refine ⟨keeps, fun z t w u => ?_⟩
        rw [same]
        exact pairs z t w u
  obtain ⟨keeps, pairs⟩ := all
  rw [max_eq_right j.isLt.le] at pairs
  refine ⟨keeps, T.carried * T.carried, fun z t w u => ?_⟩
  rw [← pairs, Folding.pairing, Folding.extraDefect_end, Folding.extraDefect_end, neg_mul_neg,
    mul_mul_mul_comm]

theorem fold_pairing {S : Triangle ℝ n} (upper : Upper S.entry) (j : Fin n) (d : ℝ) :
    Upper (S.fold j d).entry ∧ ∃ rest : ℝ, ∀ z t w u,
      (S.fold j d).pairing z t w u + t * u * rest = S.pairing z t w u + d * d * (z j * w j) := by
  rw [fold]
  split
  · rename_i zero
    refine ⟨upper, 0, fun z t w u => ?_⟩
    rw [beq_iff_eq.mp zero]
    ring
  · obtain ⟨keeps, rest, pairs⟩ := foldl_rotate j (S := S.withExtra j d) upper
    refine ⟨keeps, rest, fun z t w u => (pairs z t w u).trans ?_⟩
    rw [Folding.pairing, withExtra_extraDefect, withExtra_extraDefect, mul_mul_mul_comm]
    rfl

end Triangle

namespace Factorization

variable (F : Factorization ℝ m n) (c d : Vector ℝ n)

theorem triangle_upper : Upper (F.triangle c).entry := by
  intro i j below
  rw [triangle, Triangle.entry, Vector.get_ofFn, Vector.get_ofFn]
  exact F.r_of_gt below

theorem dampedTriangle_pairing : Upper (F.dampedTriangle c d).entry ∧ ∃ rest : ℝ, ∀ z t w u,
    (F.dampedTriangle c d).pairing z t w u + t * u * rest = (F.triangle c).pairing z t w u +
      ∑ j, d (F.perm.get j) * d (F.perm.get j) * (z j * w j) := by
  let partly (p : Nat) (S : Triangle ℝ n) : Prop := Upper S.entry ∧ ∃ rest : ℝ, ∀ z t w u,
    S.pairing z t w u + t * u * rest = (F.triangle c).pairing z t w u +
      ∑ j : Fin n, if j.val < p then d (F.perm.get j) * d (F.perm.get j) * (z j * w j) else 0
  have all : partly n (F.dampedTriangle c d) := by
    refine foldl_carries _ partly _ ⟨F.triangle_upper c, 0, fun z t w u => ?_⟩ fun k S holds => ?_
    · simp
    · obtain ⟨keeps, rest, pairs⟩ := holds
      obtain ⟨upper, more, folds⟩ := Triangle.fold_pairing keeps k (d (F.perm.get k))
      refine ⟨upper, rest + more, fun z t w u => ?_⟩
      have grown := sum_exchange (k := k)
        (f := fun j : Fin n => if j.val < k.val + 1 then
          d (F.perm.get j) * d (F.perm.get j) * (z j * w j) else 0)
        (g := fun j : Fin n => if j.val < k.val then
          d (F.perm.get j) * d (F.perm.get j) * (z j * w j) else 0) fun j other => by
          by_cases before : j.val < k.val
          · rw [if_pos before, if_pos (Nat.lt_succ_of_lt before)]
          · rw [if_neg before, if_neg (by omega)]
      rw [if_pos (Nat.lt_succ_self k.val), if_neg (lt_irrefl k.val), add_zero] at grown
      rw [grown]
      linear_combination folds z t w u + pairs z t w u
  obtain ⟨keeps, rest, pairs⟩ := all
  refine ⟨keeps, rest, fun z t w u => (pairs z t w u).trans ?_⟩
  refine congrArg (_ + ·) (Finset.sum_congr rfl fun j _ => ?_)
  rw [if_pos j.isLt]

end Factorization

end LeastSquares

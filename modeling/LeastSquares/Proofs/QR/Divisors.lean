import LeastSquares.Proofs.QR.Damped
import LeastSquares.Proofs.QR.MinimumNorm

/-!
# What is divided by

Beside each function of the linear algebra that divides stands the list of the divisors that it
comes to, at the states that it comes to, and the divisors of the functions that it calls. In exact
arithmetic none of them is zero: a step of a reduction is made with a norm that is not zero and
leaves a reflector with a positive lead, the diagonal of `R` is not zero in front of the rank, and a
rotation divides by the larger of two numbers of which one is not zero.
-/

set_option autoImplicit false

namespace LeastSquares

/-! ## What a loop looks at -/

section Trail

variable {σ β : Type} {n : Nat}

/-- What a loop has `seen` at the states before its passes, in order. -/
def trail (step : σ → Fin n → σ) (seen : σ → Fin n → List β) (start : σ) : List β :=
  (Fin.foldl n (fun (past : σ × List β) k => (step past.1 k, past.2 ++ seen past.1 k))
    (start, [])).2

theorem trail_state (step : σ → Fin n → σ) (seen : σ → Fin n → List β) (start : σ) :
    (Fin.foldl n (fun (past : σ × List β) k => (step past.1 k, past.2 ++ seen past.1 k))
      (start, [])).1 = Fin.foldl n step start := by
  induction n with
  | zero => simp
  | succ n ih =>
      rw [Fin.foldl_succ_last, Fin.foldl_succ_last]
      exact congrArg (step · (Fin.last n))
        (ih (fun s k => step s k.castSucc) fun s k => seen s k.castSucc)

theorem trail_succ (step : σ → Fin (n + 1) → σ) (seen : σ → Fin (n + 1) → List β) (start : σ) :
    trail step seen start =
      trail (fun s k => step s k.castSucc) (fun s k => seen s k.castSucc) start ++
        seen (Fin.foldl n (fun s k => step s k.castSucc) start) (Fin.last n) := by
  have state := trail_state (fun s (k : Fin n) => step s k.castSucc)
    (fun s k => seen s k.castSucc) start
  rw [trail, Fin.foldl_succ_last, ← state]
  rfl

theorem forall_trail {P : β → Prop} {step : σ → Fin n → σ} {seen : σ → Fin n → List β}
    (here : ∀ s k, ∀ d ∈ seen s k, P d) (start : σ) : ∀ d ∈ trail step seen start, P d := by
  induction n with
  | zero =>
      intro d member
      simp [trail] at member
  | succ n ih =>
      intro d member
      rw [trail_succ] at member
      rcases List.mem_append.mp member with before | last
      · exact ih (fun s k => here s k.castSucc) d before
      · exact here _ _ d last

theorem foldl_eq_of_trail {P : β → Prop} {step other : σ → Fin n → σ}
    {seen : σ → Fin n → List β} (same : ∀ s k, (∀ d ∈ seen s k, P d) → other s k = step s k)
    {start : σ} (clear : ∀ d ∈ trail step seen start, P d) :
    Fin.foldl n other start = Fin.foldl n step start := by
  induction n with
  | zero => rfl
  | succ n ih =>
      rw [trail_succ] at clear
      have before := ih (fun s k => same s k.castSucc) fun d member =>
        clear d (List.mem_append_left _ member)
      rw [Fin.foldl_succ_last, Fin.foldl_succ_last, before]
      exact same _ _ fun d member => clear d (List.mem_append_right _ member)

end Trail

variable {α : Type} [Scalar α] {m n : Nat}

/-! ## The divisors of a factorization -/

def substitutionDivisors (bound : Nat) (U : Fin n → Fin n → α) : List α :=
  ((List.finRange n).filter fun j => j.val < bound).map fun j => U j j

def PivotColumn.reflectDivisors (v : Vector α m) (k : Fin m) (c : PivotColumn α m n) : List α :=
  v k :: if 0 < c.reference then [c.reference] else []

namespace Reduction

def eliminateDivisors (S : Reduction α m n) (k : Fin (min m n)) : List α :=
  let row := stepRow k
  let c := S.cols (stepCol k)
  let norm := Reflector.signedLike (c.entries row) (Reflector.tailNorm c.entries row)
  let v := Reflector.normalize norm c.entries row
  norm :: ((List.finRange n).filter (stepCol k < ·)).flatMap fun j =>
    (S.cols j).reflectDivisors v row

theorem step_lt {t k : Nat} (h : k + (t + 1) = min m n) : k < min m n := by omega

theorem steps_left {t k : Nat} (h : k + (t + 1) = min m n) : k + 1 + t = min m n := by omega

theorem all_steps : 0 + min m n = min m n := Nat.zero_add _

def reduceDivisors : (t k : Nat) → k + t = min m n → Reduction α m n → List α
  | 0, _, _, _ => []
  | t + 1, k, h, S =>
    let step : Fin (min m n) := ⟨k, step_lt h⟩
    let S := S.bringPivot (stepCol step)
    if S.exhausted step then []
    else S.eliminateDivisors step ++ reduceDivisors t (k + 1) (steps_left h) (S.eliminate step)

end Reduction

namespace Factorization

def ofMatrixDivisors (A : DenseMatrix α m n) : List α :=
  Reduction.reduceDivisors (min m n) 0 Reduction.all_steps (Reduction.ofMatrix A)

def reflectDivisors (F : Factorization α m n) : List α :=
  (List.finRange F.rank).map fun k =>
    let step : Fin (min m n) := k.castLE F.rank_le
    F.packed.get (stepRow step) (stepCol step)

def minimumNormDivisors (F : Factorization α m n) : List α :=
  if F.rank = 0 then []
  else ofMatrixDivisors F.lower ++
    if F.rank < F.inner.rank then []
    else substitutionDivisors F.inner.rank F.inner.r ++ F.inner.reflectDivisors

end Factorization

/-! ## The divisors of a damped solve -/

def givensDivisors (a b : α) : List α :=
  if Scalar.abs a < Scalar.abs b then [b, Scalar.sqrt (0.25 + 0.25 * (a / b) * (a / b))]
  else [a, Scalar.sqrt (0.25 + 0.25 * (b / a) * (b / a))]

def Folding.rotateDivisors (S : Folding α n) (k : Fin n) : List α :=
  if S.extra k == 0 then [] else givensDivisors (S.rows k k) (S.extra k)

namespace Triangle

def foldDivisors (S : Triangle α n) (j : Fin n) (d : α) : List α :=
  if d == 0 then []
  else trail (fun (S : Folding α n) k => if j ≤ k then S.rotate k else S)
    (fun S k => if j ≤ k then S.rotateDivisors k else [])
    { S with extra := Vector.ofFn fun i => if i = j then d else 0, carried := 0 }

def solveDivisors (S : Triangle α n) : List α := substitutionDivisors S.leading S.entry

end Triangle

def Factorization.dampedTriangleDivisors (F : Factorization α m n) (c d : Vector α n) : List α :=
  trail (fun (S : Triangle α n) j => S.fold j (d (F.perm.get j)))
    (fun S j => S.foldDivisors j (d (F.perm.get j))) (F.triangle c)

/-! ## None of them is zero -/

theorem mem_substitutionDivisors {bound : Nat} {U : Fin n → Fin n → ℝ} {d : ℝ} :
    d ∈ substitutionDivisors bound U ↔ ∃ j : Fin n, j.val < bound ∧ U j j = d := by
  simp [substitutionDivisors]

theorem PivotColumn.reflectDivisors_ne_zero {v : Vector ℝ m} {k : Fin m} (lead : v k ≠ 0)
    (c : PivotColumn ℝ m n) : ∀ d ∈ c.reflectDivisors v k, d ≠ 0 := by
  intro d member
  rcases List.mem_cons.mp member with rfl | reference
  · exact lead
  · split at reference
    · rename_i positive
      rw [List.mem_singleton.mp reference]
      exact positive.ne'
    · cases reference

namespace Reduction

theorem eliminateDivisors_ne_zero {S : Reduction ℝ m n} {k : Fin (min m n)}
    (usable : S.exhausted k = false) : ∀ d ∈ S.eliminateDivisors k, d ≠ 0 := by
  intro d member
  rcases List.mem_cons.mp member with rfl | member
  · exact signedNorm_ne_zero usable
  · obtain ⟨j, _, member⟩ := List.mem_flatMap.mp member
    exact PivotColumn.reflectDivisors_ne_zero (reflector_proper usable).lead_pos.ne' _ d member

theorem reduceDivisors_ne_zero (t k : Nat) (h : k + t = min m n) (S : Reduction ℝ m n) :
    ∀ d ∈ reduceDivisors t k h S, d ≠ 0 := by
  induction t generalizing k S with
  | zero =>
      intro d member
      cases member
  | succ t ih =>
      intro d member
      rw [reduceDivisors] at member
      split at member
      · cases member
      · rename_i usable
        rcases List.mem_append.mp member with here | later
        · exact eliminateDivisors_ne_zero (Bool.eq_false_iff.mpr usable) d here
        · exact ih (k + 1) _ _ d later

end Reduction

namespace Factorization

variable {F : Factorization ℝ m n} {A : DenseMatrix ℝ m n}

theorem Factors.reflectDivisors_ne_zero (factors : F.Factors A) :
    ∀ d ∈ F.reflectDivisors, d ≠ 0 := by
  intro d member
  obtain ⟨k, _, rfl⟩ := List.mem_map.mp member
  have lead := (factors.proper (k.castLE F.rank_le) k.isLt).lead_pos.ne'
  rwa [stored, DenseMatrix.col, Vector.get_ofFn] at lead

theorem Factors.substitutionDivisors_ne_zero (factors : F.Factors A) :
    ∀ d ∈ substitutionDivisors F.rank F.r, d ≠ 0 := by
  intro d member
  obtain ⟨j, inside, rfl⟩ := mem_substitutionDivisors.mp member
  exact factors.r_diag_ne_zero j inside

theorem minimumNormDivisors_ne_zero (F : Factorization ℝ m n) :
    ∀ d ∈ F.minimumNormDivisors, d ≠ 0 := by
  intro d member
  rw [minimumNormDivisors] at member
  split at member
  · cases member
  · rcases List.mem_append.mp member with made | solved
    · exact Reduction.reduceDivisors_ne_zero _ _ _ _ d made
    · split at solved
      · cases solved
      · rcases List.mem_append.mp solved with pivot | lead
        · exact F.inner_factors.substitutionDivisors_ne_zero d pivot
        · exact F.inner_factors.reflectDivisors_ne_zero d lead

end Factorization

theorem sqrt_quarter_ne_zero (t : ℝ) : Scalar.sqrt (0.25 + 0.25 * t * t) ≠ 0 := by
  have positive : 0 < 0.25 + 0.25 * t * t := by nlinarith [mul_self_nonneg t]
  exact (Real.sqrt_pos.mpr positive).ne'

theorem givensDivisors_ne_zero (a : ℝ) {b : ℝ} (nonzero : b ≠ 0) :
    ∀ d ∈ givensDivisors a b, d ≠ 0 := by
  intro d member
  rw [givensDivisors] at member
  split at member
  · rcases List.mem_cons.mp member with rfl | root
    · exact nonzero
    · rw [List.mem_singleton.mp root]
      exact sqrt_quarter_ne_zero _
  · rename_i large
    have other : a ≠ 0 := by
      rintro rfl
      rw [Scalar.abs_real, Scalar.abs_real, abs_zero] at large
      exact large (abs_pos.mpr nonzero)
    rcases List.mem_cons.mp member with rfl | root
    · exact other
    · rw [List.mem_singleton.mp root]
      exact sqrt_quarter_ne_zero _

theorem Folding.rotateDivisors_ne_zero (S : Folding ℝ n) (k : Fin n) :
    ∀ d ∈ S.rotateDivisors k, d ≠ 0 := by
  intro d member
  rw [rotateDivisors] at member
  split at member
  · cases member
  · rename_i nonzero
    exact givensDivisors_ne_zero _ (fun zero => nonzero (beq_iff_eq.mpr zero)) d member

namespace Triangle

theorem foldDivisors_ne_zero (S : Triangle ℝ n) (j : Fin n) (d : ℝ) :
    ∀ e ∈ S.foldDivisors j d, e ≠ 0 := by
  intro e member
  rw [foldDivisors] at member
  split at member
  · cases member
  · refine forall_trail (P := (· ≠ 0)) (fun S k e seen => ?_) _ e member
    split at seen
    · exact S.rotateDivisors_ne_zero k e seen
    · cases seen

theorem ne_zero_of_lt_leading {S : Triangle ℝ n} {j : Fin n} (inside : j.val < S.leading) :
    S.entry j j ≠ 0 := by
  let clear (k bound : Nat) : Prop := k ≤ j.val → j.val < bound → S.entry j j ≠ 0
  have all : clear 0 S.leading := by
    refine foldr_carries _ clear n (fun outside => absurd j.isLt (not_lt.mpr outside))
      fun k bound known behind inside => ?_
    split at inside
    · exact absurd inside (not_lt.mpr behind)
    · rename_i nonzero
      rcases Nat.eq_or_lt_of_le behind with same | later
      · obtain rfl : k = j := Fin.ext same
        exact fun zero => nonzero (beq_iff_eq.mpr zero)
      · exact known later inside
  exact all (Nat.zero_le _) inside

theorem solveDivisors_ne_zero (S : Triangle ℝ n) : ∀ d ∈ S.solveDivisors, d ≠ 0 := by
  intro d member
  obtain ⟨j, inside, rfl⟩ := mem_substitutionDivisors.mp member
  exact ne_zero_of_lt_leading inside

end Triangle

theorem Factorization.dampedTriangleDivisors_ne_zero (F : Factorization ℝ m n) (c d : Vector ℝ n) :
    ∀ e ∈ F.dampedTriangleDivisors c d, e ≠ 0 :=
  forall_trail (fun S j => S.foldDivisors_ne_zero j _) _

end LeastSquares

import LeastSquares.Proofs.QR.Padding

/-!
# Columns of zeros

A column of doubles that is zero stays zero through all steps of a reduction, wherever the steps
move it: a finite reflector leaves zeros zero. It has no norm, so no step can be made with it, and
it ends up behind the rank. All it takes is that the reflectors are finite; how the search for the
pivot breaks ties does not matter.

`Reached A k S` says that the reduction of `A` is in the state `S` once it has made `k` steps.
-/

set_option autoImplicit false

namespace LeastSquares

open Double

variable {m n : Nat}

namespace Reduction

/-! ## The states of a reduction -/

section Reached

variable {α : Type} [Scalar α] {A : DenseMatrix α m n} {S : Reduction α m n} {k : Nat}

inductive Reached (A : DenseMatrix α m n) : Nat → Reduction α m n → Prop
  | start : Reached A 0 (.ofMatrix A)
  | step {S : Reduction α m n} (s : Fin (min m n)) (before : Reached A s S)
      (usable : (S.bringPivot (stepCol s)).exhausted s = false) :
      Reached A (s + 1) ((S.bringPivot (stepCol s)).eliminate s)

theorem Reached.resumes (reached : Reached A k S) :
    ∃ t, ∃ h : k + t = min m n, A.reduce = reduceFrom t k h S := by
  induction reached with
  | start => exact ⟨min m n, Nat.zero_add _, rfl⟩
  | step s _ usable ih =>
      obtain ⟨t, h, same⟩ := ih
      cases t with
      | zero => omega
      | succ t =>
          refine ⟨t, by omega, ?_⟩
          rw [same, reduceFrom, if_neg (ne_true_of_eq_false usable)]

theorem Reached.le_rank (reached : Reached A k S) : k ≤ (Factorization.ofMatrix A).rank := by
  obtain ⟨t, h, same⟩ := reached.resumes
  have bound := le_rank_reduceFrom t k h S
  rw [← same] at bound
  exact bound

theorem Reached.packed (reached : Reached A k S) {j : Fin n} (finished : j.val < k) (i : Fin m) :
    (Factorization.ofMatrix A).packed.get i j = (S.cols j).entries i := by
  obtain ⟨t, h, same⟩ := reached.resumes
  rw [Factorization.ofMatrix_packed, same, reduceFrom_finished t k h S finished]

/-- A reduction ends in a state that it has reached, or one exchange of columns later. -/
theorem Reached.reduceFrom (t k : Nat) (h : k + t = min m n) (reached : Reached A k S) :
    ∃ last, Reached A (reduceFrom t k h S).rank last ∧
      ((reduceFrom t k h S).toReduction = last ∨ ∃ s : Fin (min m n),
        s.val = (Reduction.reduceFrom t k h S).rank ∧
          (Reduction.reduceFrom t k h S).toReduction = last.bringPivot (stepCol s)) := by
  induction t generalizing k S with
  | zero => exact ⟨S, reached, .inl rfl⟩
  | succ t ih =>
      let step : Fin (min m n) := ⟨k, by omega⟩
      rw [Reduction.reduceFrom]
      by_cases exhausted : (S.bringPivot (stepCol step)).exhausted step = true
      · rw [if_pos exhausted]
        exact ⟨S, reached, .inr ⟨step, rfl, rfl⟩⟩
      · rw [if_neg exhausted]
        exact ih (k + 1) _ (.step step reached (Bool.eq_false_iff.mpr exhausted))

end Reached

/-! ## Passing over a column -/

variable {A : DenseMatrix Float m n} {S : Reduction Float m n} {k : Nat} {p : Fin n}

/-- The column that comes from position `p` is blank, and no step was made with it. -/
def PassesOver (S : Reduction Float m n) (k : Nat) (p : Fin n) : Prop :=
  ∀ j, (S.cols j).source = p → k ≤ j.val ∧ (S.cols j).Blank

theorem ofMatrix_passesOver (zeros : ∀ i, IsZero (A.get i p)) : (ofMatrix A).PassesOver 0 p := by
  intro j source
  have column : (ofMatrix A).cols j = .ofColumn (A.col j) j := Vector.get_ofFn _ _
  rw [column] at source ⊢
  obtain rfl : j = p := source
  refine ⟨Nat.zero_le _, PivotColumn.ofColumn_blank (fun i => ?_) j⟩
  rw [DenseMatrix.col, Vector.get_ofFn]
  exact zeros i

theorem PassesOver.bringPivot {s : Fin n} (passes : S.PassesOver s p) :
    (S.bringPivot s).PassesOver s p := by
  intro j source
  rw [bringPivot_cols] at source ⊢
  obtain ⟨behind, blank⟩ := passes _ source
  refine ⟨?_, blank⟩
  by_contra before
  have pivot := S.le_pivot s
  have fixed : Equiv.swap s (S.pivot s) j = j :=
    Equiv.swap_apply_of_ne_of_ne (fun same => by omega) (fun same => by omega)
  rw [fixed] at behind
  exact before behind

theorem PassesOver.eliminate {s : Fin (min m n)} (passes : S.PassesOver s p)
    (usable : S.exhausted s = false)
    (finite : ∀ i, stepRow s ≤ i → (S.storedBy s i).isFinite = true) :
    (S.eliminate s).PassesOver (s + 1) p := by
  intro j source
  rw [eliminate_source] at source
  obtain ⟨behind, blank⟩ := passes j source
  rcases Nat.eq_or_lt_of_le behind with same | later
  · obtain rfl : stepCol s = j := Fin.ext same
    rw [exhausted_of_blank blank] at usable
    cases usable
  · rw [eliminate_later (show stepCol s < j from later)]
    exact ⟨later, blank.reflect finite (storedBy_lead usable)⟩

end Reduction

namespace Factorization

/-- All that the factorization stores of its reflectors is finite. -/
def FiniteReflectors (F : Factorization Float m n) : Prop :=
  ∀ step : Fin (min m n), step.val < F.rank → ∀ i, stepRow step ≤ i →
    (F.packed.get i (stepCol step)).isFinite = true

end Factorization

namespace Reduction

variable {A : DenseMatrix Float m n} {S : Reduction Float m n} {k : Nat} {p : Fin n}

theorem Reached.storedBy_finite {s : Fin (min m n)}
    (reached : Reached A (s + 1) ((S.bringPivot (stepCol s)).eliminate s))
    (finite : (Factorization.ofMatrix A).FiniteReflectors) (i : Fin m) (below : stepRow s ≤ i) :
    ((S.bringPivot (stepCol s)).storedBy s i).isFinite = true := by
  have stored := reached.packed (j := stepCol s) (Nat.lt_succ_self s) i
  rw [storedBy, ← stored]
  exact finite s reached.le_rank i below

theorem Reached.passesOver (finite : (Factorization.ofMatrix A).FiniteReflectors)
    (zeros : ∀ i, IsZero (A.get i p)) (reached : Reached A k S) : S.PassesOver k p := by
  induction reached with
  | start => exact ofMatrix_passesOver zeros
  | step s before usable ih =>
      have stored := (Reached.step s before usable).storedBy_finite finite
      exact PassesOver.eliminate ih.bringPivot usable stored

theorem reduce_passesOver (finite : (Factorization.ofMatrix A).FiniteReflectors)
    (zeros : ∀ i, IsZero (A.get i p)) : A.reduce.toReduction.PassesOver A.reduce.rank p := by
  obtain ⟨last, reached, ended⟩ := Reached.start.reduceFrom (A := A) _ _ (Nat.zero_add (min m n))
  have passes := reached.passesOver finite zeros
  rcases ended with same | ⟨s, edge, same⟩
  · rw [DenseMatrix.reduce, same]
    exact passes
  · rw [← edge] at passes
    rw [DenseMatrix.reduce, same, ← edge]
    exact PassesOver.bringPivot passes

def Fronted (S : Reduction Float m n) (bound : Nat) : Prop :=
  ∀ j : Fin n, j.val < bound → (S.cols j).source.val < bound

theorem Fronted.bringPivot {bound : Nat} (fronted : S.Fronted bound) (padded : S.Padded bound)
    {s : Fin n} (atMost : s.val ≤ bound) : (S.bringPivot s).Fronted bound := by
  intro j front
  rw [bringPivot_cols]
  apply fronted
  rcases Nat.eq_or_lt_of_le atMost with edge | inside
  · have pivot := S.le_pivot s
    rw [Equiv.swap_apply_of_ne_of_ne (fun same => by omega) (fun same => by omega)]
    exact front
  · have pivot := padded.pivot_lt inside
    rw [Equiv.swap_apply_def]
    split
    · exact pivot
    · split
      · exact inside
      · exact front

/-- No step gets to the padding. -/
theorem Reached.padded {bound : Nat} (finite : (Factorization.ofMatrix A).FiniteReflectors)
    (zeros : ∀ (i : Fin m) (j : Fin n), bound ≤ j.val → IsZero (A.get i j))
    (reached : Reached A k S) : k ≤ bound ∧ S.Padded bound ∧ S.Fronted bound := by
  induction reached with
  | start =>
      refine ⟨Nat.zero_le _, ofMatrix_padded zeros, fun j front => ?_⟩
      simpa [ofMatrix, PivotColumn.ofColumn] using front
  | step s before usable ih =>
      obtain ⟨atMost, padded, fronted⟩ := ih
      have front : s.val < bound := by
        refine lt_of_le_of_ne atMost fun edge => ?_
        rw [padded.exhausted edge] at usable
        cases usable
      have stored := (Reached.step s before usable).storedBy_finite finite
      have brought := fronted.bringPivot padded (s := stepCol s) atMost
      refine ⟨front, (padded.bringPivot (s := stepCol s) front).eliminate front usable stored,
        fun j inside => ?_⟩
      rw [eliminate_source]
      exact brought j inside

end Reduction

namespace Factorization

variable {A : DenseMatrix Float m n} {p : Fin n}

/-- What becomes of a zero column, at each step and in the end. -/
structure LeavesOut (A : DenseMatrix Float m n) (p : Fin n) : Prop where
  norm : IsZero ((ofMatrix A).norms p)
  throughout : ∀ {k : Nat} {S : Reduction Float m n}, Reduction.Reached A k S →
    ∀ j, (S.cols j).source = p → k ≤ j.val ∧ ∀ i, IsZero ((S.cols j).entries i)
  stored : ∀ i j, (ofMatrix A).perm.get j = p → IsZero ((ofMatrix A).packed.get i j)
  behind : ∀ j, (ofMatrix A).perm.get j = p → (ofMatrix A).rank ≤ j.val

theorem ofMatrix_leavesOut (finite : (ofMatrix A).FiniteReflectors)
    (zeros : ∀ i, IsZero (A.get i p)) : LeavesOut A p := by
  have ends := Reduction.reduce_passesOver finite zeros
  have source (j : Fin n) : (ofMatrix A).perm.get j = (A.reduce.cols j).source :=
    Vector.get_map _ _ j
  constructor
  · have norm : (ofMatrix A).norms p = Scalar.norm (fun _ => true) (A.col p) := Vector.get_ofFn _ p
    rw [norm]
    refine (isZero_sumSquares fun i _ => ?_).sqrt
    rw [DenseMatrix.col, Vector.get_ofFn]
    exact zeros i
  · intro k S reached j origin
    obtain ⟨behind, blank⟩ := reached.passesOver finite zeros j origin
    exact ⟨behind, blank.entries⟩
  · intro i j position
    rw [source] at position
    rw [ofMatrix_packed]
    exact (ends j position).2.entries i
  · intro j position
    rw [source] at position
    exact (ends j position).1

/-! ## Counting -/

section Counting

variable {F : Factorization Float m n} {used : Fin n → Prop}

def chosen (F : Factorization Float m n) (used : Fin n → Prop)
    (only : ∀ j : Fin n, j.val < F.rank → used (F.perm.get j)) (k : Fin F.rank) :
    {p : Fin n // used p} :=
  let j : Fin n := k.castLE (F.rank_le.trans (Nat.min_le_right m n))
  ⟨F.perm.get j, only j k.isLt⟩

theorem chosen_injective (bijective : Function.Bijective F.perm.get)
    (only : ∀ j : Fin n, j.val < F.rank → used (F.perm.get j)) :
    Function.Injective (F.chosen used only) := by
  intro k l same
  exact Fin.castLE_injective _ (bijective.injective (congrArg Subtype.val same))

/-- If only some columns come in front of the rank, the rank is no higher than their number; and if
it is as high, all of them do. -/
theorem rank_le_card (bijective : Function.Bijective F.perm.get)
    (only : ∀ j : Fin n, j.val < F.rank → used (F.perm.get j)) :
    F.rank ≤ Nat.card {p : Fin n // used p} ∧
      (F.rank = Nat.card {p : Fin n // used p} →
        ∀ p, used p ↔ ∃ j : Fin n, j.val < F.rank ∧ F.perm.get j = p) := by
  have injective := chosen_injective bijective only
  constructor
  · have cards := Nat.card_le_card_of_injective _ injective
    simpa only [Nat.card_eq_fintype_card, Fintype.card_fin] using cards
  · intro full p
    constructor
    · intro known
      have onto := (injective.bijective_of_nat_card_le
        (by rw [Nat.card_eq_fintype_card (α := Fin F.rank), Fintype.card_fin, full])).surjective
      obtain ⟨k, same⟩ := onto ⟨p, known⟩
      exact ⟨_, k.isLt, congrArg Subtype.val same⟩
    · rintro ⟨j, inside, rfl⟩
      exact only j inside

end Counting

theorem rank_le_card_nonzero (finite : (ofMatrix A).FiniteReflectors) :
    (ofMatrix A).rank ≤ Nat.card {p : Fin n // ∃ i, ¬ IsZero (A.get i p)} := by
  refine (rank_le_card (ofMatrix_bijective A) fun j inside => ?_).1
  by_contra! zeros
  have behind := (ofMatrix_leavesOut finite zeros).behind j rfl
  omega

theorem ofMatrix_front {bound : Nat} (finite : (ofMatrix A).FiniteReflectors)
    (zeros : ∀ (i : Fin m) (j : Fin n), bound ≤ j.val → IsZero (A.get i j)) (j : Fin n)
    (front : j.val < bound) : ((ofMatrix A).perm.get j).val < bound := by
  have source (j : Fin n) : (ofMatrix A).perm.get j = (A.reduce.cols j).source :=
    Vector.get_map _ _ j
  obtain ⟨last, reached, ended⟩ :=
    Reduction.Reached.start.reduceFrom (A := A) _ _ (Nat.zero_add (min m n))
  obtain ⟨atMost, padded, fronted⟩ := reached.padded finite zeros
  rw [source, DenseMatrix.reduce]
  rcases ended with same | ⟨s, edge, same⟩
  · rw [same]
    exact fronted j front
  · rw [same]
    rw [← edge] at atMost
    exact fronted.bringPivot padded (s := stepCol s) atMost j front

end Factorization

end LeastSquares

import LeastSquares.Proofs.QR.Column

/-!
# The pivoted reduction in exact arithmetic

After `k` steps the columns hold the matrix `H_{k-1} ⋯ H_0 A P`: a finished column keeps its rows
above the diagonal and its diagonal entry apart, an unfinished one is stored as it is. The remaining
norms are exact, so the pivot of each step is a longest remaining column, and a reduction that stops
early leaves only columns that are negligible beside one column of `A`.

`Sound` is the invariant of a step, and `Complete` is what it makes of a finished reduction.
-/

set_option autoImplicit false

namespace LeastSquares

open Matrix

variable {m n : Nat}

/-- `H_0 H_1 ⋯ H_{k-1}` for the vectors that the first `k` steps stored. -/
noncomputable def reflectorProduct (stored : Fin (min m n) → Vector ℝ m) :
    Nat → Matrix (Fin m) (Fin m) ℝ
  | 0 => 1
  | k + 1 =>
    if h : k < min m n then
      reflectorProduct stored k * Reflector.matrix (stored ⟨k, h⟩) (stepRow ⟨k, h⟩)
    else reflectorProduct stored k

theorem reflectorProduct_zero (stored : Fin (min m n) → Vector ℝ m) :
    reflectorProduct stored 0 = 1 := rfl

theorem reflectorProduct_congr {stored stored' : Fin (min m n) → Vector ℝ m} {k : Nat}
    (same : ∀ s : Fin (min m n), s.val < k → stored s = stored' s) :
    reflectorProduct stored k = reflectorProduct stored' k := by
  induction k with
  | zero => rfl
  | succ k ih =>
      have before := ih fun s below => same s (Nat.lt_succ_of_lt below)
      simp only [reflectorProduct]
      split
      · rename_i inside
        rw [before, same ⟨k, inside⟩ (Nat.lt_succ_self k)]
      · exact before

theorem reflectorProduct_orthogonal {stored : Fin (min m n) → Vector ℝ m} {k : Nat}
    (proper : ∀ s : Fin (min m n), s.val < k → Reflector.Proper (stored s) (stepRow s)) :
    (reflectorProduct stored k)ᵀ * reflectorProduct stored k = 1 := by
  induction k with
  | zero => simp [reflectorProduct]
  | succ k ih =>
      have before := ih fun s below => proper s (Nat.lt_succ_of_lt below)
      simp only [reflectorProduct]
      split
      · rename_i inside
        have reflects := (proper ⟨k, inside⟩ (Nat.lt_succ_self k)).matrix_mul_self
        rw [transpose_mul, Matrix.mul_assoc, ← Matrix.mul_assoc _ (reflectorProduct stored k),
          before, Matrix.one_mul, Reflector.matrix_transpose, reflects]
      · exact before

namespace Reduction

def stored (S : Reduction ℝ m n) (s : Fin (min m n)) : Vector ℝ m := (S.cols (stepCol s)).entries

/-- Column `j` of the partly reduced matrix after `k` steps. -/
def reducedCol (S : Reduction ℝ m n) (k : Nat) (j : Fin n) : Fin m → ℝ := fun i =>
  if k ≤ j.val then (S.cols j).entries i
  else if i.val < j.val then (S.cols j).entries i
  else if i.val = j.val then S.diag j
  else 0

theorem reducedCol_unfinished (S : Reduction ℝ m n) {k : Nat} {j : Fin n} (unfinished : k ≤ j.val) :
    S.reducedCol k j = (S.cols j).entries.get := by
  funext i
  exact if_pos unfinished

theorem reducedCol_finished (S : Reduction ℝ m n) {k : Nat} {j : Fin n} (finished : j.val < k)
    (i : Fin m) : S.reducedCol k j i =
      if i.val < j.val then (S.cols j).entries i else if i.val = j.val then S.diag j else 0 :=
  if_neg (not_le.mpr finished)

theorem tolerance_real : (tolerance m n : ℝ) = 2 * (max m n : ℕ) * Scalar.epsilon := by
  rw [tolerance]
  norm_num

theorem tolerance_nonneg : 0 ≤ (tolerance m n : ℝ) := by
  rw [tolerance_real]
  have := Scalar.epsilon_pos
  positivity

theorem tolerance_lt_one (moderate : max m n ≤ 2 ^ 50) : (tolerance m n : ℝ) < 1 := by
  have size : ((max m n : ℕ) : ℝ) ≤ 2 ^ 50 := by exact_mod_cast moderate
  rw [tolerance_real]
  change 2 * ((max m n : ℕ) : ℝ) * (2 ^ 52)⁻¹ < 1
  linarith

/-- What holds of a reduction of `A` after `k` steps. -/
structure Sound (A : DenseMatrix ℝ m n) (k : Nat) (S : Reduction ℝ m n) : Prop where
  proper : ∀ s : Fin (min m n), s.val < k → Reflector.Proper (S.stored s) (stepRow s)
  image : ∀ j, (reflectorProduct S.stored k)ᵀ *ᵥ (A.col (S.cols j).source).get = S.reducedCol k j
  source_injective : Function.Injective fun j => (S.cols j).source
  norm : ∀ j, (S.cols j).norm = euclid (A.col (S.cols j).source).get
  exact : ∀ j : Fin n, k ≤ j.val → (S.cols j).Exact k
  usable : ∀ j : Fin n, j.val < k →
    tolerance m n * euclid (A.col (S.cols j).source).get < |S.diag j|
  diag_eq_zero : ∀ j : Fin n, k ≤ j.val → S.diag j = 0

def Leads (S : Reduction ℝ m n) (k : Fin n) : Prop :=
  ∀ j, k ≤ j → (S.cols j).remaining ≤ (S.cols k).remaining

theorem ofMatrix_sound (A : DenseMatrix ℝ m n) : (ofMatrix A).Sound A 0 where
  proper s below := absurd below (Nat.not_lt_zero _)
  image j := by
    have column : (ofMatrix A).cols j = .ofColumn (A.col j) j := Vector.get_ofFn _ _
    funext i
    simp [reflectorProduct, reducedCol, column, PivotColumn.ofColumn]
  source_injective i j same := by
    simpa [ofMatrix, PivotColumn.ofColumn] using same
  norm j := by
    have column : (ofMatrix A).cols j = .ofColumn (A.col j) j := Vector.get_ofFn _ _
    rw [column]
    exact PivotColumn.ofColumn_norm _ _
  exact j _ := by
    have column : (ofMatrix A).cols j = .ofColumn (A.col j) j := Vector.get_ofFn _ _
    rw [column]
    exact PivotColumn.ofColumn_exact _ _
  usable j below := absurd below (Nat.not_lt_zero _)
  diag_eq_zero j _ := by simp [ofMatrix]

/-! ## Bringing the pivot -/

theorem pivot_spec (S : Reduction ℝ m n) (k : Fin n) :
    k ≤ S.pivot k ∧ ∀ j, k ≤ j → (S.cols j).remaining ≤ (S.cols (S.pivot k)).remaining := by
  let best (t : Nat) (p : Fin n) : Prop :=
    k ≤ p ∧ ∀ j, k ≤ j → j = k ∨ j.val < t → (S.cols j).remaining ≤ (S.cols p).remaining
  have scan : best n (S.pivot k) := by
    refine foldl_carries _ best k ⟨le_rfl, fun j _ seen => ?_⟩ fun t p holds => ?_
    · rw [seen.resolve_right (Nat.not_lt_zero _)]
    · by_cases better : k < t ∧ (S.cols p).remaining < (S.cols t).remaining
      · rw [if_pos better]
        refine ⟨better.1.le, fun j below seen => ?_⟩
        by_cases last : j = t
        · rw [last]
        · exact (holds.2 j below (by omega)).trans better.2.le
      · rw [if_neg better]
        refine ⟨holds.1, fun j below seen => ?_⟩
        by_cases last : j = t
        · by_cases start : j = k
          · exact holds.2 j below (Or.inl start)
          · rw [last]
            exact not_lt.mp fun less => better ⟨by omega, less⟩
        · exact holds.2 j below (by omega)
  exact ⟨scan.1, fun j below => scan.2 j below (Or.inr j.isLt)⟩

theorem bringPivot_cols {α : Type} [Scalar α] (S : Reduction α m n) (k j : Fin n) :
    (S.bringPivot k).cols j = S.cols (Equiv.swap k (S.pivot k) j) := by
  rw [bringPivot, Vector.get_swap, Equiv.swap_apply_def]
  split
  · rfl
  · split <;> rfl

theorem le_swap_pivot (S : Reduction ℝ m n) {k j : Fin n} (unfinished : k ≤ j) :
    k ≤ Equiv.swap k (S.pivot k) j := by
  rw [Equiv.swap_apply_def]
  split
  · exact (S.pivot_spec k).1
  · split
    · exact le_rfl
    · exact unfinished

theorem swap_pivot_of_lt (S : Reduction ℝ m n) {k j : Fin n} (finished : j < k) :
    Equiv.swap k (S.pivot k) j = j :=
  Equiv.swap_apply_of_ne_of_ne finished.ne (lt_of_lt_of_le finished (S.pivot_spec k).1).ne

theorem bringPivot_leads (S : Reduction ℝ m n) (k : Fin n) : (S.bringPivot k).Leads k := by
  intro j later
  rw [bringPivot_cols, bringPivot_cols, Equiv.swap_apply_left]
  exact (S.pivot_spec k).2 _ (S.le_swap_pivot later)

theorem bringPivot_reducedCol (S : Reduction ℝ m n) (k j : Fin n) :
    (S.bringPivot k).reducedCol k j = S.reducedCol k (Equiv.swap k (S.pivot k) j) := by
  by_cases unfinished : k ≤ j
  · rw [reducedCol_unfinished S (S.le_swap_pivot unfinished), reducedCol_unfinished _ unfinished,
      bringPivot_cols]
  · have finished : j < k := not_le.mp unfinished
    funext i
    rw [S.swap_pivot_of_lt finished, reducedCol_finished S finished,
      reducedCol_finished _ finished, bringPivot_cols, S.swap_pivot_of_lt finished]
    rfl

theorem Sound.bringPivot {A : DenseMatrix ℝ m n} {S : Reduction ℝ m n} {k : Fin n}
    (sound : S.Sound A k) : (S.bringPivot k).Sound A k := by
  have before (j : Fin n) (finished : j < k) : (S.bringPivot k).cols j = S.cols j := by
    rw [bringPivot_cols, S.swap_pivot_of_lt finished]
  have sameStored (s : Fin (min m n)) (finished : s.val < k.val) :
      (S.bringPivot k).stored s = S.stored s := by
    rw [stored, stored, before (stepCol s) finished]
  refine ⟨fun s finished => ?_, fun j => ?_, ?_, fun j => ?_, fun j unfinished => ?_,
    fun j finished => ?_, sound.diag_eq_zero⟩
  · rw [sameStored s finished]
    exact sound.proper s finished
  · rw [reflectorProduct_congr sameStored, bringPivot_cols, sound.image, bringPivot_reducedCol]
  · intro i j same
    dsimp only at same
    rw [bringPivot_cols, bringPivot_cols] at same
    exact (Equiv.swap k (S.pivot k)).injective (sound.source_injective same)
  · rw [bringPivot_cols]
    exact sound.norm _
  · rw [bringPivot_cols]
    exact sound.exact _ (S.le_swap_pivot unfinished)
  · rw [before j finished]
    exact sound.usable j finished

/-! ## Eliminating -/

section Eliminate

variable {S : Reduction ℝ m n} {k : Fin (min m n)}

noncomputable def signedNorm (S : Reduction ℝ m n) (k : Fin (min m n)) : ℝ :=
  Reflector.signedLike ((S.cols (stepCol k)).entries (stepRow k))
    (Reflector.tailNorm (S.cols (stepCol k)).entries (stepRow k))

noncomputable def reflector (S : Reduction ℝ m n) (k : Fin (min m n)) : Vector ℝ m :=
  Reflector.normalize (S.signedNorm k) (S.cols (stepCol k)).entries (stepRow k)

theorem eliminate_pivot : (S.eliminate k).cols (stepCol k) =
    { S.cols (stepCol k) with entries := S.reflector k } := by
  rw [eliminate, Vector.get_ofFn, if_pos rfl]
  rfl

theorem eliminate_before {α : Type} [Scalar α] {S : Reduction α m n} {j : Fin n}
    (before : j < stepCol k) : (S.eliminate k).cols j = S.cols j := by
  rw [eliminate, Vector.get_ofFn, if_neg before.ne, if_neg before.asymm]

theorem eliminate_behind {j : Fin n} (behind : stepCol k < j) :
    (S.eliminate k).cols j = (S.cols j).reflect (S.reflector k) (stepRow k) := by
  rw [eliminate, Vector.get_ofFn, if_neg behind.ne', if_pos behind]
  rfl

theorem eliminate_diag (j : Fin n) :
    (S.eliminate k).diag j = if stepCol k = j then -S.signedNorm k else S.diag j := by
  rw [eliminate, Vector.get_set]
  rfl

theorem eliminate_keeps (j : Fin n) : ((S.eliminate k).cols j).source = (S.cols j).source ∧
    ((S.eliminate k).cols j).norm = (S.cols j).norm := by
  rcases lt_trichotomy j (stepCol k) with before | same | behind
  · rw [eliminate_before before]
    exact ⟨rfl, rfl⟩
  · subst same
    rw [eliminate_pivot]
    exact ⟨rfl, rfl⟩
  · rw [eliminate_behind behind, PivotColumn.reflect_source, PivotColumn.reflect_norm]
    exact ⟨rfl, rfl⟩

theorem tailNorm_ne_zero (usable : S.exhausted k = false) :
    Reflector.tailNorm (S.cols (stepCol k)).entries (stepRow k) ≠ 0 := by
  intro zero
  simp [exhausted, zero] at usable

theorem signedNorm_ne_zero (usable : S.exhausted k = false) : S.signedNorm k ≠ 0 :=
  Reflector.signedLike_ne_zero (tailNorm_ne_zero usable)

theorem lt_abs_signedNorm (usable : S.exhausted k = false) :
    tolerance m n * (S.cols (stepCol k)).norm < |S.signedNorm k| := by
  simp only [exhausted, Bool.or_eq_false_iff, decide_eq_false_iff_not, not_le] at usable
  have nonneg : 0 ≤ Reflector.tailNorm (S.cols (stepCol k)).entries (stepRow k) :=
    Scalar.norm_nonneg _ _
  rw [signedNorm, Reflector.abs_signedLike nonneg]
  exact usable.2

theorem signedNorm_mul_self (S : Reduction ℝ m n) (k : Fin (min m n)) :
    S.signedNorm k * S.signedNorm k =
      Reflector.tail (S.cols (stepCol k)).entries (stepRow k) ⬝ᵥ
        Reflector.tail (S.cols (stepCol k)).entries (stepRow k) := by
  rw [signedNorm, Reflector.signedLike_mul_self, Reflector.tailNorm_mul_self]

theorem lead_div_signedNorm (S : Reduction ℝ m n) (k : Fin (min m n)) :
    0 ≤ (S.cols (stepCol k)).entries (stepRow k) / S.signedNorm k ∧
      (S.cols (stepCol k)).entries (stepRow k) / S.signedNorm k ≤ 1 :=
  Reflector.lead_div_signedLike (Reflector.abs_le_tailNorm _ _)

theorem reflector_proper (usable : S.exhausted k = false) :
    Reflector.Proper (S.reflector k) (stepRow k) := by
  obtain ⟨positive, bounded⟩ := S.lead_div_signedNorm k
  exact Reflector.proper_normalize (signedNorm_ne_zero usable) (S.signedNorm_mul_self k) positive
    bounded

/-- The reflection of step `k` turns one partly reduced matrix into the next. -/
theorem reflector_mulVec_reducedCol (usable : S.exhausted k = false) (j : Fin n) :
    Reflector.matrix (S.reflector k) (stepRow k) *ᵥ S.reducedCol k j =
      (S.eliminate k).reducedCol (k + 1) j := by
  rcases lt_trichotomy j (stepCol k) with before | same | behind
  · have finished : j.val < k.val := before
    rw [Reflector.matrix_mulVec_of_zero]
    · funext i
      rw [reducedCol_finished S finished, reducedCol_finished _ (Nat.lt_succ_of_lt finished),
        eliminate_before before, eliminate_diag, if_neg before.ne']
    · intro i below
      have later : k.val ≤ i.val := below
      rw [reducedCol_finished S finished, if_neg (by omega), if_neg (by omega)]
  · subst same
    have current : (stepCol k).val < k.val + 1 := Nat.lt_succ_self k.val
    rw [reducedCol_unfinished S (le_refl k.val), reflector,
      Reflector.matrix_normalize_mulVec (signedNorm_ne_zero usable) (S.signedNorm_mul_self k)
        (S.lead_div_signedNorm k).1]
    funext i
    rw [reducedCol_finished _ current, eliminate_pivot, eliminate_diag, if_pos rfl]
    rcases lt_trichotomy i (stepRow k) with above | diagonal | below
    · rw [if_pos above, if_pos (show i.val < (stepCol k).val from above)]
      exact (Reflector.normalize_above above).symm
    · subst diagonal
      have level : (stepRow k).val = (stepCol k).val := rfl
      rw [if_neg (lt_irrefl _), if_pos rfl, if_neg level.not_lt, if_pos level]
    · have later : (stepCol k).val < i.val := below
      rw [if_neg below.asymm, if_neg below.ne', if_neg later.asymm, if_neg later.ne']
  · have unfinished : k.val ≤ j.val := le_of_lt behind
    have later : k.val + 1 ≤ j.val := behind
    rw [reducedCol_unfinished S unfinished, reducedCol_unfinished _ later,
      eliminate_behind behind, PivotColumn.reflect_entries, Reflector.apply_real rfl]

theorem Sound.eliminate {A : DenseMatrix ℝ m n} (sound : S.Sound A k)
    (usable : S.exhausted k = false) : (S.eliminate k).Sound A (k + 1) := by
  have current : (S.eliminate k).stored k = S.reflector k := by
    rw [stored, eliminate_pivot]
  have before (s : Fin (min m n)) (finished : s.val < k.val) :
      (S.eliminate k).stored s = S.stored s := by
    rw [stored, stored, eliminate_before (k := k) (j := stepCol s) finished]
  have product : reflectorProduct (S.eliminate k).stored (k + 1) =
      reflectorProduct S.stored k * Reflector.matrix (S.reflector k) (stepRow k) := by
    rw [reflectorProduct, dif_pos k.isLt, reflectorProduct_congr before]
    exact congrArg (fun v => reflectorProduct S.stored k * Reflector.matrix v (stepRow k)) current
  refine ⟨fun s finished => ?_, fun j => ?_, ?_, fun j => ?_, fun j unfinished => ?_,
    fun j finished => ?_, fun j unfinished => ?_⟩
  · by_cases last : s = k
    · rw [last, current]
      exact reflector_proper usable
    · rw [before s (by omega)]
      exact sound.proper s (by omega)
  · rw [product, transpose_mul, Reflector.matrix_transpose, ← mulVec_mulVec,
      (eliminate_keeps j).1, sound.image, reflector_mulVec_reducedCol usable]
  · intro i j same
    dsimp only at same
    rw [(eliminate_keeps i).1, (eliminate_keeps j).1] at same
    exact sound.source_injective same
  · rw [(eliminate_keeps j).1, (eliminate_keeps j).2]
    exact sound.norm j
  · rw [eliminate_behind (k := k) (j := j) unfinished]
    exact (sound.exact j (Nat.le_of_succ_le unfinished)).reflect (reflector_proper usable)
  · rw [eliminate_diag, (eliminate_keeps j).1]
    split
    · rename_i same
      rw [abs_neg, ← same, ← sound.norm]
      exact lt_abs_signedNorm usable
    · rename_i other
      have notLast : j.val ≠ k.val := fun same => other (Fin.ext same.symm)
      exact sound.usable j (by omega)
  · rw [eliminate_diag, if_neg]
    · exact sound.diag_eq_zero j (Nat.le_of_succ_le unfinished)
    · rintro rfl
      exact absurd unfinished (Nat.not_succ_le_self k.val)

end Eliminate

/-! ## Whole reductions -/

/-- What holds of a finished reduction of `A`. -/
structure Complete (A : DenseMatrix ℝ m n) (R : Reduced ℝ m n) : Prop where
  sound : R.toReduction.Sound A R.rank
  negligible : R.rank < min m n → ∃ p : Fin n, ∀ j : Fin n, R.rank ≤ j.val →
    √(tailSquare (R.cols j).entries R.rank) ≤ tolerance m n * euclid (A.col p).get

theorem Sound.negligible {A : DenseMatrix ℝ m n} {S : Reduction ℝ m n} {k : Fin (min m n)}
    (sound : S.Sound A k) (leads : S.Leads (stepCol k)) (exhausted : S.exhausted k = true)
    (j : Fin n) (unfinished : k.val ≤ j.val) :
    √(tailSquare (S.cols j).entries k) ≤
      tolerance m n * euclid (A.col (S.cols (stepCol k)).source).get := by
  let c := S.cols (stepCol k)
  have shortest : Reflector.tailNorm c.entries (stepRow k) ≤ tolerance m n * c.norm := by
    simp only [Reduction.exhausted, Bool.or_eq_true, beq_iff_eq, decide_eq_true_eq] at exhausted
    rcases exhausted with zero | small
    · rw [show Reflector.tailNorm c.entries (stepRow k) = 0 from zero]
      refine mul_nonneg tolerance_nonneg ?_
      rw [sound.norm]
      exact Real.sqrt_nonneg _
    · exact small
  calc √(tailSquare (S.cols j).entries k)
      = √((S.cols j).remaining) := by rw [(sound.exact j unfinished).remaining]
    _ ≤ √(c.remaining) := Real.sqrt_le_sqrt (leads j unfinished)
    _ = √(tailSquare c.entries (stepRow k)) := by
        rw [(sound.exact (stepCol k) (le_refl k.val)).remaining]
        rfl
    _ = Reflector.tailNorm c.entries (stepRow k) := by
        rw [Reflector.tailNorm_eq_euclid, euclid, tailSquare_eq_tail]
    _ ≤ tolerance m n * c.norm := shortest
    _ = tolerance m n * euclid (A.col c.source).get := by rw [sound.norm]

theorem reduceFrom_complete {A : DenseMatrix ℝ m n} (t k : Nat) (h : k + t = min m n)
    (S : Reduction ℝ m n) (sound : S.Sound A k) : Complete A (reduceFrom t k h S) := by
  -- Over the steps that are left. The last of them, or a pivot that is exhausted, ends the loop.
  induction t generalizing k S with
  | zero =>
      refine ⟨sound, fun early => ?_⟩
      have notAll : k < min m n := early
      omega
  | succ t ih =>
      let step : Fin (min m n) := ⟨k, by omega⟩
      have brought : (S.bringPivot (stepCol step)).Sound A k :=
        Sound.bringPivot (k := stepCol step) sound
      rw [reduceFrom]
      by_cases exhausted : (S.bringPivot (stepCol step)).exhausted step = true
      · rw [if_pos exhausted]
        have negligible := Sound.negligible (k := step) brought
          (S.bringPivot_leads (stepCol step)) exhausted
        exact ⟨brought, fun _ => ⟨_, negligible⟩⟩
      · rw [if_neg exhausted]
        have usable : (S.bringPivot (stepCol step)).exhausted step = false :=
          Bool.eq_false_iff.mpr exhausted
        exact ih (k + 1) (by omega) _ (Sound.eliminate (k := step) brought usable)

/-! ## Where the columns come from, over any scalars -/

section Sources

variable {α : Type} [Scalar α] {S : Reduction α m n}

theorem eliminate_source (S : Reduction α m n) (k : Fin (min m n)) (j : Fin n) :
    ((S.eliminate k).cols j).source = (S.cols j).source := by
  rw [eliminate, Vector.get_ofFn]
  split
  · rename_i pivot
    rw [pivot]
  · split
    · exact PivotColumn.reflect_source _ _ _
    · rfl

def Sourced (S : Reduction α m n) : Prop := Function.Injective fun j => (S.cols j).source

theorem ofMatrix_sourced (A : DenseMatrix α m n) : (ofMatrix A).Sourced := by
  intro i j same
  simpa [ofMatrix, PivotColumn.ofColumn] using same

theorem Sourced.bringPivot (sourced : S.Sourced) (k : Fin n) : (S.bringPivot k).Sourced := by
  intro i j same
  dsimp only at same
  rw [bringPivot_cols, bringPivot_cols] at same
  exact (Equiv.swap k (S.pivot k)).injective (sourced same)

theorem Sourced.eliminate (sourced : S.Sourced) (k : Fin (min m n)) : (S.eliminate k).Sourced := by
  intro i j same
  dsimp only at same
  rw [eliminate_source, eliminate_source] at same
  exact sourced same

theorem Sourced.reduceFrom (t k : Nat) (h : k + t = min m n) (sourced : S.Sourced) :
    (reduceFrom t k h S).toReduction.Sourced := by
  induction t generalizing k S with
  | zero => exact sourced
  | succ t ih =>
      rw [Reduction.reduceFrom]
      split
      · exact sourced.bringPivot _
      · exact ih (k + 1) (by omega) ((sourced.bringPivot _).eliminate _)

end Sources

end Reduction

theorem DenseMatrix.reduce_complete (A : DenseMatrix ℝ m n) : Reduction.Complete A A.reduce :=
  Reduction.reduceFrom_complete _ _ _ _ (Reduction.ofMatrix_sound A)

end LeastSquares

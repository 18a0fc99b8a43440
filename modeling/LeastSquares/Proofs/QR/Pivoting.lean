import LeastSquares.Proofs.QR.Isometry
import LeastSquares.Proofs.QR.ZeroColumns

/-!
# Longest columns first

The search for a pivot compares the remaining norms that the columns carry along. In exact
arithmetic they are the norms of the unfinished rows at every step, through all exchanges, so each
pivot is a longest column. Later reflections mix rows from a later step on, and keep the length of
what stands from an earlier row on. So a finished pivot goes on dominating the columns behind it,
and the diagonal of `R` decreases.
-/

set_option autoImplicit false

namespace LeastSquares

open Matrix

variable {m n : Nat}

namespace Reduction

/-! ## The program's states -/

section Storage

variable {α : Type} [Scalar α] {A : DenseMatrix α m n} {S : Reduction α m n} {k : Nat}

theorem Reached.storage (reached : Reached A k S) (t : Nat) :
    Reducing.reduceFrom m n (k + t) 0 (ofMatrix A).storage =
      Reducing.reduceFrom m n t k S.storage := by
  induction reached generalizing t with
  | start => rw [Nat.zero_add]
  | @step S s _ usable ih =>
      have pass := S.storage_reduceFrom_succ s t
      dsimp only at pass
      rw [if_neg (ne_true_of_eq_false usable)] at pass
      rw [Nat.add_right_comm, Nat.add_assoc, ih (t + 1), pass]

theorem exists_reached (A : DenseMatrix α m n) {k : Nat}
    (inside : k ≤ (Factorization.ofMatrix A).rank) : ∃ S, Reached A k S := by
  obtain ⟨last, reached, -⟩ := Reached.start.reduceFrom (A := A) _ _ (Nat.zero_add (min m n))
  have earlier {r : Nat} {R : Reduction α m n} (reached : Reached A r R) :
      ∀ k ≤ r, ∃ S, Reached A k S := by
    induction reached with
    | start =>
        intro k atMost
        obtain rfl : k = 0 := Nat.le_zero.mp atMost
        exact ⟨_, .start⟩
    | step s before usable ih =>
        intro k atMost
        rcases Nat.le_succ_iff.mp atMost with sooner | rfl
        · exact ih k sooner
        · exact ⟨_, .step s before usable⟩
  exact earlier reached k inside

theorem Reached.usable {s : Fin (min m n)} (reached : Reached A s S)
    (inside : s.val < (Factorization.ofMatrix A).rank) :
    (S.bringPivot (stepCol s)).exhausted s = false := by
  obtain ⟨t, h, same⟩ := reached.resumes
  rw [Bool.eq_false_iff]
  intro exhausted
  cases t with
  | zero => omega
  | succ t =>
      rw [Reduction.reduceFrom, if_pos exhausted] at same
      exact inside.ne (congrArg Reduced.rank same).symm

end Storage

/-! ## Invariants of a step -/

variable {A : DenseMatrix ℝ m n} {S : Reduction ℝ m n} {k : Nat}

theorem Reached.sound (reached : Reached A k S) : S.Sound A k := by
  induction reached with
  | start => exact ofMatrix_sound A
  | step s _ usable ih =>
      have brought := Sound.bringPivot (k := stepCol s) ih
      exact Sound.eliminate brought usable

/-- From its own row on, no column behind a finished pivot is longer than the pivot was. -/
def Dominated (S : Reduction ℝ m n) (k : Nat) : Prop :=
  ∀ t j : Fin n, t.val < k → t < j →
    ∑ i : Fin m with t.val ≤ i.val, S.reducedCol k j i ^ 2 ≤ S.diag t ^ 2

theorem Dominated.bringPivot {s : Fin n} (dominated : S.Dominated s) :
    (S.bringPivot s).Dominated s := by
  intro t j finished behind
  rw [bringPivot_reducedCol]
  refine dominated t _ finished ?_
  rcases le_or_gt s j with unfinished | before
  · exact lt_of_lt_of_le finished (S.le_swap_pivot unfinished)
  · rw [S.swap_pivot_of_lt before]
    exact behind

theorem Dominated.eliminate {s : Fin (min m n)} (dominated : S.Dominated s) (sound : S.Sound A s)
    (leads : S.Leads (stepCol s)) (usable : S.exhausted s = false) :
    (S.eliminate s).Dominated (s + 1) := by
  intro t j finished behind
  have front : t.val ≤ (stepRow s).val := Nat.le_of_lt_succ finished
  rw [← reflector_mulVec_reducedCol usable j, (reflector_proper usable).keeps_rows _ front,
    eliminate_diag]
  by_cases current : stepCol s = t
  · subst current
    have unfinished : s.val ≤ j.val := le_of_lt behind
    have pivot := sound.exact (stepCol s) (le_refl s.val)
    rw [if_pos rfl, reducedCol_unfinished S unfinished]
    calc ∑ i : Fin m with s.val ≤ i.val, (S.cols j).entries i ^ 2
        = (S.cols j).remaining := by
          rw [(sound.exact j unfinished).remaining, tailSquare_eq_sum]
      _ ≤ (S.cols (stepCol s)).remaining := leads j unfinished
      _ = tailSquare (S.cols (stepCol s)).entries (stepRow s) := pivot.remaining
      _ = (-S.signedNorm s) ^ 2 := by
          rw [neg_sq, sq, signedNorm_mul_self, tailSquare_eq_tail]
  · have earlier : t.val < s.val :=
      lt_of_le_of_ne front fun same => current (Fin.ext same.symm)
    rw [if_neg current]
    exact dominated t j earlier behind

theorem Reached.dominated (reached : Reached A k S) : S.Dominated k := by
  induction reached with
  | start => exact fun t _ finished => absurd finished (Nat.not_lt_zero _)
  | @step S s before usable ih =>
      have sound := Sound.bringPivot (k := stepCol s) before.sound
      have brought := Dominated.bringPivot (s := stepCol s) ih
      exact brought.eliminate sound (S.bringPivot_leads (stepCol s)) usable

theorem reduce_dominated (A : DenseMatrix ℝ m n) :
    A.reduce.toReduction.Dominated A.reduce.rank := by
  obtain ⟨last, reached, ended⟩ := Reached.start.reduceFrom (A := A) _ _ (Nat.zero_add (min m n))
  have dominated := reached.dominated
  rcases ended with same | ⟨s, edge, same⟩
  · rw [DenseMatrix.reduce, same]
    exact dominated
  · rw [← edge] at dominated
    rw [DenseMatrix.reduce, same, ← edge]
    exact Dominated.bringPivot (s := stepCol s) dominated

/-- What a step does to the remaining norm of a column behind its pivot. The column `d` that it
leaves has row `s` finished. -/
theorem Sound.lowers {s : Fin (min m n)} (sound : S.Sound A s) (usable : S.exhausted s = false)
    {j : Fin n} (behind : stepCol s < j) :
    let d := (S.eliminate s).cols j
    let lowered := (S.cols j).remaining - d.entries (stepRow s) * d.entries (stepRow s)
    Scalar.max lowered 0 = lowered ∧
      Scalar.sumSquares (fun i => stepRow s < i) d.entries = lowered ∧ d.remaining = lowered := by
  intro d lowered
  have reflected := (sound.exact j (le_of_lt behind)).apply (reflector_proper usable)
  have column : d = (S.cols j).reflect (S.reflector s) (stepRow s) := eliminate_behind behind
  have entries : d.entries = Reflector.apply 0 (S.reflector s) (stepRow s) (S.cols j).entries := by
    rw [column, PivotColumn.reflect_entries]
  have rest : lowered = tailSquare d.entries (s + 1) := by
    simp only [lowered, entries]
    exact reflected.lowered
  have left : d.remaining = tailSquare d.entries (s + 1) :=
    (sound.eliminate usable).exact j behind |>.remaining
  rw [rest, left, Scalar.max_real, max_eq_left (tailSquare_nonneg _ _)]
  exact ⟨rfl, PivotColumn.sumSquares_below _ _, rfl⟩

end Reduction

/-! ## What the arrays hold -/

namespace Reducing

/-- The remaining norms from column `k` on are the squared lengths of the rows from `k` on. -/
def Tracks (T : Reducing ℝ) (k : Nat) : Prop :=
  ∀ j : Fin T.matrix.ncols, k ≤ j.val → T.remaining[j.val]? =
    some (∑ i : Fin T.matrix.nrows with k ≤ i.val, T.matrix.entries.get i j ^ 2)

/-- Of the columns from `k` on, none has a larger remaining norm than column `p`. -/
def Longest (T : Reducing ℝ) (n k p : Nat) : Prop :=
  k ≤ p ∧ ∀ j, k ≤ j → j < n →
    ∃ x y, T.remaining[j]? = some x ∧ T.remaining[p]? = some y ∧ x ≤ y

/-- Step `k`, from the state `B` to the state `N`, takes the square of one entry out of the
remaining norm of column `j`. The clamp at zero makes no difference, and neither would a new sum. -/
def Lowers (B N : Reducing ℝ) (k j : Nat) : Prop :=
  ∃ x top, B.remaining[j]? = some x ∧ N.matrix.get? k j = some top ∧
    Scalar.max (x - top * top) 0 = x - top * top ∧
    N.matrix.sumSquares? j (k + 1) = some (x - top * top) ∧
    N.remaining[j]? = some (x - top * top)

end Reducing

namespace Reduction

variable {A : DenseMatrix ℝ m n} {S : Reduction ℝ m n} {k : Nat}

theorem Sound.tracks (sound : S.Sound A k) : S.storage.Tracks k := by
  intro j unfinished
  have remaining := (sound.exact j unfinished).remaining
  rw [tailSquare_eq_sum] at remaining
  refine (S.storage_remaining j).trans (congrArg some (remaining.trans ?_))
  refine Finset.sum_congr rfl fun i _ => congrArg (· ^ 2) ?_
  exact Option.some.inj ((S.storage_entry i j).symm.trans (AnyMatrix.get?_mk _ i j))

theorem storage_longest (S : Reduction ℝ m n) (k : Fin n) :
    S.storage.Longest n k (S.pivot k) := by
  refine ⟨(S.pivot_spec k).1, fun j unfinished inside => ?_⟩
  exact ⟨_, _, S.storage_remaining ⟨j, inside⟩, S.storage_remaining (S.pivot k),
    (S.pivot_spec k).2 ⟨j, inside⟩ unfinished⟩

theorem Sound.storage_lowers {s : Fin (min m n)} (sound : S.Sound A s)
    (usable : S.exhausted s = false) {j : Fin n} (behind : stepCol s < j) :
    Reducing.Lowers S.storage (S.eliminate s).storage s j := by
  obtain ⟨clamped, summed, left⟩ := sound.lowers usable behind
  have square := (S.eliminate s).storage_square j (stepRow s).isLt
    (p := fun i => stepRow s < i) fun i => decide_eq_true_iff
  refine ⟨_, _, S.storage_remaining j, (S.eliminate s).storage_entry (stepRow s) j, clamped,
    square.trans (congrArg some summed), ?_⟩
  exact ((S.eliminate s).storage_remaining j).trans (congrArg some left)

end Reduction

namespace Factorization

variable (A : DenseMatrix ℝ m n)

/-! ## The triangular factor -/

theorem turned_dominated {k j : Fin n} (inside : k.val < (ofMatrix A).rank) (behind : k < j) :
    ∑ i : Fin m with k.val ≤ i.val, (ofMatrix A).turned A i j ^ 2 ≤ (ofMatrix A).diag k ^ 2 := by
  simp only [ofMatrix_turned]
  exact Reduction.reduce_dominated A k j inside behind

theorem r_dominated {k j : Fin n} (inside : k.val < (ofMatrix A).rank) (behind : k < j) :
    ∑ i ∈ Finset.Icc k j, (ofMatrix A).r i j ^ 2 ≤ (ofMatrix A).diag k ^ 2 := by
  let F := ofMatrix A
  let rows : Finset (Fin F.rank) := {i | F.topCol i ∈ Finset.Icc k j}
  have topCol_injective : Function.Injective F.topCol := Fin.castLE_injective F.rank_le_cols
  have topRow_injective : Function.Injective F.topRow := Fin.castLE_injective F.rank_le_rows
  have outside (i : Fin n) (between : i ∈ Finset.Icc k j) (none : i ∉ F.topCol '' rows) :
      F.r i j ^ 2 = 0 := by
    have behind : F.rank ≤ i.val := by
      by_contra! inside
      exact none ⟨⟨i, inside⟩, Finset.mem_filter.mpr ⟨Finset.mem_univ _, between⟩, rfl⟩
    rw [r_of_rank_le F behind, zero_pow two_ne_zero]
  have subset : rows.image F.topRow ⊆ ({i | k.val ≤ i.val} : Finset (Fin m)) := by
    intro i row
    obtain ⟨l, chosen, rfl⟩ := Finset.mem_image.mp row
    exact Finset.mem_filter.mpr
      ⟨Finset.mem_univ _, (Finset.mem_Icc.mp (Finset.mem_filter.mp chosen).2).1⟩
  calc ∑ i ∈ Finset.Icc k j, F.r i j ^ 2
      = ∑ i ∈ rows, F.r (F.topCol i) j ^ 2 :=
        (Finset.sum_of_injOn F.topCol topCol_injective.injOn
          (fun i chosen => (Finset.mem_filter.mp chosen).2) outside fun _ _ => rfl).symm
    _ = ∑ i ∈ rows, F.turned A (F.topRow i) j ^ 2 :=
        Finset.sum_congr rfl fun i _ => by rw [(ofMatrix_factors A).top]
    _ = ∑ i ∈ rows.image F.topRow, F.turned A i j ^ 2 :=
        (Finset.sum_image (f := fun i => F.turned A i j ^ 2) topRow_injective.injOn).symm
    _ ≤ ∑ i : Fin m with k.val ≤ i.val, F.turned A i j ^ 2 :=
        Finset.sum_le_sum_of_subset_of_nonneg subset fun _ _ _ => sq_nonneg _
    _ ≤ F.diag k ^ 2 := turned_dominated A inside behind

theorem abs_diag_antitone {i j : Fin n} (ordered : i ≤ j) (inside : j.val < (ofMatrix A).rank) :
    |(ofMatrix A).diag j| ≤ |(ofMatrix A).diag i| := by
  rcases eq_or_lt_of_le ordered with rfl | behind
  · exact le_rfl
  · refine sq_le_sq.mp ?_
    rw [← (ofMatrix A).r_diag inside]
    calc (ofMatrix A).r j j ^ 2
        ≤ ∑ l ∈ Finset.Icc i j, (ofMatrix A).r l j ^ 2 :=
          Finset.single_le_sum (fun l _ => sq_nonneg ((ofMatrix A).r l j))
            (Finset.mem_Icc.mpr ⟨ordered, le_rfl⟩)
      _ ≤ (ofMatrix A).diag i ^ 2 := r_dominated A (lt_trans behind inside) behind

/-- The program passes step `k` with exact remaining norms, before and after the exchange, takes a
longest column to it and, if there is another step, lowers the remaining norms behind. -/
structure StepsThrough (start : Reducing ℝ) (m n rank k : Nat) (T : Reducing ℝ) : Prop where
  reached : Reducing.reduceFrom m n k 0 start = some (k, T)
  tracks : T.Tracks k
  exchanges : k < min m n → ∃ p B, T.pivot n k = some p ∧ T.Longest n k p ∧
    T.bringPivot n k = some B ∧ B.Tracks k ∧
      (k < rank → ∃ N, Reducing.reduceFrom m n (k + 1) 0 start = some (k + 1, N) ∧
        ∀ j, k < j → j < n → Reducing.Lowers B N k j)

structure LongestFirst (A : DenseMatrix ℝ m n) (F : Factorization ℝ m n) : Prop where
  measures (original remaining reference : Vector ℝ n) : Reducing.measure n
    { (Reduction.ofMatrix A).storage with
      original := original.toArray
      remaining := remaining.toArray
      reference := reference.toArray } = some (Reduction.ofMatrix A).storage
  steps : ∀ k ≤ F.rank, ∃ T, StepsThrough (Reduction.ofMatrix A).storage m n F.rank k T
  decreasing (i j : Fin n) : i ≤ j → j.val < F.rank → |F.diag j| ≤ |F.diag i|
  dominates (k j : Fin n) : k.val < F.rank → k < j →
    ∑ i ∈ Finset.Icc k j, F.r i j ^ 2 ≤ |F.diag k| ^ 2

/-- At every step up to the last one the remaining norms of the unfinished columns are exact. So
every pivot is a longest column, and what a step takes out of a remaining norm is the same with and
without the clamp and the recomputation. In the end the diagonal of `R` decreases, and each of its
entries is at least as long as the rows of `R` from there on in any later column. -/
theorem storage_longest_first (A : DenseMatrix ℝ m n) : (ofMatrix A).LongestFirst A := by
  constructor
  case measures =>
    intro original remaining reference
    rw [Reduction.ofMatrix_storage]
    exact Reducing.measure_ok A _ _ original remaining reference
  case steps =>
    intro k atMost
    obtain ⟨S, reached⟩ := Reduction.exists_reached A atMost
    refine ⟨S.storage, reached.storage 0, reached.sound.tracks, fun more => ?_⟩
    let s : Fin (min m n) := ⟨k, more⟩
    have brought : (S.bringPivot (stepCol s)).Sound A s :=
      Reduction.Sound.bringPivot (k := stepCol s) reached.sound
    refine ⟨_, _, S.storage_pivot (stepCol s), S.storage_longest (stepCol s),
      S.storage_bringPivot (stepCol s), brought.tracks, fun inside => ?_⟩
    have usable := Reduction.Reached.usable (s := s) reached inside
    have next := Reduction.Reached.step s reached usable
    exact ⟨_, next.storage 0, fun j later fits =>
      brought.storage_lowers usable (j := ⟨j, fits⟩) later⟩
  case decreasing =>
    intro i j ordered inside
    exact abs_diag_antitone A ordered inside
  case dominates =>
    intro k j inside behind
    rw [sq_abs]
    exact r_dominated A inside behind

theorem storage_longest_first_row :
    let A : DenseMatrix ℝ 1 2 := .ofFn fun _ j => #v[3, 4] j
    let F := ofMatrix A
    ∃ (T B N : Reducing ℝ) (p : Nat), F.rank = 1 ∧ T.pivot 2 0 = some p ∧ T.Longest 2 0 p ∧
      T.bringPivot 2 0 = some B ∧ Reducing.Lowers B N 0 1 ∧
      ∑ i ∈ Finset.Icc 0 1, F.r i 1 ^ 2 ≤ |F.diag 0| ^ 2 := by
  intro A F
  have nonzero : A.toMatrix.col 0 ≠ 0 := by
    intro vanishes
    have entry : A.toMatrix 0 0 = 3 := DenseMatrix.get_ofFn _ 0 0
    have zero := congrFun vanishes 0
    rw [col_apply, entry] at zero
    exact three_ne_zero zero
  have small : (Reduction.tolerance 1 2 : ℝ) < 1 := Reduction.tolerance_lt_one (by decide)
  have found : 0 < F.rank := (ofMatrix_factors A).rank_pos small nonzero
  have longest : F.LongestFirst A := storage_longest_first A
  obtain ⟨T, passes⟩ := longest.steps 0 (Nat.zero_le _)
  obtain ⟨p, B, pivot, leads, brought, -, lowers⟩ := passes.exchanges (by decide)
  obtain ⟨N, -, lower⟩ := lowers found
  exact ⟨T, B, N, p, le_antisymm F.rank_le_rows found, pivot, leads, brought,
    lower 1 one_pos one_lt_two, longest.dominates 0 1 found Fin.zero_lt_one⟩

end Factorization

end LeastSquares

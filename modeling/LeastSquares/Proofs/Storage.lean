import Mathlib.Data.Vector.Basic
import LeastSquares.Proofs.Loop
import LeastSquares.Storage

/-!
# What a program on storage leaves

A loop upward is known by the state before each of its passes. Two ways of naming these states cover
the programs on storage: the loop writes the entries of a vector one after another, or it follows a
fold over the positions of a vector. What stands in the storage is then a vector, and no access to
it is out of range.
-/

set_option autoImplicit false

namespace LeastSquares

namespace Storage

variable {α σ τ : Type} {n first last : Nat}

/-! ## Loops -/

theorem ascend_none (le : last ≤ first) (start : σ) (pass : Nat → σ → Option σ) :
    ascend first last start pass = some start := by
  rw [ascend, Nat.sub_eq_zero_of_le le]
  rfl

theorem ascend_succ (le : first ≤ last) (start : σ) (pass : Nat → σ → Option σ) :
    ascend first (last + 1) start pass = (ascend first last start pass).bind (pass last) := by
  simp [ascend, Nat.succ_sub le, List.range'_concat, Nat.add_sub_cancel' le]

theorem descend_none (le : last ≤ first) (start : σ) (pass : Nat → σ → Option σ) :
    descend first last start pass = some start := by
  rw [descend, Nat.sub_eq_zero_of_le le]
  rfl

theorem descend_succ (le : first ≤ last) (start : σ) (pass : Nat → σ → Option σ) :
    descend first (last + 1) start pass =
      (pass last start).bind fun s => descend first last s pass := by
  simp [descend, Nat.succ_sub le, List.range'_concat, Nat.add_sub_cancel' le]

/-- A loop upward is known by the state before each pass. -/
theorem ascend_states {state : Nat → σ} {pass : Nat → σ → Option σ} (le : first ≤ last)
    (next : ∀ i, first ≤ i → i < last → pass i (state i) = some (state (i + 1))) :
    ascend first last (state first) pass = some (state last) := by
  induction last, le using Nat.le_induction with
  | base => exact ascend_none le_rfl _ _
  | succ last le ih =>
      rw [ascend_succ le, ih fun i late early => next i late (by omega)]
      exact next last le (Nat.lt_succ_self last)

/-! ## Loops that write a vector -/

/-- The vector `v` with the entries `first, …, last - 1` replaced by those of `new`. -/
def splice (v new : Vector α n) (first last : Nat) : Vector α n :=
  Vector.ofFn fun i => if first ≤ i.val ∧ i.val < last then new i else v i

theorem splice_get (v new : Vector α n) (first last : Nat) (i : Fin n) :
    splice v new first last i = if first ≤ i.val ∧ i.val < last then new i else v i :=
  Vector.get_ofFn _ i

theorem splice_none (v new : Vector α n) (le : last ≤ first) : splice v new first last = v := by
  refine Vector.ext_get fun i => ?_
  rw [splice_get, if_neg (by omega)]

theorem splice_all (v new : Vector α n) : splice v new 0 n = new := by
  refine Vector.ext_get fun i => ?_
  rw [splice_get, if_pos ⟨Nat.zero_le _, i.isLt⟩]

theorem splice_succ (v new : Vector α n) (i : Fin n) (late : first ≤ i.val) :
    (splice v new first i).set i (new i) i.isLt = splice v new first (i + 1) := by
  refine Vector.ext_get fun k => ?_
  rw [Vector.get_set, splice_get, splice_get]
  by_cases same : i = k
  · subst same
    rw [if_pos rfl, if_pos ⟨late, Nat.lt_succ_self _⟩]
  · have other : i.val ≠ k.val := fun value => same (Fin.ext value)
    rw [if_neg same]
    exact if_congr (by omega) rfl rfl

section Writing

variable {v new : Vector α n} {pass : Nat → σ → Option σ}

/-- A loop that writes entry `i` of a vector in pass `i`, the vector being stored in any form. -/
theorem ascend_writes (stored : Vector α n → σ) (bound : last ≤ n)
    (next : ∀ i : Fin n, first ≤ i.val → i.val < last →
      pass i (stored (splice v new first i)) =
        some (stored ((splice v new first i).set i (new i) i.isLt))) :
    ascend first last (stored v) pass = some (stored (splice v new first last)) := by
  rcases Nat.le_total last first with none | le
  · rw [ascend_none none, splice_none v new none]
  · let state (i : Nat) : σ := stored (splice v new first i)
    have start : state first = stored v := congrArg stored (splice_none v new le_rfl)
    rw [← start]
    refine ascend_states le fun i late early => ?_
    have write := next ⟨i, by omega⟩ late early
    rwa [splice_succ v new ⟨i, by omega⟩ late] at write

end Writing

/-! ## Loops that follow a fold -/

/-- A loop that keeps its state related to that of a fold over the positions it passes. -/
theorem ascend_follows (R : τ → σ → Prop) {f : τ → Fin n → τ} {p : Fin n → Prop} [DecidablePred p]
    {pass : Nat → σ → Option σ} (inside : ∀ i, p i ↔ first ≤ i.val ∧ i.val < last)
    (bound : last ≤ n)
    (next : ∀ i t s, p i → R t s → ∃ s', pass i s = some s' ∧ R (f t i) s') {t : τ} {s : σ}
    (related : R t s) : ∃ s', ascend first last s pass = some s' ∧
      R (Fin.foldl n (fun t i => if p i then f t i else t) t) s' := by
  induction n generalizing last with
  | zero => exact ⟨s, ascend_none (by omega) s pass, by simpa using related⟩
  | succ n ih =>
      have front (i : Fin n) : p i.castSucc ↔ first ≤ i.val ∧ i.val < min last n := by
        rw [inside]
        simp
      obtain ⟨s', run, related⟩ := ih front (Nat.min_le_right _ _) fun i t s => next i.castSucc t s
      rw [Fin.foldl_succ_last]
      by_cases passed : p (Fin.last n)
      · obtain ⟨late, early⟩ := (inside _).mp passed
        have final : last = n + 1 := Nat.le_antisymm bound early
        have before : min last n = n := by omega
        rw [before] at run
        rw [final, ascend_succ (show first ≤ n from late), run, if_pos passed]
        exact next (Fin.last n) _ s' passed related
      · rw [if_neg passed]
        have skipped : ¬ (first ≤ n ∧ n < last) := fun both => passed ((inside _).mpr both)
        refine ⟨s', ?_, related⟩
        rcases Nat.lt_or_ge n last with reached | short
        · rw [ascend_none (by omega)] at run ⊢
          exact run
        · rwa [Nat.min_eq_left short] at run

theorem ascend_fold (stored : τ → σ) {f : τ → Fin n → τ} {p : Fin n → Prop} [DecidablePred p]
    {pass : Nat → σ → Option σ} (inside : ∀ i, p i ↔ first ≤ i.val ∧ i.val < last)
    (bound : last ≤ n) (next : ∀ i t, p i → pass i (stored t) = some (stored (f t i))) (t : τ) :
    ascend first last (stored t) pass =
      some (stored (Fin.foldl n (fun t i => if p i then f t i else t) t)) := by
  obtain ⟨s, run, rfl⟩ := ascend_follows (fun t s => s = stored t) inside bound
    (fun i t s passed same => ⟨_, same ▸ next i t passed, rfl⟩) (rfl : stored t = stored t)
  exact run

theorem ascend_follows_all (R : τ → σ → Prop) {f : τ → Fin n → τ} {pass : Nat → σ → Option σ}
    (next : ∀ (i : Fin n) t s, R t s → ∃ s', pass i s = some s' ∧ R (f t i) s') {t : τ} {s : σ}
    (related : R t s) : ∃ s', ascend 0 n s pass = some s' ∧ R (Fin.foldl n f t) s' := by
  have all (i : Fin n) : True ↔ 0 ≤ i.val ∧ i.val < n := by simp
  simpa using ascend_follows R all le_rfl (fun i t s _ => next i t s) related

theorem ascend_foldl (stored : τ → σ) {f : τ → Fin n → τ} {pass : Nat → σ → Option σ}
    (next : ∀ (i : Fin n) t, pass i (stored t) = some (stored (f t i))) (t : τ) :
    ascend 0 n (stored t) pass = some (stored (Fin.foldl n f t)) := by
  have all (i : Fin n) : True ↔ 0 ≤ i.val ∧ i.val < n := by simp
  simpa using ascend_fold stored all le_rfl (fun i t _ => next i t) t

theorem descend_fold (stored : τ → σ) {f : Fin n → τ → τ} {pass : Nat → σ → Option σ}
    (bound : last ≤ n)
    (next : ∀ (i : Fin n) t, i.val < last → pass i (stored t) = some (stored (f i t))) (t : τ) :
    descend 0 last (stored t) pass =
      some (stored (Fin.foldr n (fun i t => if i.val < last then f i t else t) t)) := by
  induction n generalizing last t with
  | zero => rw [descend_none bound, Fin.foldr_zero]
  | succ n ih =>
      have front (last : Nat) (bound : last ≤ n) (t : τ)
          (next : ∀ (i : Fin (n + 1)) t, i.val < last →
            pass i (stored t) = some (stored (f i t))) :=
        ih (f := fun i => f i.castSucc) bound (fun i t => next i.castSucc t) t
      rw [Fin.foldr_succ_last]
      by_cases passed : (Fin.last n).val < last
      · have final : last = n + 1 := Nat.le_antisymm bound passed
        subst final
        have first : pass n (stored t) = some (stored (f (Fin.last n) t)) :=
          next (Fin.last n) t passed
        rw [descend_succ (Nat.zero_le n), first, if_pos passed]
        refine (front n le_rfl _ fun i t _ => next i t i.isLt).trans ?_
        have inside (i : Fin n) : i.val < n + 1 := Nat.lt_succ_of_lt i.isLt
        simp [inside]
      · rw [if_neg passed]
        exact front last (not_lt.mp passed) t next

/-! ## Cells -/

@[simp] theorem read (v : Vector α n) (i : Fin n) : v.toArray[i.val]? = some (v i) := by
  simp [Vector.get_eq]

@[simp] theorem write_toArray (v : Vector α n) (i : Fin n) (x : α) :
    write v.toArray i x = some (v.set i x i.isLt).toArray := by
  simp [write]

@[simp] theorem exchange_toArray (v : Vector α n) (i j : Fin n) :
    exchange v.toArray i j = some (v.swap i j i.isLt j.isLt).toArray := by
  simp only [exchange, read, bind, Option.bind, write_toArray]
  rfl

theorem fill_toArray (v : Vector α n) (first : Nat) (x : α) : fill v.toArray first x =
    some (splice v (Vector.replicate n x) first n).toArray := by
  rw [fill, Vector.size_toArray]
  refine ascend_writes Vector.toArray le_rfl fun i _ _ => ?_
  rw [write_toArray, Vector.get_replicate]

theorem fill_all {cells : Array α} (length : cells.size = n) (x : α) :
    fill cells 0 x = some (Vector.replicate n x).toArray := by
  subst length
  exact (fill_toArray ⟨cells, rfl⟩ 0 x).trans (congrArg (some ∘ Vector.toArray) (splice_all _ _))

theorem carve_ok {stack : Array α} {f : Nat → Option α} {new : Vector α n}
    (room : n ≤ stack.size) (made : ∀ i : Fin n, f i = some (new i)) :
    carve stack n f = some (new.toArray, stack.extract n) := by
  let old : Vector α stack.size := ⟨stack, rfl⟩
  let padded : Vector α stack.size :=
    Vector.ofFn fun i => if h : i.val < n then new ⟨i, h⟩ else old i
  have loop : ascend 0 n old.toArray (fun i stack => do write stack i (← f i)) =
      some (splice old padded 0 n).toArray := by
    refine ascend_writes Vector.toArray room fun i _ early => ?_
    have entry : padded i = new ⟨i, early⟩ := by
      rw [Vector.get_ofFn, dif_pos early]
    simp only [made ⟨i, early⟩, bind, Option.bind, write_toArray, entry]
  have front : (splice old padded 0 n).toArray.extract 0 n = new.toArray := by
    apply Array.ext
    · simpa using room
    · intro i _ early
      simp only [Vector.size_toArray] at early
      simp [splice, padded, early, Vector.get_eq]
  have back : (splice old padded 0 n).toArray.extract n = stack.extract n := by
    apply Array.ext
    · simp
    · intro i _ _
      simp [splice, old, Vector.get_eq]
  rw [carve, loop, ← front, ← back]
  rfl

theorem carve_replicate {stack : Array α} (room : n ≤ stack.size) (x : α) :
    carve stack n (fun _ => some x) = some ((Vector.replicate n x).toArray, stack.extract n) :=
  carve_ok room fun i => by rw [Vector.get_replicate]

/-! ## Sums -/

section Sums

variable [Scalar α] {p : Fin n → Bool} {term : Fin n → α} {pass : Nat → α → Option α}

theorem ascend_addOver (inside : ∀ i, p i = true ↔ first ≤ i.val ∧ i.val < last) (bound : last ≤ n)
    (next : ∀ i sum, p i = true → pass i sum = some (sum + term i)) (start : α) :
    ascend first last start pass = some (Scalar.addOver start p term) :=
  ascend_fold id inside bound next start

theorem ascend_subOver (inside : ∀ i, p i = true ↔ first ≤ i.val ∧ i.val < last) (bound : last ≤ n)
    (next : ∀ i sum, p i = true → pass i sum = some (sum - term i)) (start : α) :
    ascend first last start pass = some (Scalar.subOver start p term) :=
  ascend_fold id inside bound next start

end Sums

end Storage

/-! ## Matrices by their columns -/

variable {α : Type} {m n : Nat}

namespace DenseMatrix

theorem offset_at (k : Fin (m * n)) : offset (rowAt k) (colAt k) = k :=
  Fin.ext (Nat.div_add_mod' k.val m)

theorem ext_get {A B : DenseMatrix α m n} (same : ∀ i j, A.get i j = B.get i j) : A = B := by
  obtain ⟨a⟩ := A
  obtain ⟨b⟩ := B
  congr 1
  refine Vector.ext_get fun k => ?_
  have entry := same (rowAt k) (colAt k)
  simpa only [get, offset_at] using entry

@[simp] theorem get_ofCols (cols : Vector (Vector α m) n) (i : Fin m) (j : Fin n) :
    (ofCols cols).get i j = cols j i :=
  get_ofFn _ i j

theorem ofCols_col (A : DenseMatrix α m n) : ofCols (Vector.ofFn A.col) = A := by
  refine ext_get fun i j => ?_
  rw [get_ofCols, Vector.get_ofFn, col, Vector.get_ofFn]

@[simp] theorem col_ofCols (cols : Vector (Vector α m) n) (j : Fin n) :
    (ofCols cols).col j = cols j := by
  refine Vector.ext_get fun i => ?_
  rw [col, Vector.get_ofFn, get_ofCols]

theorem set_ofCols (cols : Vector (Vector α m) n) (i : Fin m) (j : Fin n) (x : α) :
    (ofCols cols).set i j x = ofCols (cols.set j ((cols j).set i x i.isLt) j.isLt) := by
  refine ext_get fun i' j' => ?_
  rw [get_set, get_ofCols, get_ofCols, Vector.get_set]
  by_cases column : j = j'
  · subst column
    rw [if_pos rfl, Vector.get_set]
    exact if_congr (by rw [eq_comm, and_iff_left rfl]) rfl rfl
  · rw [if_neg column, if_neg fun both => column both.2.symm]

theorem swapCols_ofCols (cols : Vector (Vector α m) n) (a b : Fin n) :
    (ofCols cols).swapCols a b = ofCols (cols.swap a b a.isLt b.isLt) := by
  let swapped (t : Nat) (A : DenseMatrix α m n) : Prop := ∀ i j,
    A.get i j = if i.val < t then cols.swap a b a.isLt b.isLt j i else cols j i
  have all : swapped m ((ofCols cols).swapCols a b) := by
    refine foldl_carries _ swapped _ (fun i j => get_ofCols cols i j) fun k A holds i j => ?_
    dsimp only
    rw [get, Vector.get_swap]
    simp only [offset_eq_iff]
    by_cases row : k = i
    · subst row
      have here (j : Fin n) : A.data (offset k j) = cols j k := by
        rw [← get, holds k j, if_neg (Nat.lt_irrefl _)]
      rw [here, here, here, if_pos (Nat.lt_succ_self _), Vector.get_swap]
      simp only [eq_comm, true_and]
      split
      · rfl
      · split <;> rfl
    · have other : k.val ≠ i.val := fun value => row (Fin.ext value)
      rw [if_neg fun both => row both.1, if_neg fun both => row both.1, ← get, holds i j]
      exact if_congr (by omega) rfl rfl
  refine ext_get fun i j => ?_
  rw [all i j, if_pos i.isLt, get_ofCols]

end DenseMatrix

namespace AnyMatrix

@[simp] theorem get?_mk (A : DenseMatrix α m n) (i : Fin m) (j : Fin n) :
    (⟨A⟩ : AnyMatrix α).get? i j = some (A.get i j) :=
  dif_pos ⟨i.isLt, j.isLt⟩

@[simp] theorem set?_mk (A : DenseMatrix α m n) (i : Fin m) (j : Fin n) (x : α) :
    (⟨A⟩ : AnyMatrix α).set? i j x = some ⟨A.set i j x⟩ :=
  dif_pos ⟨i.isLt, j.isLt⟩

@[simp] theorem col?_mk (A : DenseMatrix α m n) (j : Fin n) :
    (⟨A⟩ : AnyMatrix α).col? j = some (A.col j).toArray :=
  dif_pos j.isLt

end AnyMatrix

end LeastSquares

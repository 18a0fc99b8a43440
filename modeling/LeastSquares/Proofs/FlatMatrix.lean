import Mathlib.Logic.Equiv.Basic
import LeastSquares.FlatMatrix
import LeastSquares.Proofs.Storage

/-!
# A matrix as a function of row and column

Flat storage answers for every row and column inside the shape, and for no others. An edit changes
the answers it names and no others, by whichever of the two ways they are read: entry by entry, or
as a column.
-/

set_option autoImplicit false

namespace LeastSquares

open Storage

variable {α σ : Type} {m n : Nat}

/-! ## Room -/

/-- A matrix of this shape can be stored, and its columns can be counted. -/
structure Storable (m n : Nat) : Prop where
  room : Allocatable (m * n)
  countable : Addressable n

theorem Allocatable.addressable {count number : Nat} (room : Allocatable count)
    (le : number ≤ count) : Addressable number := by
  have space : addressSpace = 18446744073709551616 := rfl
  unfold Allocatable elementBytes at room
  unfold Addressable
  omega

namespace Storage

section Guards

variable {p : Prop} [Decidable p] {f : Unit → Option α}

theorem guard_pass (passes : p) : (guard p >>= f) = f () := by
  rw [guard, if_pos passes]
  rfl

theorem guard_fail (fails : ¬ p) : (guard p >>= f) = none := by
  rw [guard, if_neg fails]
  rfl

end Guards

theorem checked_ok {number : Nat} (small : Addressable number) :
    checked number = some number :=
  if_pos small

theorem checked_eq_some {number result : Nat} :
    checked number = some result ↔ Addressable number ∧ number = result := by
  unfold checked
  split <;> simp_all

theorem slice_ok {cells : Array α} {first last : Nat} (ordered : first ≤ last)
    (inside : last ≤ cells.size) : slice cells first last = some (cells.extract first last) :=
  if_pos ⟨ordered, inside⟩

theorem slice_inside {cells list : Array α} {first last : Nat}
    (lent : slice cells first last = some list) : last ≤ cells.size := by
  by_contra outside
  rw [slice, if_neg fun within => outside within.2] at lent
  cases lent

theorem exchange_inside {cells out : Array α} {i j : Nat} (done : exchange cells i j = some out) :
    i < cells.size ∧ j < cells.size := by
  obtain ⟨x, first, done⟩ := Option.bind_eq_some_iff.mp done
  obtain ⟨y, second, _⟩ := Option.bind_eq_some_iff.mp done
  exact ⟨(Array.getElem?_eq_some_iff.mp first).1, (Array.getElem?_eq_some_iff.mp second).1⟩

theorem ascend_first {first last : Nat} {start out : σ} {pass : Nat → σ → Option σ}
    (some? : first < last) (done : ascend first last start pass = some out) :
    ∃ s, pass first start = some s := by
  obtain ⟨count, more⟩ := Nat.exists_eq_succ_of_ne_zero (Nat.sub_ne_zero_of_lt some?)
  rw [ascend, more, List.range'_succ, List.foldlM_cons] at done
  obtain ⟨s, passed, _⟩ := Option.bind_eq_some_iff.mp done
  exact ⟨s, passed⟩

theorem ascend_keeps {first last : Nat} {pass : Nat → σ → Option σ} (I : σ → Prop)
    (next : ∀ i s s', I s → pass i s = some s' → I s') {start out : σ} (holds : I start)
    (done : ascend first last start pass = some out) : I out := by
  rw [ascend] at done
  generalize List.range' first (last - first) = positions at done
  induction positions generalizing start with
  | nil =>
      cases Option.some.inj done
      exact holds
  | cons i rest ih =>
      obtain ⟨s, passed, done⟩ := Option.bind_eq_some_iff.mp done
      exact ih (next i start s holds passed) done

end Storage

/-! ## Entries and columns of stored matrices -/

theorem swap_get (v : Vector α n) (a b i : Fin n) :
    v.swap a b a.isLt b.isLt i = v (Equiv.swap a b i) := by
  rw [Vector.get_swap, Equiv.swap_apply_def]
  split
  · rfl
  · split <;> rfl

theorem swap_val (a b j : Fin n) :
    Equiv.swap a.val b.val j.val = (Equiv.swap a b j).val := by
  simp only [Equiv.swap_apply_def, ← Fin.ext_iff, apply_ite Fin.val]

section Stored

variable (A : DenseMatrix α m n)

namespace DenseMatrix

theorem column_end (j : Fin n) : (j.val + 1) * m ≤ m * n := by
  rw [Nat.mul_comm m n]
  exact Nat.mul_le_mul_right m j.isLt

theorem get_setCol (j : Fin n) (v : Vector α m) (i' : Fin m) (j' : Fin n) :
    (A.setCol j v).get i' j' = if j' = j then v i' else A.get i' j' := by
  let written (t : Nat) (B : DenseMatrix α m n) : Prop := ∀ i' j',
    B.get i' j' = if i'.val < t ∧ j' = j then v i' else A.get i' j'
  have all : written m (A.setCol j v) := by
    refine foldl_carries _ written A (fun i' j' => ?_) fun i B holds i' j' => ?_
    · rw [if_neg fun both => Nat.not_lt_zero _ both.1]
    · rw [get_set, holds i' j']
      by_cases here : i' = i ∧ j' = j
      · obtain ⟨rfl, rfl⟩ := here
        rw [if_pos ⟨rfl, rfl⟩, if_pos ⟨Nat.lt_succ_self _, rfl⟩]
      · rw [if_neg here]
        refine if_congr (and_congr_left fun column => ?_) rfl rfl
        have row : i'.val ≠ i.val := fun value => here ⟨Fin.ext value, column⟩
        omega
  rw [all i' j']
  exact if_congr (and_iff_right i'.isLt) rfl rfl

theorem get_swapCols (a b : Fin n) (i : Fin m) (j : Fin n) :
    (A.swapCols a b).get i j = A.get i (Equiv.swap a b j) := by
  rw [← A.ofCols_col, swapCols_ofCols, get_ofCols, get_ofCols, swap_get]

theorem swapCols_swapCols (a b : Fin n) : (A.swapCols a b).swapCols a b = A := by
  refine ext_get fun i j => ?_
  rw [get_swapCols, get_swapCols]
  exact congrArg (A.get i) ((Equiv.swap a b).symm_apply_apply j)

end DenseMatrix

@[simp] theorem DenseMatrix.storage_nrows : A.storage.nrows = m := rfl

@[simp] theorem DenseMatrix.storage_ncols : A.storage.ncols = n := rfl

@[simp] theorem DenseMatrix.storage_data : A.storage.data = A.data.toArray := rfl

theorem FlatMatrix.column_of_position (S : FlatMatrix α) {j position : Nat}
    (found : S.position 0 j = some position) (inside : position < S.nrows * S.ncols) :
    j < S.ncols := by
  obtain ⟨column, started, found⟩ := Option.bind_eq_some_iff.mp found
  obtain ⟨-, rfl⟩ := checked_eq_some.mp started
  obtain ⟨-, rfl⟩ := checked_eq_some.mp found
  rw [Nat.add_zero, Nat.mul_comm] at inside
  exact Nat.lt_of_mul_lt_mul_left inside

theorem Storable.position (fits : Storable m n) (i : Fin m) (j : Fin n) :
    A.storage.position i j = some (DenseMatrix.offset i j).val := by
  have inside : j.val * m + i.val < m * n := (DenseMatrix.offset i j).isLt
  have column : Addressable (j.val * m) := fits.room.addressable (by omega)
  have entry : Addressable (j.val * m + i.val) := fits.room.addressable inside.le
  simp only [FlatMatrix.position, DenseMatrix.storage_nrows, checked_ok column, checked_ok entry,
    bind, Option.bind]
  rfl

theorem Storable.slice (fits : Storable m n) (j : Fin n) :
    A.storage.col j = some (A.col j).toArray := by
  have inside : (j.val + 1) * m ≤ m * n := DenseMatrix.column_end j
  have split : (j.val + 1) * m = j.val * m + m := Nat.succ_mul j.val m
  have first : Addressable (j.val * m) := fits.room.addressable (by omega)
  have last : Addressable ((j.val + 1) * m) := fits.room.addressable inside
  have next : Addressable (j.val + 1) := Nat.lt_of_le_of_lt j.isLt fits.countable
  have size : A.data.toArray.size = m * n := A.data.size_toArray
  simp only [FlatMatrix.col, DenseMatrix.storage_nrows, DenseMatrix.storage_data, checked_ok first,
    checked_ok last, checked_ok next, bind, Option.bind]
  rw [slice_ok (by omega) (by omega)]
  congr 1
  apply Array.ext
  · simp
    omega
  · intro i _ below
    rw [Vector.size_toArray] at below
    simp only [Array.getElem_extract, DenseMatrix.col, Vector.getElem_toArray, Vector.getElem_ofFn]
    rfl

end Stored

/-! ## Blank storage -/

section Blank

variable [Zero α]

theorem FlatMatrix.zeros_room (room : Allocatable (m * n)) :
    FlatMatrix.zeros m n = .ok (DenseMatrix.zeros : DenseMatrix α m n).storage := by
  rw [zeros, checkAllocatable, if_pos room]
  rfl

theorem FlatMatrix.zeros_crowded (crowded : ¬ Allocatable (m * n)) :
    (FlatMatrix.zeros m n : Except LinalgError (FlatMatrix α)) = .error .outOfMemory := by
  rw [zeros, checkAllocatable, if_neg crowded]
  rfl

end Blank

/-! ## The programs come to the operations on matrices -/

namespace DenseMatrix

variable (A : DenseMatrix α m n)

theorem storage_index (fits : Storable m n) (i j : Nat) :
    A.storage.index i j = (⟨A⟩ : AnyMatrix α).get? i j := by
  rw [FlatMatrix.index, storage_nrows, storage_ncols, storage_data, AnyMatrix.get?]
  by_cases inside : i < m ∧ j < n
  · have position := fits.position A ⟨i, inside.1⟩ ⟨j, inside.2⟩
    rw [guard_pass inside, dif_pos inside, position]
    exact Storage.read A.data _
  · rw [guard_fail inside, dif_neg inside]

theorem storage_set (fits : Storable m n) (i j : Nat) (x : α) :
    A.storage.set i j x = ((⟨A⟩ : AnyMatrix α).set? i j x).map AnyMatrix.storage := by
  rw [FlatMatrix.set, storage_nrows, storage_ncols, storage_data, AnyMatrix.set?]
  by_cases inside : i < m ∧ j < n
  · have position := fits.position A ⟨i, inside.1⟩ ⟨j, inside.2⟩
    rw [guard_pass inside, dif_pos inside, position]
    simp only [bind, Option.bind, write_toArray]
    rfl
  · rw [guard_fail inside, dif_neg inside]
    rfl

theorem storage_col (fits : Storable m n) (j : Nat) :
    A.storage.col j = (⟨A⟩ : AnyMatrix α).col? j := by
  rw [AnyMatrix.col?]
  by_cases inside : j < n
  · rw [dif_pos inside]
    exact fits.slice A ⟨j, inside⟩
  · rw [dif_neg inside, FlatMatrix.col, storage_nrows, storage_data]
    -- without rows every slice is empty, so that one behind the last column is in range
    by_cases empty : (⟨A⟩ : AnyMatrix α).EmptyCol j
    · obtain ⟨none, next⟩ := empty
      rw [if_pos ⟨none, next⟩]
      obtain rfl : m = 0 := none
      have zero : Addressable 0 := by decide
      simp only [Nat.mul_zero, checked_ok zero, checked_ok next, bind, Option.bind]
      rw [slice_ok le_rfl (Nat.zero_le _), Array.extract_zero]
    · rw [if_neg empty, Option.eq_none_iff_forall_ne_some]
      intro column lent
      obtain ⟨first, -, lent⟩ := Option.bind_eq_some_iff.mp lent
      obtain ⟨next, counted, lent⟩ := Option.bind_eq_some_iff.mp lent
      obtain ⟨last, ended, lent⟩ := Option.bind_eq_some_iff.mp lent
      obtain ⟨small, rfl⟩ := checked_eq_some.mp counted
      obtain ⟨-, rfl⟩ := checked_eq_some.mp ended
      have within : (j + 1) * m ≤ n * m := by
        simpa [Nat.mul_comm m n] using slice_inside lent
      have rows : 0 < m := Nat.pos_of_ne_zero fun none => empty ⟨none, small⟩
      exact inside (Nat.le_of_mul_le_mul_right within rows)

theorem storage_fill (x : α) : A.storage.fill x = some (A.fill x).storage := by
  have filled := fill_all A.data.size_toArray x
  simp only [FlatMatrix.fill, storage_data, filled, bind, Option.bind]
  rfl

theorem setCol?_toArray (j : Fin n) (v : Vector α m) :
    (⟨A⟩ : AnyMatrix α).setCol? j v.toArray = some ⟨A.setCol j v⟩ := by
  have same {list : Array α} {k : Nat} (length : list.size = k) :
      (length ▸ list.toVector : Vector α k) = ⟨list, length⟩ := by
    subst length
    rfl
  rw [AnyMatrix.setCol?, dif_pos v.size_toArray, dif_pos j.isLt, same]

theorem overlay_column (j : Fin n) (v : Vector α m) :
    overlay A.data.toArray (j.val * m) v.toArray = some (A.setCol j v).data.toArray := by
  rw [overlay, Vector.size_toArray]
  refine ascend_foldl (fun A : DenseMatrix α m n => A.data.toArray) (fun i A => ?_) A
  have entry : j.val * m + i.val = (offset i j).val := rfl
  simp only [Storage.read, bind, Option.bind, entry, write_toArray]
  rfl

theorem size_col? {j : Nat} {column : Array α} (lent : (⟨A⟩ : AnyMatrix α).col? j = some column) :
    column.size = m := by
  rw [AnyMatrix.col?] at lent
  split at lent
  · cases lent
    exact Vector.size_toArray _
  · split at lent
    · rename_i empty
      cases lent
      exact empty.1.symm
    · cases lent

theorem storage_setCol (fits : Storable m n) (j : Nat) (list : Array α) :
    A.storage.setCol j list = ((⟨A⟩ : AnyMatrix α).setCol? j list).map AnyMatrix.storage := by
  rw [FlatMatrix.setCol, storage_col A fits, storage_nrows, storage_data]
  by_cases length : list.size = m
  · obtain ⟨v, rfl⟩ : ∃ v : Vector α m, list = v.toArray := ⟨⟨list, length⟩, rfl⟩
    by_cases inside : j < n
    · obtain ⟨j, rfl⟩ : ∃ j' : Fin n, j = j' := ⟨⟨j, inside⟩, rfl⟩
      have start : j.val * m ≤ m * n :=
        (Nat.mul_le_mul_right m (Nat.le_succ j.val)).trans (column_end j)
      have first : Addressable (j.val * m) := fits.room.addressable start
      have same : v.toArray.size = (A.col j).toArray.size := by simp
      rw [AnyMatrix.col?_mk, setCol?_toArray, Option.bind_eq_bind, Option.bind_some,
        guard_pass same, checked_ok first]
      simp only [bind, Option.bind, overlay_column]
      rfl
    · rw [AnyMatrix.col?, AnyMatrix.setCol?, dif_pos length, dif_neg inside, dif_neg inside]
      by_cases empty : (⟨A⟩ : AnyMatrix α).EmptyCol j
      · obtain rfl : m = 0 := empty.1
        have zero : Addressable 0 := by decide
        have same : v.toArray.size = (#[] : Array α).size := length
        rw [if_pos empty, if_pos empty, Option.bind_eq_bind, Option.bind_some, guard_pass same,
          Nat.mul_zero, checked_ok zero]
        have laid : overlay A.data.toArray 0 v.toArray = some A.data.toArray := by
          rw [overlay, length, ascend_none le_rfl]
        simp only [bind, Option.bind, laid]
        rfl
      · rw [if_neg empty, if_neg empty]
        rfl
  · rw [AnyMatrix.setCol?, dif_neg length]
    cases lent : (⟨A⟩ : AnyMatrix α).col? j with
    | none => rfl
    | some column =>
        have other : list.size ≠ column.size := by
          rw [A.size_col? lent]
          exact length
        rw [Option.bind_eq_bind, Option.bind_some, guard_fail other]
        rfl

theorem storage_swapCols (fits : Storable m n) (a b : Nat) :
    A.storage.swapCols a b = ((⟨A⟩ : AnyMatrix α).swapCols? a b).map AnyMatrix.storage := by
  rw [FlatMatrix.swapCols, AnyMatrix.swapCols?, storage_nrows, storage_data]
  by_cases still : a = b
  · rw [if_pos still, if_pos (.inl still)]
    rfl
  rw [if_neg still]
  by_cases none : m = 0
  · subst none
    rw [if_pos (.inr rfl), ascend_none le_rfl]
    rfl
  rw [if_neg fun either => either.elim still none]
  by_cases inside : a < n ∧ b < n
  · obtain ⟨a, rfl⟩ : ∃ a' : Fin n, a = a' := ⟨⟨a, inside.1⟩, rfl⟩
    obtain ⟨b, rfl⟩ : ∃ b' : Fin n, b = b' := ⟨⟨b, inside.2⟩, rfl⟩
    rw [dif_pos inside]
    have loop : ascend 0 m A.data.toArray (fun i data => do
        exchange data (← A.storage.position i a) (← A.storage.position i b)) =
          some (A.swapCols a b).data.toArray := by
      refine ascend_foldl (fun A : DenseMatrix α m n => A.data.toArray) (fun i B => ?_) A
      rw [fits.position A i a, fits.position A i b]
      exact exchange_toArray B.data (offset i a) (offset i b)
    rw [loop]
    rfl
  · rw [dif_neg inside, Option.map_none, Option.eq_none_iff_forall_ne_some]
    intro S swapped
    obtain ⟨data, done, -⟩ := Option.bind_eq_some_iff.mp swapped
    -- the pass over the first row looks into both columns, and finds one of them missing
    obtain ⟨once, passed⟩ := ascend_first (Nat.pos_of_ne_zero none) done
    obtain ⟨p, first, passed⟩ := Option.bind_eq_some_iff.mp passed
    obtain ⟨q, second, passed⟩ := Option.bind_eq_some_iff.mp passed
    obtain ⟨left, right⟩ := exchange_inside passed
    rw [A.data.size_toArray] at left right
    exact inside ⟨A.storage.column_of_position first left,
      A.storage.column_of_position second right⟩

/-! ## Constructors -/

section Constructors

variable [Zero α]

/-- A matrix into which the first `t` entries of another have been written, over zeros. -/
def partly (t : Nat) : DenseMatrix α m n := ⟨splice zeros.data A.data 0 t⟩

theorem partly_set (fits : Storable m n) (i : Fin m) (j : Fin n) :
    (A.partly (offset i j)).storage.set i j (A.get i j) =
      some (A.partly (offset i j + 1)).storage := by
  have next : (A.partly (offset i j)).set i j (A.get i j) = A.partly (offset i j + 1) :=
    congrArg DenseMatrix.mk (splice_succ zeros.data A.data (offset i j) (Nat.zero_le _))
  rw [storage_set _ fits, AnyMatrix.set?_mk, next]
  rfl

variable {A}

/-- What is built from answers is known by the states between them: they are asked for in the order
in which the entries are stored. -/
theorem ofFn_ok {answer : Nat → Nat → σ → Option (α × σ)} {state : Nat → σ}
    (fits : Storable m n) (answers : ∀ (i : Fin m) (j : Fin n),
      answer i j (state (offset i j)) = some (A.get i j, state (offset i j + 1))) :
    FlatMatrix.ofFn m n answer (state 0) = some (.ok A.storage) := by
  let reached (t : Nat) : FlatMatrix α × σ := ((A.partly t).storage, state t)
  have entry (i : Fin m) (j : Fin n) :
      FlatMatrix.ask answer j i (reached (offset i j)) = some (reached (offset i j + 1)) := by
    simp only [FlatMatrix.ask, reached, answers i j, A.partly_set fits i j, bind, Option.bind]
    rfl
  have column (j : Nat) (inside : j < n) :
      ascend 0 m (reached (j * m)) (FlatMatrix.ask answer j) = some (reached ((j + 1) * m)) := by
    let state (i : Nat) : FlatMatrix α × σ := reached (j * m + i)
    rw [Nat.succ_mul]
    change ascend 0 m (state 0) (FlatMatrix.ask answer j) = some (state m)
    exact ascend_states (Nat.zero_le m) fun i _ below => entry ⟨i, below⟩ ⟨j, inside⟩
  have all : ascend 0 n (reached 0) (fun j now => ascend 0 m now (FlatMatrix.ask answer j)) =
      some (reached (n * m)) := by
    let state (j : Nat) : FlatMatrix α × σ := reached (j * m)
    have loop : ascend 0 n (state 0) (fun j now => ascend 0 m now (FlatMatrix.ask answer j)) =
        some (state n) :=
      ascend_states (Nat.zero_le n) fun j _ below => column j below
    rwa [show state 0 = reached 0 from congrArg reached (Nat.zero_mul m)] at loop
  have first : (A.partly 0).storage = (zeros : DenseMatrix α m n).storage :=
    congrArg (fun data => (⟨data⟩ : DenseMatrix α m n).storage)
      (splice_none zeros.data A.data le_rfl)
  have last : (A.partly (n * m)).storage = A.storage := by
    rw [Nat.mul_comm n m]
    exact congrArg (fun data => (⟨data⟩ : DenseMatrix α m n).storage) (splice_all _ A.data)
  simp only [reached, first, last] at all
  rw [FlatMatrix.ofFn, FlatMatrix.zeros_room fits.room]
  dsimp only
  rw [all]
  rfl

end Constructors

end DenseMatrix

theorem AnyMatrix.ofFn_room (room : Allocatable (m * n)) (f : Nat → Nat → α) :
    ofFn m n f = .ok ⟨(.ofFn fun i j => f i j : DenseMatrix α m n)⟩ := by
  rw [ofFn, checkAllocatable, if_pos room]
  rfl

theorem AnyMatrix.ofFn_crowded (crowded : ¬ Allocatable (m * n)) (f : Nat → Nat → α) :
    ofFn m n f = .error .outOfMemory := by
  rw [ofFn, checkAllocatable, if_neg crowded]
  rfl

section Constructors

variable [Zero α]

theorem storage_zeros (m n : Nat) : (FlatMatrix.zeros m n : Except LinalgError (FlatMatrix α)) =
    (AnyMatrix.zeros m n).map AnyMatrix.storage := by
  rw [FlatMatrix.zeros, AnyMatrix.zeros, checkAllocatable]
  by_cases room : Allocatable (m * n)
  · rw [if_pos room]
    rfl
  · rw [if_neg room]
    rfl

theorem FlatMatrix.ofFn_crowded {answer : Nat → Nat → σ → Option (α × σ)} {start : σ}
    (crowded : ¬ Allocatable (m * n)) :
    FlatMatrix.ofFn m n answer start = some (.error .outOfMemory) := by
  rw [FlatMatrix.ofFn, FlatMatrix.zeros_crowded crowded]

theorem storage_ofFn (countable : Addressable n) (f : Nat → Nat → α)
    {answer : Nat → Nat → σ → Option (α × σ)} {s : σ}
    (answers : ∀ i < m, ∀ j < n, answer i j s = some (f i j, s)) :
    FlatMatrix.ofFn m n answer s = some ((AnyMatrix.ofFn m n f).map AnyMatrix.storage) := by
  by_cases room : Allocatable (m * n)
  · rw [AnyMatrix.ofFn_room room]
    let state (_ : Nat) : σ := s
    let A : DenseMatrix α m n := .ofFn fun i j => f i j
    change FlatMatrix.ofFn m n answer (state 0) = some (.ok A.storage)
    refine DenseMatrix.ofFn_ok ⟨room, countable⟩ fun i j => ?_
    rw [DenseMatrix.get_ofFn]
    exact answers i i.isLt j j.isLt
  · rw [AnyMatrix.ofFn_crowded room]
    exact FlatMatrix.ofFn_crowded room

end Constructors

/-! ## Rows -/

namespace AnyMatrix

/-- Why rows are refused: one of them has not the length of the first, or they are all of one length
and too many entries. -/
inductive RowsRefused (rows : List (Array α)) : LinalgError → Prop
  | ragged {before after : List (Array α)} {row : Array α} (split : rows = before ++ row :: after)
      (even : ∀ earlier ∈ before, earlier.size = widthOfRows rows)
      (other : row.size ≠ widthOfRows rows) :
      RowsRefused rows (.dimensionMismatch (widthOfRows rows) row.size)
  | crowded (even : ∀ row ∈ rows, row.size = widthOfRows rows)
      (room : ¬ Allocatable (rows.length * widthOfRows rows)) : RowsRefused rows .outOfMemory

theorem even_or_ragged (rows : List (Array α)) (width : Nat) :
    (∀ row ∈ rows, row.size = width) ∨ ∃ before row after, rows = before ++ row :: after ∧
      (∀ earlier ∈ before, earlier.size = width) ∧ row.size ≠ width := by
  induction rows with
  | nil => exact .inl fun _ none => absurd none List.not_mem_nil
  | cons first rest ih =>
      by_cases fits : first.size = width
      · rcases ih with even | ⟨before, row, after, rfl, even, other⟩
        · exact .inl (List.forall_mem_cons.mpr ⟨fits, even⟩)
        · exact .inr ⟨first :: before, row, after, rfl, List.forall_mem_cons.mpr ⟨fits, even⟩,
            other⟩
      · exact .inr ⟨[], first, rest, rfl, fun _ none => absurd none List.not_mem_nil, fits⟩

theorem length_entries {rows : List (Array α)} {width : Nat}
    (even : ∀ row ∈ rows, row.size = width) :
    (rows.flatMap Array.toList).length = rows.length * width := by
  induction rows with
  | nil => exact (Nat.zero_mul width).symm
  | cons first rest ih =>
      obtain ⟨fits, even⟩ := List.forall_mem_cons.mp even
      rw [List.flatMap_cons, List.length_append, ih even, Array.length_toList, fits,
        List.length_cons, Nat.succ_mul, Nat.add_comm]

theorem forM_even {rows : List (Array α)} {width : Nat} (even : ∀ row ∈ rows, row.size = width) :
    rows.forM (fun row => checkLength row.size width) = .ok () := by
  induction rows with
  | nil => rfl
  | cons first rest ih =>
      obtain ⟨fits, even⟩ := List.forall_mem_cons.mp even
      change (checkLength first.size width >>= fun _ => rest.forM _) = _
      rw [checkLength_eq_ok.mpr fits]
      exact ih even

theorem forM_ragged {rows before after : List (Array α)} {row : Array α} {width : Nat}
    (split : rows = before ++ row :: after) (even : ∀ earlier ∈ before, earlier.size = width)
    (other : row.size ≠ width) : rows.forM (fun row => checkLength row.size width) =
      .error (.dimensionMismatch width row.size) := by
  subst split
  induction before with
  | nil =>
      have refused : checkLength row.size width = .error (.dimensionMismatch width row.size) :=
        if_neg other
      change (checkLength row.size width >>= fun _ => after.forM _) = _
      rw [refused]
      rfl
  | cons first rest ih =>
      obtain ⟨fits, even⟩ := List.forall_mem_cons.mp even
      change (checkLength first.size width >>= fun _ => (rest ++ row :: after).forM _) = _
      rw [checkLength_eq_ok.mpr fits]
      exact ih even

section Rows

variable [Zero α] {rows : List (Array α)}

theorem ofRows_even (even : ∀ row ∈ rows, row.size = widthOfRows rows) :
    ofRows rows = ofFn rows.length (widthOfRows rows) fun i j =>
      (rows[i]?.bind (·[j]?)).getD 0 := by
  rw [ofRows, forM_even even]
  rfl

theorem ofRows_ragged {before after : List (Array α)} {row : Array α}
    (split : rows = before ++ row :: after)
    (even : ∀ earlier ∈ before, earlier.size = widthOfRows rows)
    (other : row.size ≠ widthOfRows rows) :
    ofRows rows = .error (.dimensionMismatch (widthOfRows rows) row.size) := by
  rw [ofRows, forM_ragged split even other]
  rfl

theorem ofRows_cases (rows : List (Array α)) :
    ((∀ row ∈ rows, row.size = widthOfRows rows) ∧
      Allocatable (rows.length * widthOfRows rows) ∧
      ofRows rows = .ok ⟨(.ofFn fun i j => (rows[i.val]?.bind (·[j.val]?)).getD 0 :
        DenseMatrix α rows.length (widthOfRows rows))⟩) ∨
    ∃ error, RowsRefused rows error ∧ ofRows rows = .error error := by
  rcases even_or_ragged rows (widthOfRows rows) with
    even | ⟨before, row, after, split, even, other⟩
  · by_cases room : Allocatable (rows.length * widthOfRows rows)
    · exact .inl ⟨even, room, (ofRows_even even).trans (ofFn_room room _)⟩
    · exact .inr ⟨_, .crowded even room, (ofRows_even even).trans (ofFn_crowded room _)⟩
  · exact .inr ⟨_, .ragged split even other, ofRows_ragged split even other⟩

theorem ofRows_error_iff {error : LinalgError} :
    ofRows rows = .error error ↔ RowsRefused rows error := by
  constructor
  · intro refused
    rcases ofRows_cases rows with ⟨-, -, made⟩ | ⟨other, because, made⟩
    · cases made.symm.trans refused
    · cases made.symm.trans refused
      exact because
  · intro refused
    cases refused with
    | ragged split even other => exact ofRows_ragged split even other
    | crowded even room => exact (ofRows_even even).trans (ofFn_crowded room _)

omit [Zero α] in
theorem entry_of_even (even : ∀ row ∈ rows, row.size = widthOfRows rows) (i j : Nat) :
    (i < rows.length ∧ j < widthOfRows rows ∧ ∃ x, rows[i]?.bind (·[j]?) = some x) ∨
    (¬ (i < rows.length ∧ j < widthOfRows rows) ∧ rows[i]?.bind (·[j]?) = none) := by
  by_cases below : i < rows.length
  · have width : rows[i].size = widthOfRows rows := even _ (List.getElem_mem below)
    rw [List.getElem?_eq_getElem below, Option.bind_some]
    by_cases left : j < widthOfRows rows
    · exact .inl ⟨below, left, _, Array.getElem?_eq_getElem (width.symm ▸ left)⟩
    · exact .inr ⟨fun both => left both.2, Array.getElem?_eq_none (by omega)⟩
  · rw [List.getElem?_eq_none (not_lt.mp below)]
    exact .inr ⟨fun both => below both.1, rfl⟩

theorem ofRows_ok {A : AnyMatrix α} (made : ofRows rows = .ok A) :
    Allocatable (rows.length * widthOfRows rows) ∧ A.nrows = rows.length ∧
      A.ncols = widthOfRows rows ∧ ∀ i j, A.get? i j = rows[i]?.bind (·[j]?) := by
  rcases ofRows_cases rows with ⟨even, room, done⟩ | ⟨error, -, refused⟩
  · cases done.symm.trans made
    refine ⟨room, rfl, rfl, fun i j => ?_⟩
    rw [get?]
    rcases entry_of_even even i j with ⟨below, left, x, entry⟩ | ⟨outside, none⟩
    · rw [dif_pos ⟨below, left⟩, DenseMatrix.get_ofFn, entry, Option.getD_some]
    · rw [dif_neg outside, none]
  · cases refused.symm.trans made

end Rows

end AnyMatrix

theorem AnyMatrix.countable_rows {rows : List (Array α)}
    (room : Allocatable (rows.length * widthOfRows rows)) : Addressable (widthOfRows rows) := by
  cases rows with
  | nil => exact (by decide : Addressable 0)
  | cons first rest => exact room.addressable (Nat.le_mul_of_pos_left _ (Nat.succ_pos _))

theorem storage_ofRows [Zero α] (rows : List (Array α)) : FlatMatrix.ofRows rows =
    some ((AnyMatrix.ofRows rows).map AnyMatrix.storage) := by
  rw [FlatMatrix.ofRows]
  rcases AnyMatrix.even_or_ragged rows (AnyMatrix.widthOfRows rows) with
    even | ⟨before, row, after, split, even, other⟩
  · rw [AnyMatrix.ofRows_even even, AnyMatrix.forM_even even]
    by_cases room : Allocatable (rows.length * AnyMatrix.widthOfRows rows)
    · refine storage_ofFn (AnyMatrix.countable_rows room) _ fun i below j left => ?_
      rcases AnyMatrix.entry_of_even even i j with ⟨-, -, x, entry⟩ | ⟨outside, -⟩
      · obtain ⟨row, here, there⟩ := Option.bind_eq_some_iff.mp entry
        rw [entry]
        simp only [here, there, bind, Option.bind]
        rfl
      · exact absurd ⟨below, left⟩ outside
    · rw [AnyMatrix.ofFn_crowded room]
      exact FlatMatrix.ofFn_crowded room
  · rw [AnyMatrix.ofRows_ragged split even other, AnyMatrix.forM_ragged split even other]
    rfl

end LeastSquares

import LeastSquares.Proofs.FlatMatrix

/-!
# Editing a matrix

Edits in any order, on a matrix from any constructor. Whoever edits flat storage sees a function of
row and column that is defined inside the shape: each edit changes the function as it says, and both
readers answer from it. The shape and the length of the storage stay as they are.
-/

set_option autoImplicit false

namespace LeastSquares

open Storage

variable {α σ : Type} {m n : Nat}

inductive MatrixEdit (α : Type) where
  | set (i j : Nat) (x : α)
  | setCol (j : Nat) (list : Array α)
  | fill (x : α)
  | swapCols (a b : Nat)

namespace MatrixEdit

/-- The edit names rows and columns of an `m × n` matrix, and a column has the length of one. -/
def InRange (m n : Nat) : MatrixEdit α → Prop
  | set i j _ => i < m ∧ j < n
  | setCol j list => j < n ∧ list.size = m
  | fill _ => True
  | swapCols a b => a < n ∧ b < n

/-- What the edit makes of a function of row and column. -/
def apply : MatrixEdit α → (Nat → Nat → Option α) → Nat → Nat → Option α
  | set i j x, f => fun i' j' => if i' = i ∧ j' = j then some x else f i' j'
  | setCol j list, f => fun i' j' => if j' = j then list[i']? else f i' j'
  | fill x, f => fun i' j' => (f i' j').map fun _ => x
  | swapCols a b, f => fun i' j' => f i' (Equiv.swap a b j')

end MatrixEdit

def MatrixEdit.applyAll (edits : List (MatrixEdit α)) (f : Nat → Nat → Option α) :
    Nat → Nat → Option α :=
  edits.foldl (fun f edit => edit.apply f) f

def AnyMatrix.edit (A : AnyMatrix α) : MatrixEdit α → Option (AnyMatrix α)
  | .set i j x => A.set? i j x
  | .setCol j list => A.setCol? j list
  | .fill x => some (A.fill x)
  | .swapCols a b => A.swapCols? a b

def AnyMatrix.editAll (A : AnyMatrix α) (edits : List (MatrixEdit α)) : Option (AnyMatrix α) :=
  edits.foldlM edit A

def FlatMatrix.edit (S : FlatMatrix α) : MatrixEdit α → Option (FlatMatrix α)
  | .set i j x => S.set i j x
  | .setCol j list => S.setCol j list
  | .fill x => S.fill x
  | .swapCols a b => S.swapCols a b

def FlatMatrix.editAll (S : FlatMatrix α) (edits : List (MatrixEdit α)) : Option (FlatMatrix α) :=
  edits.foldlM edit S

/-! ## One edit -/

section Once

variable {A : DenseMatrix α m n}

theorem AnyMatrix.get?_outside {i j : Nat} (outside : ¬ (i < m ∧ j < n)) :
    (⟨A⟩ : AnyMatrix α).get? i j = none :=
  dif_neg outside

theorem AnyMatrix.get?_eq {f : Nat → Nat → Option α}
    (inside : ∀ (i : Fin m) (j : Fin n), f i j = some (A.get i j))
    (outside : ∀ i j, ¬ (i < m ∧ j < n) → f i j = none) : (⟨A⟩ : AnyMatrix α).get? = f := by
  funext i j
  by_cases within : i < m ∧ j < n
  · exact (get?_mk A ⟨i, within.1⟩ ⟨j, within.2⟩).trans (inside ⟨i, within.1⟩ ⟨j, within.2⟩).symm
  · rw [get?_outside within, outside i j within]

theorem AnyMatrix.swapCols?_inside (a b : Fin n) :
    (⟨A⟩ : AnyMatrix α).swapCols? a b = some ⟨A.swapCols a b⟩ := by
  rw [swapCols?]
  split
  · rename_i still
    have same : A.swapCols a b = A := by
      refine DenseMatrix.ext_get fun i j => ?_
      rcases still with same | none
      · rw [DenseMatrix.get_swapCols, Fin.ext same, Equiv.swap_self, Equiv.refl_apply]
      · obtain rfl : m = 0 := none
        exact i.elim0
    rw [same]
  · exact dif_pos ⟨a.isLt, b.isLt⟩

theorem AnyMatrix.edit_ok {edit : MatrixEdit α} (inside : edit.InRange m n) :
    ∃ B : DenseMatrix α m n, (⟨A⟩ : AnyMatrix α).edit edit = some ⟨B⟩ ∧
      (⟨B⟩ : AnyMatrix α).get? = edit.apply (⟨A⟩ : AnyMatrix α).get? := by
  cases edit with
  | set i j x =>
      obtain ⟨row, column⟩ := inside
      refine ⟨A.set ⟨i, row⟩ ⟨j, column⟩ x, set?_mk A ⟨i, row⟩ ⟨j, column⟩ x,
        get?_eq (fun i' j' => ?_) fun i' j' outside => ?_⟩
      · simp only [MatrixEdit.apply]
        rw [get?_mk, DenseMatrix.get_set, apply_ite some]
        exact if_congr (by rw [Fin.ext_iff, Fin.ext_iff]) rfl rfl
      · simp only [MatrixEdit.apply]
        rw [get?_outside outside, if_neg]
        rintro ⟨rfl, rfl⟩
        exact outside ⟨row, column⟩
  | setCol j list =>
      obtain ⟨column, length⟩ := inside
      obtain ⟨v, rfl⟩ : ∃ v : Vector α m, list = v.toArray := ⟨⟨list, length⟩, rfl⟩
      refine ⟨A.setCol ⟨j, column⟩ v, A.setCol?_toArray ⟨j, column⟩ v,
        get?_eq (fun i' j' => ?_) fun i' j' outside => ?_⟩
      · simp only [MatrixEdit.apply]
        rw [get?_mk, DenseMatrix.get_setCol, Storage.read, apply_ite some]
        exact if_congr (by rw [Fin.ext_iff]) rfl rfl
      · simp only [MatrixEdit.apply]
        rw [get?_outside outside, ite_eq_right_iff]
        rintro rfl
        refine Array.getElem?_eq_none ?_
        rw [length]
        exact not_lt.mp fun row => outside ⟨row, column⟩
  | fill x =>
      refine ⟨A.fill x, rfl, get?_eq (fun i' j' => ?_) fun i' j' outside => ?_⟩
      · simp only [MatrixEdit.apply]
        rw [get?_mk, Option.map_some, DenseMatrix.fill, DenseMatrix.get_replicate]
      · simp only [MatrixEdit.apply]
        rw [get?_outside outside, Option.map_none]
  | swapCols a b =>
      obtain ⟨first, second⟩ := inside
      let a' : Fin n := ⟨a, first⟩
      let b' : Fin n := ⟨b, second⟩
      refine ⟨A.swapCols a' b', swapCols?_inside a' b',
        get?_eq (fun i j => ?_) fun i j outside => ?_⟩
      · have moved : Equiv.swap a b j.val = (Equiv.swap a' b' j).val := swap_val a' b' j
        simp only [MatrixEdit.apply]
        rw [moved, get?_mk, DenseMatrix.get_swapCols]
      · refine get?_outside fun within => outside ⟨within.1, ?_⟩
        by_contra beyond
        have still : Equiv.swap a b j = j :=
          Equiv.swap_apply_of_ne_of_ne (fun same => beyond (same ▸ first))
            fun same => beyond (same ▸ second)
        rw [still] at within
        exact beyond within.2

theorem AnyMatrix.edit_shape {edit : MatrixEdit α} {B : AnyMatrix α}
    (done : (⟨A⟩ : AnyMatrix α).edit edit = some B) : ∃ B' : DenseMatrix α m n, B = ⟨B'⟩ := by
  cases edit with
  | set i j x =>
      rw [edit, set?] at done
      split at done <;> cases done
      exact ⟨_, rfl⟩
  | setCol j list =>
      rw [edit, setCol?] at done
      split at done
      · split at done
        · cases done
          exact ⟨_, rfl⟩
        · split at done <;> cases done
          exact ⟨_, rfl⟩
      · cases done
  | fill x =>
      cases done
      exact ⟨_, rfl⟩
  | swapCols a b =>
      rw [edit, swapCols?] at done
      split at done
      · cases done
        exact ⟨_, rfl⟩
      · split at done <;> cases done
        exact ⟨_, rfl⟩

theorem DenseMatrix.storage_edit (fits : Storable m n) (edit : MatrixEdit α) :
    A.storage.edit edit = ((⟨A⟩ : AnyMatrix α).edit edit).map AnyMatrix.storage := by
  cases edit with
  | set i j x => exact A.storage_set fits i j x
  | setCol j list => exact A.storage_setCol fits j list
  | fill x => exact A.storage_fill x
  | swapCols a b => exact A.storage_swapCols fits a b

end Once

/-! ## Edits one after another -/

theorem AnyMatrix.editAll_ok {edits : List (MatrixEdit α)} (A : DenseMatrix α m n)
    (inside : ∀ edit ∈ edits, edit.InRange m n) :
    ∃ B : DenseMatrix α m n, (⟨A⟩ : AnyMatrix α).editAll edits = some ⟨B⟩ ∧
      (⟨B⟩ : AnyMatrix α).get? = MatrixEdit.applyAll edits (⟨A⟩ : AnyMatrix α).get? := by
  induction edits generalizing A with
  | nil => exact ⟨A, rfl, rfl⟩
  | cons edit rest ih =>
      obtain ⟨first, others⟩ := List.forall_mem_cons.mp inside
      obtain ⟨B, once, seen⟩ := edit_ok (A := A) first
      obtain ⟨C, done, reads⟩ := ih B others
      refine ⟨C, ?_, ?_⟩
      · rw [editAll, List.foldlM_cons, once]
        exact done
      · rw [reads, seen]
        rfl

/-- The programs come to the operations on matrices, edit after edit, and stop where these do. -/
theorem DenseMatrix.storage_editAll (fits : Storable m n) (edits : List (MatrixEdit α))
    (A : DenseMatrix α m n) :
    A.storage.editAll edits = ((⟨A⟩ : AnyMatrix α).editAll edits).map AnyMatrix.storage := by
  induction edits generalizing A with
  | nil => rfl
  | cons edit rest ih =>
      rw [FlatMatrix.editAll, AnyMatrix.editAll, List.foldlM_cons, List.foldlM_cons,
        A.storage_edit fits]
      cases once : (⟨A⟩ : AnyMatrix α).edit edit with
      | none => rfl
      | some B =>
          obtain ⟨B, rfl⟩ := AnyMatrix.edit_shape once
          exact ih B

/-! ## From any constructor -/

namespace FlatMatrix

/-- What a constructor has returned. Columns are counted, so there are not more than can be. -/
inductive Built [Zero α] : FlatMatrix α → Prop
  | zeros {m n : Nat} {S : FlatMatrix α} (countable : Addressable n) (made : zeros m n = .ok S) :
      Built S
  | ofFn {σ : Type} {m n : Nat} {S : FlatMatrix α} {answer : Nat → Nat → σ → Option (α × σ)}
      {start : σ} (countable : Addressable n) (made : ofFn m n answer start = some (.ok S)) :
      Built S
  | ofRows {rows : List (Array α)} {S : FlatMatrix α} (made : ofRows rows = some (.ok S)) : Built S

/-- Storage that both readers take for the `m × n` function `f`. -/
structure Represents (S : FlatMatrix α) (m n : Nat) (f : Nat → Nat → Option α) : Prop where
  nrows : S.nrows = m
  ncols : S.ncols = n
  length : S.data.size = m * n
  inside : ∀ i j, (f i j).isSome ↔ i < m ∧ j < n
  index : S.index = f
  col : ∀ j < n, ∃ column, S.col j = some column ∧ column.size = m ∧ ∀ i, column[i]? = f i j

theorem zeros_stored [Zero α] {S : FlatMatrix α} (made : zeros m n = .ok S) :
    Allocatable (m * n) ∧ S = (DenseMatrix.zeros : DenseMatrix α m n).storage := by
  by_cases room : Allocatable (m * n)
  · rw [zeros_room room] at made
    exact ⟨room, (Except.ok.inj made).symm⟩
  · rw [zeros_crowded room] at made
    cases made

theorem ofFn_room [Zero α] {S : FlatMatrix α} {answer : Nat → Nat → σ → Option (α × σ)} {start : σ}
    (made : ofFn m n answer start = some (.ok S)) : Allocatable (m * n) := by
  by_contra crowded
  rw [ofFn_crowded crowded] at made
  cases made

theorem ofFn_stored [Zero α] {S : FlatMatrix α} {answer : Nat → Nat → σ → Option (α × σ)}
    {start : σ} (countable : Addressable n) (made : ofFn m n answer start = some (.ok S)) :
    ∃ A : DenseMatrix α m n, S = A.storage := by
  have fits : Storable m n := ⟨ofFn_room made, countable⟩
  rw [ofFn] at made
  cases blank : (zeros m n : Except LinalgError (FlatMatrix α)) with
  | error e =>
      rw [blank] at made
      cases made
  | ok Z =>
      rw [blank] at made
      obtain ⟨⟨T, _⟩, done, same⟩ := Option.bind_eq_some_iff.mp made
      cases same
      -- the invariant of both loops; what the answers are does not matter
      let stored (now : FlatMatrix α × σ) : Prop := ∃ A : DenseMatrix α m n, now.1 = A.storage
      have first : stored (Z, start) := ⟨_, (zeros_stored blank).2⟩
      refine ascend_keeps stored (fun j now next holds passed => ?_) first done
      refine ascend_keeps stored (fun i now next holds passed => ?_) holds passed
      obtain ⟨A, held⟩ := holds
      obtain ⟨⟨x, s⟩, -, passed⟩ := Option.bind_eq_some_iff.mp passed
      obtain ⟨U, written, same⟩ := Option.bind_eq_some_iff.mp passed
      cases same
      rw [held, A.storage_set fits] at written
      obtain ⟨B, once, rfl⟩ := Option.map_eq_some_iff.mp written
      have edited : (⟨A⟩ : AnyMatrix α).edit (.set i j x) = some B := once
      obtain ⟨B, rfl⟩ := AnyMatrix.edit_shape edited
      exact ⟨B, rfl⟩

theorem Built.stored [Zero α] {S : FlatMatrix α} (built : S.Built) :
    ∃ (m n : Nat) (A : DenseMatrix α m n), Storable m n ∧ S = A.storage := by
  cases built with
  | zeros countable made =>
      obtain ⟨room, stored⟩ := zeros_stored made
      exact ⟨_, _, _, ⟨room, countable⟩, stored⟩
  | ofFn countable made =>
      obtain ⟨A, stored⟩ := ofFn_stored countable made
      exact ⟨_, _, A, ⟨ofFn_room made, countable⟩, stored⟩
  | @ofRows rows S made =>
      rw [FlatMatrix.ofRows] at made
      cases checks : rows.forM fun row => checkLength row.size (AnyMatrix.widthOfRows rows) with
      | error e =>
          rw [checks] at made
          cases made
      | ok _ =>
          rw [checks] at made
          have room := ofFn_room made
          have countable := AnyMatrix.countable_rows room
          obtain ⟨A, stored⟩ := ofFn_stored countable made
          exact ⟨_, _, A, ⟨room, countable⟩, stored⟩

end FlatMatrix

theorem DenseMatrix.represents (A : DenseMatrix α m n) (fits : Storable m n) :
    A.storage.Represents m n (⟨A⟩ : AnyMatrix α).get? where
  nrows := rfl
  ncols := rfl
  length := A.data.size_toArray
  inside i j := by
    by_cases within : i < m ∧ j < n
    · rw [AnyMatrix.get?, dif_pos within]
      exact iff_of_true rfl within
    · rw [AnyMatrix.get?_outside within]
      exact iff_of_false Bool.false_ne_true within
  index := funext fun i => funext fun j => A.storage_index fits i j
  col j inside := by
    refine ⟨(A.col ⟨j, inside⟩).toArray, fits.slice A ⟨j, inside⟩, Vector.size_toArray _,
      fun i => ?_⟩
    by_cases below : i < m
    · rw [AnyMatrix.get?, dif_pos ⟨below, inside⟩]
      exact (Storage.read _ ⟨i, below⟩).trans (congrArg some (Vector.get_ofFn _ _))
    · rw [AnyMatrix.get?_outside fun within => below within.1]
      exact Array.getElem?_eq_none (by simpa using below)

structure FlatMatrix.Edited (S : FlatMatrix α) (edits : List (MatrixEdit α)) (T : FlatMatrix α) :
    Prop where
  done : S.editAll edits = some T
  represents : T.Represents S.nrows S.ncols (MatrixEdit.applyAll edits S.index)
  swap_twice (a b : Nat) : a < S.ncols → b < S.ncols →
    T.editAll [.swapCols a b, .swapCols a b] = some T

theorem FlatMatrix.Built.represents [Zero α] {S : FlatMatrix α} (built : S.Built) :
    S.Represents S.nrows S.ncols S.index := by
  obtain ⟨m, n, A, fits, rfl⟩ := built.stored
  exact (A.represents fits).index.symm ▸ A.represents fits

theorem FlatMatrix.Built.edited [Zero α] {S : FlatMatrix α} (built : S.Built)
    {edits : List (MatrixEdit α)} (inside : ∀ edit ∈ edits, edit.InRange S.nrows S.ncols) :
    ∃ T, S.Edited edits T := by
  obtain ⟨m, n, A, fits, rfl⟩ := built.stored
  have reads := (A.represents fits).index
  obtain ⟨B, done, seen⟩ := AnyMatrix.editAll_ok A inside
  refine ⟨B.storage, ?_, ?_, fun a b first second => ?_⟩
  · rw [A.storage_editAll fits, done]
    rfl
  · rw [reads, ← seen]
    exact B.represents fits
  · let a' : Fin n := ⟨a, first⟩
    let b' : Fin n := ⟨b, second⟩
    have twice : (⟨B⟩ : AnyMatrix α).editAll [.swapCols a b, .swapCols a b] = some ⟨B⟩ := by
      change ((⟨B⟩ : AnyMatrix α).swapCols? a' b' >>= fun C => C.swapCols? a' b' >>= some) = _
      rw [AnyMatrix.swapCols?_inside, Option.bind_eq_bind, Option.bind_some,
        AnyMatrix.swapCols?_inside, B.swapCols_swapCols]
      rfl
    rw [B.storage_editAll fits, twice]
    rfl

/-- Rows come back entry by entry. They are refused where one has another length than the first, and
otherwise only if there is no room, which there is for as many entries as fit into memory. -/
structure FlatMatrix.TakesRows (rows : List (Array α))
    (result : Except LinalgError (FlatMatrix α)) : Prop where
  nrows (S : FlatMatrix α) : result = .ok S → S.nrows = rows.length
  ncols (S : FlatMatrix α) : result = .ok S → S.ncols = AnyMatrix.widthOfRows rows
  index (S : FlatMatrix α) : result = .ok S → ∀ i j, S.index i j = rows[i]?.bind (·[j]?)
  error_iff (error : LinalgError) : result = .error error ↔ AnyMatrix.RowsRefused rows error
  ragged_iff : Allocatable (rows.flatMap Array.toList).length →
    ((∃ error, result = .error error) ↔ ∃ row ∈ rows, row.size ≠ AnyMatrix.widthOfRows rows)

theorem FlatMatrix.ofRows_takesRows [Zero α] (rows : List (Array α)) :
    ∃ result, FlatMatrix.ofRows rows = some result ∧ FlatMatrix.TakesRows rows result := by
  have refused (error : LinalgError) :
      (AnyMatrix.ofRows rows).map AnyMatrix.storage = .error error ↔
        AnyMatrix.RowsRefused rows error := by
    rw [← AnyMatrix.ofRows_error_iff]
    cases AnyMatrix.ofRows rows <;> simp [Except.map]
  have made (S : FlatMatrix α) (made : (AnyMatrix.ofRows rows).map AnyMatrix.storage = .ok S) :
      S.nrows = rows.length ∧ S.ncols = AnyMatrix.widthOfRows rows ∧
        ∀ i j, S.index i j = rows[i]?.bind (·[j]?) := by
    cases checked : AnyMatrix.ofRows rows with
    | error e =>
        rw [checked] at made
        cases made
    | ok A =>
        rw [checked] at made
        cases made
        obtain ⟨room, rowCount, colCount, reads⟩ := AnyMatrix.ofRows_ok checked
        have fits : Storable A.nrows A.ncols := by
          rw [rowCount, colCount]
          exact ⟨room, AnyMatrix.countable_rows room⟩
        exact ⟨rowCount, colCount, fun i j => (A.entries.storage_index fits i j).trans (reads i j)⟩
  refine ⟨_, storage_ofRows rows, fun S ok => (made S ok).1, fun S ok => (made S ok).2.1,
    fun S ok => (made S ok).2.2, refused, fun room => ?_⟩
  rw [exists_congr refused]
  constructor
  · rintro ⟨_, ⟨split, even, other⟩ | ⟨even, crowded⟩⟩
    · exact ⟨_, by rw [split]; simp, other⟩
    · rw [AnyMatrix.length_entries even] at room
      exact absurd room crowded
  · rintro ⟨row, listed, other⟩
    rcases AnyMatrix.even_or_ragged rows (AnyMatrix.widthOfRows rows) with
      even | ⟨before, row, after, split, even, other⟩
    · exact absurd (even row listed) other
    · exact ⟨_, .ragged split even other⟩

/-- Flat storage is a function of row and column: a constructor leaves one, and edits in range
change it as they say. The programs come to what the operations on matrices do, out of range too. -/
structure FlatMatrix.ActsAsFunction (α : Type) [Zero α] : Prop where
  built {S : FlatMatrix α} : S.Built → S.Represents S.nrows S.ncols S.index
  edited {S : FlatMatrix α} : S.Built → ∀ edits : List (MatrixEdit α),
    (∀ edit ∈ edits, edit.InRange S.nrows S.ncols) → ∃ T, S.Edited edits T
  rows (rows : List (Array α)) :
    ∃ result, FlatMatrix.ofRows rows = some result ∧ FlatMatrix.TakesRows rows result
  ofRows_eq (rows : List (Array α)) :
    FlatMatrix.ofRows rows = some ((AnyMatrix.ofRows rows).map AnyMatrix.storage)
  zeros_eq (m n : Nat) : (FlatMatrix.zeros m n : Except LinalgError (FlatMatrix α)) =
    (AnyMatrix.zeros m n).map AnyMatrix.storage
  ofFn_eq (m n : Nat) (f : Nat → Nat → α) : Addressable n →
    FlatMatrix.ofFn m n (fun i j () => some (f i j, ())) () =
      some ((AnyMatrix.ofFn m n f).map AnyMatrix.storage)
  index_eq {m n : Nat} (A : DenseMatrix α m n) : Storable m n →
    A.storage.index = (⟨A⟩ : AnyMatrix α).get?
  col_eq {m n : Nat} (A : DenseMatrix α m n) : Storable m n →
    A.storage.col = (⟨A⟩ : AnyMatrix α).col?
  editAll_eq {m n : Nat} (A : DenseMatrix α m n) : Storable m n → ∀ edits,
    A.storage.editAll edits = ((⟨A⟩ : AnyMatrix α).editAll edits).map AnyMatrix.storage

/-- A constructor leaves a function of row and column, edits in range change it as they say and
leave the shape and the length of the storage, and exchanging two columns twice changes nothing.
Rows are what they were given as, and are refused for their lengths. -/
theorem FlatMatrix.acts_as_function [Zero α] : FlatMatrix.ActsAsFunction α where
  built built := built.represents
  edited built _ inside := built.edited inside
  rows := ofRows_takesRows
  ofRows_eq := storage_ofRows
  zeros_eq := storage_zeros
  ofFn_eq _ _ f countable := storage_ofFn countable f fun _ _ _ _ => rfl
  index_eq A fits := (A.represents fits).index
  col_eq A fits := funext (A.storage_col fits)
  editAll_eq A fits edits := A.storage_editAll fits edits

theorem FlatMatrix.acts_as_function_rows :
    ∃ S T : FlatMatrix Float,
      FlatMatrix.ofRows [#[1.0, 2.0, 3.0], #[4.0, 5.0, 6.0]] = some (.ok S) ∧
      S.editAll [.swapCols 0 2, .set 1 0 7.0, .setCol 1 #[8.0, 9.0]] = some T ∧
      T.data = #[3.0, 7.0, 8.0, 9.0, 1.0, 4.0] ∧
      T.index =
        MatrixEdit.applyAll [.swapCols 0 2, .set 1 0 7.0, .setCol 1 #[8.0, 9.0]] S.index ∧
      ∃ error, FlatMatrix.ofRows [#[1.0, 2.0], #[3.0]] = some (.error error) := by
  have made : FlatMatrix.ofRows [#[1.0, 2.0, 3.0], #[4.0, 5.0, 6.0]] =
      some (.ok ⟨2, 3, #[1.0, 4.0, 2.0, 5.0, 3.0, 6.0]⟩) := rfl
  have acts : FlatMatrix.ActsAsFunction Float := FlatMatrix.acts_as_function
  obtain ⟨T, edited⟩ := acts.edited (.ofRows made)
    [.swapCols 0 2, .set 1 0 7.0, .setCol 1 #[8.0, 9.0]] (by simp [MatrixEdit.InRange])
  obtain ⟨result, ran, takes⟩ := acts.rows [#[1.0, 2.0], #[3.0]]
  have ragged : ∃ row ∈ [#[1.0, 2.0], #[3.0]],
      row.size ≠ AnyMatrix.widthOfRows [#[1.0, 2.0], #[3.0]] := ⟨#[3.0], by simp, by decide⟩
  obtain ⟨error, same⟩ := (takes.ragged_iff (by decide)).mpr ragged
  have done := edited.done
  refine ⟨_, T, made, done, ?_, edited.represents.index, error, same ▸ ran⟩
  cases done
  rfl

end LeastSquares

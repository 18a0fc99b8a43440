import LeastSquares.Proofs.QR.Stored

/-!
# The damped solve on storage

The rotations work on one row in scratch space, which is cleared from the entry on that starts it
and keeps what earlier rows have left in front of that. No rotation reads there, so the triangle and
its right-hand side come out as they would from a row of zeros.
-/

set_option autoImplicit false

namespace LeastSquares

open Storage

variable {α : Type} {m n : Nat}

/-! ## Overwriting a matrix -/

theorem overwrite_ok {A B : DenseMatrix α m n} {value : Nat → Nat → Option α}
    (values : ∀ (i : Fin m) (j : Fin n), value i j = some (B.get i j)) :
    ascend 0 n (⟨A⟩ : AnyMatrix α) (fun j A =>
      ascend 0 m A fun i A => do A.set? i j (← value i j)) = some ⟨B⟩ := by
  have column (cols : Vector (Vector α m) n) (j : Fin n) :
      ascend 0 m (⟨.ofCols cols⟩ : AnyMatrix α) (fun i A => do A.set? i j (← value i j)) =
        some ⟨.ofCols (cols.set j (B.col j) j.isLt)⟩ := by
    let stored (w : Vector α m) : AnyMatrix α := ⟨.ofCols (cols.set j w j.isLt)⟩
    have start : (⟨.ofCols cols⟩ : AnyMatrix α) = stored (cols j) :=
      congrArg (fun cols => AnyMatrix.mk (.ofCols cols)) (Vector.set_getElem_self j.isLt).symm
    rw [start]
    refine Eq.trans (ascend_writes stored le_rfl fun i _ _ => ?_)
      (congrArg (some ∘ stored) (splice_all (cols j) (B.col j)))
    have entry : B.get i j = B.col j i := by rw [DenseMatrix.col, Vector.get_ofFn]
    simp only [values, bind, Option.bind, entry]
    exact AnyMatrix.set?_set_col cols j _ i _
  rw [← A.ofCols_col, ← B.ofCols_col]
  refine (ascend_writes (fun cols => (⟨.ofCols cols⟩ : AnyMatrix α)) le_rfl fun j _ _ => ?_).trans
    (congrArg (fun cols => some (AnyMatrix.mk (.ofCols cols))) (splice_all _ _))
  rw [column, Vector.get_ofFn]

/-! ## Rotations -/

section Rows

variable (rows : Vector (Vector α n) m) (k : Fin m) (row : Vector α n) (i : Fin n)

def ofRows : AnyMatrix α := ⟨(.ofFn fun i j => rows i j : DenseMatrix α m n)⟩

theorem get?_set_row : (ofRows (rows.set k row k.isLt)).get? k i = some (row i) := by
  rw [ofRows, AnyMatrix.get?_mk, DenseMatrix.get_ofFn, Vector.get_set, if_pos rfl]

theorem set?_set_row (x : α) : (ofRows (rows.set k row k.isLt)).set? k i x =
    some (ofRows (rows.set k (row.set i x i.isLt) k.isLt)) := by
  rw [ofRows, AnyMatrix.set?_mk]
  refine congrArg (fun A => some (AnyMatrix.mk A)) (DenseMatrix.ext_get fun i' j' => ?_)
  rw [DenseMatrix.get_set, DenseMatrix.get_ofFn, DenseMatrix.get_ofFn, Vector.get_set,
    Vector.get_set]
  by_cases same : k = i'
  · subst same
    rw [if_pos rfl, if_pos rfl, Vector.get_set]
    exact if_congr (by rw [eq_comm (a := i), and_iff_right rfl]) rfl rfl
  · rw [if_neg same, if_neg same, if_neg fun both => same both.1.symm]

end Rows

variable [Scalar α]

section Pairs

variable (rows : Vector (Vector α n) n) (k : Fin n) (rhs : Array α) (carried : α)

/-- The storage while row `k` of the triangle and the extra row change together: their entries at
one position make up a pair. -/
def paired (w : Vector (α × α) n) : Rotating α :=
  { s := ofRows (rows.set k (w.map (·.1)) k.isLt), rhs, row := (w.map (·.2)).toArray, carried }

def turn (cos sin : α) (pair : α × α) : α × α :=
  (cos * pair.1 + sin * pair.2, -sin * pair.1 + cos * pair.2)

theorem mix_paired (cos sin : α) (w : Vector (α × α) n) (i : Fin n) :
    Rotating.mix cos sin k i (paired rows k rhs carried w) =
      some (paired rows k rhs carried (w.set i (turn cos sin (w i)) i.isLt)) := by
  have above : (paired rows k rhs carried w).s.get? k i = some (w i).1 := by
    rw [paired, get?_set_row, Vector.get_map]
  have below : (paired rows k rhs carried w).row[i.val]? = some (w i).2 := by
    rw [paired, read, Vector.get_map]
  simp only [Rotating.mix, above, below, bind, Option.bind]
  simp only [paired, write_toArray, set?_set_row, Vector.map_set, pure, turn]

theorem ascend_mix (cos sin : α) (w : Vector (α × α) n) :
    ascend (k + 1) n (paired rows k rhs carried w) (Rotating.mix cos sin k) =
      some (paired rows k rhs carried (splice w (w.map (turn cos sin)) (k + 1) n)) := by
  refine ascend_writes (paired rows k rhs carried) le_rfl fun i _ _ => ?_
  have fresh : splice w (w.map (turn cos sin)) (k + 1) i i = w i := by
    rw [splice_get, if_neg fun both => Nat.lt_irrefl _ both.2]
  rw [mix_paired, fresh, Vector.get_map]

end Pairs

namespace Folding

/-- The storage of a row that is being folded in from position `j` on. In front of `j` the row holds
what was left there. -/
def storage (S : Folding α n) (j : Nat) (left : Vector α n) : Rotating α :=
  { s := ⟨S.toMatrix⟩, rhs := S.rhs.toArray, row := (splice left S.extra j n).toArray
    carried := S.carried }

section Rotation

variable (S : Folding α n) (j k : Fin n) (left : Vector α n) (cos sin : α)

def opened : Vector (α × α) n :=
  let top := (S.rows k).set k (cos * S.rows k k + sin * S.extra k) k.isLt
  Vector.ofFn fun i => (top i, splice left S.extra j n i)

def closed : Vector (α × α) n :=
  let opened := S.opened j k left cos sin
  splice opened (opened.map (turn cos sin)) (k + 1) n

theorem opened_get (i : Fin n) : S.opened j k left cos sin i =
    ((S.rows k).set k (cos * S.rows k k + sin * S.extra k) k.isLt i, splice left S.extra j n i) :=
  Vector.get_ofFn _ i

theorem opened_behind {j k i : Fin n} (begun : j ≤ k) (behind : k < i) :
    S.opened j k left cos sin i = (S.rows k i, S.extra i) := by
  rw [opened_get, Vector.get_set, if_neg behind.ne, splice_get,
    if_pos ⟨(begun.trans_lt behind).le, i.isLt⟩]

theorem closed_fst {j k : Fin n} (begun : j ≤ k) : (S.closed j k left cos sin).map (·.1) =
    Vector.ofFn fun i => if k ≤ i then cos * S.rows k i + sin * S.extra i else S.rows k i := by
  refine Vector.ext_get fun i => ?_
  rw [Vector.get_map, Vector.get_ofFn, closed, splice_get, Vector.get_map]
  rcases lt_trichotomy k i with behind | same | front
  · rw [if_pos ⟨behind, i.isLt⟩, if_pos behind.le, S.opened_behind left cos sin begun behind]
    rfl
  · rw [if_neg fun both => same.not_lt both.1, if_pos same.le, opened_get, Vector.get_set,
      if_pos same, same]
  · rw [if_neg fun both => front.not_gt both.1, if_neg front.not_ge, opened_get, Vector.get_set,
      if_neg front.ne']

theorem closed_snd {j k : Fin n} (begun : j ≤ k) : (S.closed j k left cos sin).map (·.2) =
    splice left (Vector.ofFn fun i =>
      if k < i then -sin * S.rows k i + cos * S.extra i else S.extra i) j n := by
  refine Vector.ext_get fun i => ?_
  rw [Vector.get_map, closed, splice_get, Vector.get_map, splice_get, Vector.get_ofFn]
  by_cases behind : k < i
  · rw [if_pos ⟨behind, i.isLt⟩, if_pos ⟨(begun.trans_lt behind).le, i.isLt⟩, if_pos behind,
      S.opened_behind left cos sin begun behind]
    rfl
  · rw [if_neg fun both => behind both.1, opened_get, splice_get, if_neg behind]

end Rotation

theorem storage_rotate (S : Folding α n) {j k : Fin n} (begun : j ≤ k) (left : Vector α n) :
    (S.storage j left).rotate n k = some ((S.rotate k).storage j left) := by
  have lead : (S.storage j left).row[k.val]? = some (S.extra k) := by
    refine (read _ k).trans (congrArg some ?_)
    rw [splice_get, if_pos ⟨begun, k.isLt⟩]
  rw [Rotating.rotate, lead]
  simp only [bind, Option.bind, rotate]
  by_cases cleared : (S.extra k == 0) = true
  · rw [if_pos cleared, if_pos cleared]
    rfl
  · rw [if_neg cleared, if_neg cleared]
    have diagonal : (S.storage j left).s.get? k k = some (S.rows k k) := by
      rw [storage, AnyMatrix.get?_mk, Triangle.toMatrix, DenseMatrix.get_ofFn, Triangle.entry]
    simp only [diagonal]
    generalize givens (S.rows k k) (S.extra k) = rotation
    obtain ⟨cos, sin⟩ := rotation
    let rhs := (S.rhs.set k (cos * S.rhs k + sin * S.carried) k.isLt).toArray
    let carried := -sin * S.rhs k + cos * S.carried
    let start := paired S.rows k rhs carried (S.opened j k left cos sin)
    have unchanged : (S.storage j left).s = ofRows (S.rows.set k (S.rows k) k.isLt) :=
      congrArg ofRows (Vector.set_getElem_self k.isLt).symm
    have opened : (S.storage j left).s.set? k k (cos * S.rows k k + sin * S.extra k) =
        some start.s := by
      rw [unchanged, set?_set_row]
      refine congrArg (fun row => some (ofRows (S.rows.set k row k.isLt))) ?_
      exact Vector.ext_get fun i => by rw [Vector.get_map, opened_get]
    have row : (S.storage j left).row = start.row := by
      refine congrArg Vector.toArray (Vector.ext_get fun i => ?_)
      rw [Vector.get_map, opened_get]
    have above : (S.storage j left).rhs[k.val]? = some (S.rhs k) := read _ k
    have written : write (S.storage j left).rhs k (cos * S.rhs k + sin * S.carried) = some rhs :=
      write_toArray _ k _
    have loop : ascend (k + 1) n start (Rotating.mix cos sin k) =
        some (paired S.rows k rhs carried (S.closed j k left cos sin)) :=
      ascend_mix S.rows k rhs carried cos sin _
    rw [paired, S.closed_fst left cos sin begun, S.closed_snd left cos sin begun] at loop
    simp only [opened, above, row]
    exact (congrArg (Option.bind · _) written).trans loop

end Folding

namespace Triangle

/-- What the storage holds between two rows: the triangle and its right-hand side. Nothing is said
of the scratch row. -/
def Holds (S : Triangle α n) (T : Rotating α) : Prop :=
  T.s = ⟨S.toMatrix⟩ ∧ T.rhs = S.rhs.toArray ∧ ∃ row : Vector α n, T.row = row.toArray

theorem holds_fold {S : Triangle α n} {T : Rotating α} (holds : S.Holds T) (j : Fin n) (d : α) :
    ∃ T', T.fold n j d = some T' ∧ (S.fold j d).Holds T' := by
  obtain ⟨s, rhs, left, row⟩ := holds
  rw [Rotating.fold, Triangle.fold]
  by_cases zero : (d == 0) = true
  · rw [if_pos zero, if_pos zero]
    exact ⟨T, rfl, s, rhs, left, row⟩
  · rw [if_neg zero, if_neg zero]
    let start : Folding α n :=
      { S with extra := Vector.ofFn fun i => if i = j then d else 0, carried := 0 }
    let finish := Fin.foldl n (fun S k => if j ≤ k then S.rotate k else S) start
    have cleared : Storage.fill T.row j 0 =
        some (splice left (Vector.replicate n 0) j n).toArray := by
      rw [row, fill_toArray]
    have begun : write (splice left (Vector.replicate n 0) j n).toArray j d =
        some (splice left start.extra j n).toArray := by
      rw [write_toArray]
      refine congrArg (some ∘ Vector.toArray) (Vector.ext_get fun i => ?_)
      rw [Vector.get_set, splice_get, splice_get, Vector.get_replicate, Vector.get_ofFn]
      by_cases same : j = i
      · subst same
        rw [if_pos rfl, if_pos ⟨le_rfl, j.isLt⟩, if_pos rfl]
      · rw [if_neg same, if_neg (Ne.symm same)]
    have loop : ascend j n (start.storage j left) (Rotating.rotate n) =
        some (finish.storage j left) := by
      refine ascend_fold (fun S => Folding.storage S j left) (fun k => ?_) le_rfl
        (fun k S late => S.storage_rotate late left) _
      exact (and_iff_left k.isLt).symm
    refine ⟨finish.storage j left, ?_, rfl, rfl, _, rfl⟩
    simp only [cleared, begun, bind, Option.bind, s, rhs]
    exact loop

theorem firstZero_ok (A : AnyMatrix α) (t j : Nat) (zero : Fin t → Bool)
    (diagonal : ∀ i : Fin t, (A.get? (j + i) (j + i)).map (· == 0) = some (zero i)) :
    A.firstZero t j =
      some (Fin.foldr t (fun i bound => if zero i then j + i.val else bound) (j + t)) := by
  induction t generalizing j with
  | zero => rfl
  | succ t ih =>
      obtain ⟨x, read, first⟩ := Option.map_eq_some_iff.mp (diagonal 0)
      have rest := ih (j + 1) (fun i => zero i.succ) fun i => by
        rw [← diagonal i.succ, Fin.val_succ, Nat.add_right_comm, Nat.add_assoc]
      rw [AnyMatrix.firstZero, Fin.foldr_succ]
      rw [Fin.val_zero, Nat.add_zero] at read
      simp only [read, bind, Option.bind, first]
      split
      · rfl
      · have shift (i : Fin t) : j + 1 + i.val = j + i.succ.val := by
          rw [Fin.val_succ]
          omega
        have last : j + 1 + t = j + (t + 1) := by omega
        rw [rest]
        simp only [shift, last]

theorem firstZero_toMatrix (S : Triangle α n) :
    (⟨S.toMatrix⟩ : AnyMatrix α).firstZero n 0 = some S.leading := by
  have entry (i : Fin n) : (⟨S.toMatrix⟩ : AnyMatrix α).get? i i = some (S.entry i i) := by
    rw [AnyMatrix.get?_mk, toMatrix, DenseMatrix.get_ofFn]
  refine (firstZero_ok _ n 0 (fun i => S.entry i i == 0) fun i => ?_).trans ?_
  · rw [Nat.zero_add, entry]
    rfl
  · simp only [Nat.zero_add]
    rfl

theorem leading_le (S : Triangle α n) : S.leading ≤ n := by
  refine foldr_carries _ (fun _ bound => bound ≤ n) n le_rfl fun j bound le => ?_
  split
  · exact j.isLt.le
  · exact le

theorem substitute_holds {S : Triangle α n} {T : Rotating α} (holds : S.Holds T)
    {P : Permutation n} (bijective : Function.Bijective P.get) {x : Array α} (length : x.size = n) :
    substitute S.leading T.s.get? (fun j => T.s.get? j j) P T.rhs x =
      some (P.restore S.solve).toArray := by
  obtain ⟨s, rhs, -⟩ := holds
  have entry (i j : Fin n) : T.s.get? i j = some (S.entry i j) := by
    rw [s, AnyMatrix.get?_mk, toMatrix, DenseMatrix.get_ofFn]
  refine substitute_ok bijective S.leading_le (fun j i _ _ => entry j i) (fun j _ => entry j j)
    (fun j _ => ?_) length
  rw [rhs, read]

end Triangle

/-! ## The whole solve -/

namespace Factorization

section Damped

variable (F : Factorization α m n) {given d scratch : Array α}

theorem carve_triangle (enough : F.rank ≤ given.size) (room : n ≤ scratch.size) :
    carve scratch n (fun i => if i < F.rank then given[i]? else some 0) =
      some ((F.triangle (leading n given)).rhs.toArray, scratch.extract n) := by
  refine carve_ok room fun i => ?_
  simp only [triangle, Vector.get_ofFn]
  split
  · rename_i inside
    exact read_enough (inside.trans_le enough)
  · rfl

theorem storage_copyTriangle (c : Vector α n) (A : DenseMatrix α n n) :
    F.storage.copyTriangle ⟨A⟩ = some ⟨(F.triangle c).toMatrix⟩ := by
  have entries (i j : Fin n) : F.storage.r i j = some ((F.triangle c).toMatrix.get i j) := by
    rw [storage_r, Triangle.toMatrix, DenseMatrix.get_ofFn]
    simp only [triangle, Triangle.entry, Vector.get_ofFn]
  exact overwrite_ok entries

theorem holds_folds (c : Vector α n) (length : d.size = n) {T : Rotating α}
    (holds : (F.triangle c).Holds T) :
    ∃ T', ascend 0 n T (fun j T => do T.fold n j (← d[← F.storage.perm.get? j]?)) = some T' ∧
      (F.dampedTriangle c (leading n d)).Holds T' := by
  refine ascend_follows_all Triangle.Holds (fun j S T holds => ?_) holds
  have fits : (F.perm.get j).val < d.size := length ▸ (F.perm.get j).isLt
  have position : F.storage.perm.get? j = some (F.perm.get j).val := F.perm.get?_mk j
  simp only [position, read_enough fits, bind, Option.bind]
  exact Triangle.holds_fold holds j _

end Damped

theorem storage_damped {F : Factorization α m n} (bijective : Function.Bijective F.perm.get)
    (given d : Array α) (W : Workspace α) (B : DampedBuffers α) {scratch : Array α}
    (room : 2 * n ≤ scratch.size) : F.storage.damped given d W.inner.storage scratch B =
      some (F.dampedInto given d W B) := by
  rw [Stored.damped, dampedInto]
  refine InPlace.attempt_checked fun passed => ?_
  simp only [checks_ok, checkLength_eq_ok, checkAtLeast_eq_ok] at passed
  obtain ⟨dLength, xLength, rows, cols, -, enough⟩ := passed
  obtain ⟨@⟨r, w, A⟩, x⟩ := B
  obtain rfl : r = n := rows
  obtain rfl : w = r := cols
  let start := F.triangle (leading w given)
  have row := carve_replicate (show w ≤ scratch.size by omega) (0 : α)
  have rhs := F.carve_triangle enough (show w ≤ (scratch.extract w).size by simp; omega)
  have copied := F.storage_copyTriangle (leading w given) A
  have holds : start.Holds (Rotating.mk ⟨start.toMatrix⟩ start.rhs.toArray
      (Vector.replicate w 0).toArray 0) := ⟨rfl, rfl, _, rfl⟩
  obtain ⟨T, run, finished⟩ := F.holds_folds (leading w given) dLength holds
  have bound := (F.dampedTriangle (leading w given) (leading w d)).firstZero_toMatrix
  rw [← finished.1] at bound
  have solved : substitute _ T.s.get? (fun j => T.s.get? j j) F.storage.perm T.rhs x = _ :=
    Triangle.substitute_holds finished bijective xLength
  have width : F.storage.ncols = w := rfl
  have rank : F.storage.rank = F.rank := rfl
  simp only [bind, Option.bind] at run
  simp only [width, rank, bind, Option.bind, row, rhs, copied, start, run, bound, solved, pure]
  rw [← finished.1]

end Factorization

end LeastSquares

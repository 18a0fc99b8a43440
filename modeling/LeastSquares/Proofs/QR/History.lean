import LeastSquares.Proofs.QR.Diagonal
import LeastSquares.Proofs.QR.Workspace

/-!
# Storage without a past

A factorization is refilled, a workspace is used again, and scratch space is lent from call to call.
What a call finds in them has the right size and is otherwise arbitrary: `Reached` and `Used` say
what a caller's earlier operations can have left in a factorization and in a workspace, if none of
its refills was refused. None of it gets into a result.
-/

set_option autoImplicit false

namespace LeastSquares

open Storage

variable {α : Type} [Scalar α] {m n : Nat}

structure Scratch (α : Type) (n : Nat) where
  stack : Array α
  stack_room : 3 * n ≤ stack.size
  cells : Array α
  cells_room : 2 * n ≤ cells.size

def Scratch.filled (x : α) : Scratch α n where
  stack := Array.replicate (3 * n) x
  stack_room := by simp
  cells := Array.replicate (2 * n) x
  cells_room := by simp

/-- Both calls end, with one result, and where they succeed with one output. -/
def Agree {β γ ρ : Type} (read : β → γ) (first second : Option (InPlace β ρ)) : Prop :=
  ∃ out out', first = some out ∧ second = some out' ∧ out.result = out'.result ∧
    ∀ value, out.result = .ok value → read out.buffers = read out'.buffers

namespace Stored

/-- Storage that operations which succeed have made: allocated for a matrix and factored, or
allocated for zeros and not factored, and refilled any number of times since. All other operations
only read it. -/
inductive Reached (m n : Nat) : Stored α → Prop
  | allocated {A : DenseMatrix α m n} {K : Scratch α n} {S : Stored α} {rank : Nat}
      (allocated : allocate ⟨A⟩ K.stack = some { buffers := S, result := .ok rank }) : Reached m n S
  | blank : Reached m n (around ⟨(.zeros : DenseMatrix α m n)⟩)
  | refilled {S S' : Stored α} {refill : AnyMatrix α → Option (AnyMatrix α)} {K : Scratch α n}
      {rank : Nat} (reached : Reached m n S)
      (refilled : S.refactorWith refill K.stack = some { buffers := S', result := .ok rank }) :
      Reached m n S'

/-- The inner factorization of a workspace that has served any minimum-norm and least-squares
solves, of factorizations of all shapes, and whether they succeeded or not. -/
inductive Used (n : Nat) : Stored α → Prop
  | fresh : Used n (around ⟨(.zeros : DenseMatrix α n n)⟩)
  | minimumNorm {p q : Nat} {S W : Stored α} {c x : Array α} {K : Scratch α n}
      {out : InPlace (StoredSolve α) Unit} (used : Used n W) (reached : S.Reached p q)
      (run : S.minimumNorm c { x, transposed := W } K.stack K.cells = some out) :
      Used n out.buffers.transposed
  | solve {p q : Nat} {S W : Stored α} {b x : Array α} {K : Scratch α n}
      {out : InPlace (StoredLeastSquares α) Unit} (used : Used n W) (reached : S.Reached p q)
      (run : S.solve { x, transposed := W, b } K.stack K.cells = some out) :
      Used n out.buffers.transposed

end Stored

namespace Factorization

theorem allocate_storage (A : DenseMatrix α m n) {stack : Array α} (room : 3 * n ≤ stack.size) :
    Stored.allocate ⟨A⟩ stack =
      some { buffers := (ofMatrix A).storage, result := .ok (ofMatrix A).rank } :=
  factorize_ok A (Vector.replicate n 0) (Vector.replicate n 0) .identity 0 room

theorem storage_overwritten (F : Factorization α m n) {refill : AnyMatrix α → Option (AnyMatrix α)}
    {A : DenseMatrix α m n} (overwrites : refill ⟨F.packed⟩ = some ⟨A⟩) {stack : Array α}
    (room : 3 * n ≤ stack.size) : F.storage.refactorWith refill stack =
      some { buffers := (ofMatrix A).storage, result := .ok (ofMatrix A).rank } := by
  rw [F.storage_refactorWith overwrites room, refilled_same]

theorem refilled_ok {F : Factorization α m n} {filled : AnyMatrix α} {S : Stored α} {rank : Nat}
    (succeeded : F.refilled filled = { buffers := S, result := .ok rank }) :
    ∃ A : DenseMatrix α m n, filled = ⟨A⟩ ∧ S = (ofMatrix A).storage := by
  obtain @⟨rows, cols, A⟩ := filled
  by_cases sameRows : rows = m
  · subst sameRows
    by_cases sameCols : cols = n
    · subst sameCols
      rw [refilled_same] at succeeded
      exact ⟨A, rfl, (congrArg InPlace.buffers succeeded).symm⟩
    · simp [refilled, refactorWith, sameCols] at succeeded
  · simp [refilled, refactorWith, sameRows] at succeeded

end Factorization

namespace Stored

theorem Reached.origin {S : Stored α} (reached : S.Reached m n) :
    ∃ F : Factorization α m n, S = F.storage ∧ ((∃ A, F = .ofMatrix A) ∨ F = .blank) := by
  induction reached with
  | @allocated A K S rank allocated =>
      rw [Factorization.allocate_storage A K.stack_room] at allocated
      have same := (congrArg InPlace.buffers (Option.some.inj allocated)).symm
      exact ⟨.ofMatrix A, same, .inl ⟨A, rfl⟩⟩
  | blank => exact ⟨.blank, rfl, .inr rfl⟩
  | @refilled S S' refill K rank reached refilled ih =>
      obtain ⟨F, rfl, -⟩ := ih
      cases fills : refill ⟨F.packed⟩ with
      | none =>
          have fills : refill F.storage.matrix = none := fills
          simp [refactorWith, fills] at refilled
      | some filled =>
          rw [F.storage_refactorWith fills K.stack_room] at refilled
          obtain ⟨A, -, rfl⟩ := Factorization.refilled_ok (Option.some.inj refilled)
          exact ⟨.ofMatrix A, rfl, .inl ⟨A, rfl⟩⟩

theorem Reached.storage {S : Stored α} (reached : S.Reached m n) :
    ∃ F : Factorization α m n, S = F.storage ∧ Function.Bijective F.perm.get := by
  obtain ⟨F, same, ⟨A, rfl⟩ | rfl⟩ := reached.origin
  · exact ⟨_, same, Factorization.ofMatrix_bijective A⟩
  · exact ⟨_, same, Factorization.blank_bijective⟩

theorem minimumNorm_refused {S : Stored α} {B : StoredSolve α}
    (wrong : B.x.size ≠ S.ncols ∨ B.transposed.ncols ≠ S.ncols) (c stack cells : Array α) :
    ∃ error, S.minimumNorm c B stack cells = some { buffers := B, result := .error error } := by
  by_cases length : B.x.size = S.ncols
  · simp only [minimumNorm, checkLength_self length, bind, Except.bind,
      checkLength_other (wrong.resolve_left (not_not.mpr length))]
    exact ⟨_, rfl⟩
  · simp only [minimumNorm, checkLength_other length, bind, Except.bind]
    exact ⟨_, rfl⟩

theorem minimumNorm_keeps {p q : Nat} {S : Stored α} (reached : S.Reached p q)
    (I : Factorization α n n) {c x : Array α} {K : Scratch α n} {out : InPlace (StoredSolve α) Unit}
    (run : S.minimumNorm c { x, transposed := I.storage } K.stack K.cells = some out) :
    ∃ I' : Factorization α n n, out.buffers.transposed = I'.storage := by
  obtain ⟨F, rfl, -⟩ := reached.storage
  by_cases width : n = q
  · subst width
    have ends := F.storage_minimumNorm c { x, workspace := ⟨I⟩ } K.stack_room K.cells_room
    obtain rfl : InPlace.map SolveBuffers.storage _ = out := Option.some.inj (ends.symm.trans run)
    rw [Factorization.minimumNormInto]
    split
    · exact ⟨I, rfl⟩
    · dsimp only
      split
      · exact ⟨I, rfl⟩
      · split
        · exact ⟨F.inner, rfl⟩
        · exact ⟨F.inner, rfl⟩
  · obtain ⟨error, refused⟩ := minimumNorm_refused (S := F.storage)
      (B := { x, transposed := I.storage }) (.inr width) c K.stack K.cells
    obtain rfl := Option.some.inj (refused.symm.trans run)
    exact ⟨I, rfl⟩

theorem solve_keeps {p q : Nat} {S : Stored α} (reached : S.Reached p q) (I : Factorization α n n)
    {b x : Array α} {K : Scratch α n} {out : InPlace (StoredLeastSquares α) Unit}
    (run : S.solve { x, transposed := I.storage, b } K.stack K.cells = some out) :
    ∃ I' : Factorization α n n, out.buffers.transposed = I'.storage := by
  obtain ⟨F, rfl, bijective⟩ := reached.storage
  simp only [solve, F.storage_qtMul, F.storage_fullRank, bind, Option.bind, InPlace.attempt] at run
  split at run
  · split at run
    · rw [Factorization.storage_rSolve bijective] at run
      obtain rfl := Option.some.inj run
      exact ⟨I, rfl⟩
    · split at run
      · cases run
      · rename_i solved ends
        obtain rfl := Option.some.inj run
        exact minimumNorm_keeps reached I ends
  · obtain rfl := Option.some.inj run
    exact ⟨I, rfl⟩

theorem Used.storage {W : Stored α} (used : W.Used n) :
    ∃ I : Factorization α n n, W = I.storage := by
  induction used with
  | fresh => exact ⟨.blank, rfl⟩
  | minimumNorm used reached run ih =>
      obtain ⟨I, rfl⟩ := ih
      exact minimumNorm_keeps reached I run
  | solve used reached run ih =>
      obtain ⟨I, rfl⟩ := ih
      exact solve_keeps reached I run

end Stored

/-! ## What does not depend on the past -/

section Independence

open Stored

theorem refactorWith_agree {S : Stored α} (reached : S.Reached m n)
    {refill : AnyMatrix α → Option (AnyMatrix α)} {B : DenseMatrix α m n}
    (overwrites : ∀ A : DenseMatrix α m n, refill ⟨A⟩ = some ⟨B⟩) (K K' : Scratch α n) :
    ∃ F : Stored α, S.refactorWith refill K.stack = some { buffers := F, result := .ok F.rank } ∧
      allocate ⟨B⟩ K'.stack = some { buffers := F, result := .ok F.rank } := by
  obtain ⟨F, rfl, -⟩ := reached.storage
  exact ⟨(Factorization.ofMatrix B).storage,
    F.storage_overwritten (overwrites F.packed) K.stack_room,
    Factorization.allocate_storage B K'.stack_room⟩

theorem factorStored_agree (A : DenseMatrix α m n) (diag diag' : Vector α n)
    (perm perm' : Permutation n) {norms norms' : Option (Vector α n)}
    (wanted : norms.isSome = norms'.isSome) (K K' : Scratch α n) :
    ∃ out rank, out.result = .ok rank ∧
      FactorBuffers.factorStored { matrix := ⟨A⟩, diag := diag.toArray, perm
                                   norms := norms.map Vector.toArray } K.stack = some out ∧
      FactorBuffers.factorStored { matrix := ⟨A⟩, diag := diag'.toArray, perm := perm'
                                   norms := norms'.map Vector.toArray } K'.stack = some out := by
  let F := Factorization.ofMatrix A
  have finished (diag : Vector α n) (perm : Permutation n) (norms : Option (Vector α n))
      (K : Scratch α n) : FactorBuffers.factorStored
        { matrix := ⟨A⟩, diag := diag.toArray, perm, norms := norms.map Vector.toArray } K.stack =
      some
        { buffers :=
            { matrix := ⟨F.packed⟩, diag := F.diag.toArray, perm := F.perm
              norms := norms.map fun _ => F.norms.toArray }
          result := .ok F.rank } := by
    refine (FactorBuffers.factorStored_fits A perm diag.size_toArray _ K.stack_room).trans ?_
    cases norms with
    | none => rfl
    | some norms =>
        simp only [FactorBuffers.checkNorms, Option.map_some, norms.size_toArray, checkLength_self]
        rfl
  have kept : (norms.map fun _ => F.norms.toArray) = norms'.map fun _ => F.norms.toArray := by
    cases norms <;> cases norms' <;> first | rfl | cases wanted
  refine ⟨_, _, rfl, finished diag perm norms K, ?_⟩
  rw [finished diag' perm' norms' K', kept]

theorem InPlace.checked_agree {β : Type} (before before' : β) (check : Except LinalgError Unit)
    (after : Unit → β) :
    (checked before check after).result = (checked before' check after).result ∧
      ∀ value, (checked before check after).result = .ok value →
        (checked before check after).buffers = (checked before' check after).buffers := by
  cases check with
  | error e => exact ⟨rfl, by simp [checked]⟩
  | ok _ => exact ⟨rfl, fun _ _ => rfl⟩

theorem rSolveInto_agree (F : Factorization α m n) (c : Array α) (x x' : Vector α n) :
    (F.rSolveInto c x.toArray).result = (F.rSolveInto c x'.toArray).result ∧
      ∀ value, (F.rSolveInto c x.toArray).result = .ok value →
        (F.rSolveInto c x.toArray).buffers = (F.rSolveInto c x'.toArray).buffers := by
  simp only [Factorization.rSolveInto, Vector.size_toArray]
  exact InPlace.checked_agree _ _ _ _

theorem minimumNormInto_agree (F : Factorization α m n) (I I' : Factorization α n n) (c : Array α)
    (x x' : Vector α n) :
    (F.minimumNormInto c { x := x.toArray, workspace := ⟨I⟩ }).result =
        (F.minimumNormInto c { x := x'.toArray, workspace := ⟨I'⟩ }).result ∧
      ∀ value, (F.minimumNormInto c { x := x.toArray, workspace := ⟨I⟩ }).result = .ok value →
        (F.minimumNormInto c { x := x.toArray, workspace := ⟨I⟩ }).buffers.x =
          (F.minimumNormInto c { x := x'.toArray, workspace := ⟨I'⟩ }).buffers.x := by
  simp only [Factorization.minimumNormInto, Vector.size_toArray, checkLength_self rfl, bind,
    Except.bind]
  cases checkAtLeast c.size F.rank with
  | error e => exact ⟨rfl, by simp⟩
  | ok _ =>
      dsimp only
      split
      · exact ⟨rfl, fun _ _ => rfl⟩
      · split <;> exact ⟨rfl, fun _ _ => rfl⟩

theorem minimumNorm_agree {S : Stored α} (reached : S.Reached m n) {W W' : Stored α}
    (used : W.Used n) (used' : W'.Used n) (c : Array α) (x x' : Vector α n) (K K' : Scratch α n) :
    Agree StoredSolve.x (S.minimumNorm c { x := x.toArray, transposed := W } K.stack K.cells)
      (S.minimumNorm c { x := x'.toArray, transposed := W' } K'.stack K'.cells) := by
  obtain ⟨F, rfl, -⟩ := reached.storage
  obtain ⟨I, rfl⟩ := used.storage
  obtain ⟨I', rfl⟩ := used'.storage
  obtain ⟨result, output⟩ := minimumNormInto_agree F I I' c x x'
  exact ⟨_, _,
    F.storage_minimumNorm c { x := x.toArray, workspace := ⟨I⟩ } K.stack_room K.cells_room,
    F.storage_minimumNorm c { x := x'.toArray, workspace := ⟨I'⟩ } K'.stack_room K'.cells_room,
    result, output⟩

theorem solve_agree {S : Stored α} (reached : S.Reached m n) {W W' : Stored α}
    (used : W.Used n) (used' : W'.Used n) (b : Array α) (x x' : Vector α n) (K K' : Scratch α n) :
    Agree (fun B => (B.b, B.x)) (S.solve { x := x.toArray, transposed := W, b } K.stack K.cells)
      (S.solve { x := x'.toArray, transposed := W', b } K'.stack K'.cells) := by
  obtain ⟨F, rfl, bijective⟩ := reached.storage
  obtain ⟨I, rfl⟩ := used.storage
  obtain ⟨I', rfl⟩ := used'.storage
  let B : LeastSquaresBuffers α := { x := x.toArray, workspace := ⟨I⟩, b }
  let B' : LeastSquaresBuffers α := { x := x'.toArray, workspace := ⟨I'⟩, b }
  have same : (F.solveInto B).result = (F.solveInto B').result ∧
      ∀ value, (F.solveInto B).result = .ok value →
        ((F.solveInto B).buffers.b, (F.solveInto B).buffers.x) =
          ((F.solveInto B').buffers.b, (F.solveInto B').buffers.x) := by
    obtain ⟨result, output⟩ := minimumNormInto_agree F I I' (F.qtInto b).buffers x x'
    simp only [Factorization.solveInto, B, B']
    cases (F.qtInto b).result with
    | error e => exact ⟨rfl, by simp⟩
    | ok _ =>
        dsimp only
        split
        · obtain ⟨solved, written⟩ := rSolveInto_agree F (F.qtInto b).buffers x x'
          exact ⟨solved, fun value ends => congrArg _ (written value ends)⟩
        · exact ⟨result, fun value ends => congrArg _ (output value ends)⟩
  exact ⟨_, _, Factorization.storage_solve bijective B K.stack_room K.cells_room,
    Factorization.storage_solve bijective B' K'.stack_room K'.cells_room, same.1, same.2⟩

theorem damped_agree {S : Stored α} (reached : S.Reached m n) {W W' : Stored α}
    (used : W.Used n) (used' : W'.Used n) (c d : Array α) (s s' : DenseMatrix α n n)
    (x x' : Vector α n) (K K' : Scratch α n) :
    Agree id (S.damped c d W K.cells { s := ⟨s⟩, x := x.toArray })
      (S.damped c d W' K'.cells { s := ⟨s'⟩, x := x'.toArray }) := by
  obtain ⟨F, rfl, bijective⟩ := reached.storage
  obtain ⟨I, rfl⟩ := used.storage
  obtain ⟨I', rfl⟩ := used'.storage
  refine ⟨_, _, Factorization.storage_damped bijective c d ⟨I⟩ _ K.cells_room,
    Factorization.storage_damped bijective c d ⟨I'⟩ _ K'.cells_room, ?_⟩
  simp only [Factorization.dampedInto, Vector.size_toArray]
  exact InPlace.checked_agree _ _ _ _

/-- Nothing of what storage has been used for gets into a result: a refilled factorization is the
one that would have been allocated for its matrix, factoring does not read what it overwrites, and
the solves in a workspace come to the same in any other, whatever their outputs held. -/
theorem storage_independent_of_past :
    (∀ {S : Stored α} {refill : AnyMatrix α → Option (AnyMatrix α)} {B : DenseMatrix α m n},
      S.Reached m n → (∀ A : DenseMatrix α m n, refill ⟨A⟩ = some ⟨B⟩) → ∀ K K' : Scratch α n,
        ∃ F : Stored α,
          S.refactorWith refill K.stack = some { buffers := F, result := .ok F.rank } ∧
          allocate ⟨B⟩ K'.stack = some { buffers := F, result := .ok F.rank }) ∧
    (∀ (A : DenseMatrix α m n) (diag diag' : Vector α n) (perm perm' : Permutation n)
      {norms norms' : Option (Vector α n)}, norms.isSome = norms'.isSome → ∀ K K' : Scratch α n,
        ∃ out rank, out.result = .ok rank ∧
          FactorBuffers.factorStored { matrix := ⟨A⟩, diag := diag.toArray, perm
                                       norms := norms.map Vector.toArray } K.stack = some out ∧
          FactorBuffers.factorStored { matrix := ⟨A⟩, diag := diag'.toArray, perm := perm'
                                       norms := norms'.map Vector.toArray } K'.stack = some out) ∧
    ∀ {S W W' : Stored α}, S.Reached m n → W.Used n → W'.Used n →
      ∀ (b c d : Array α) (s s' : DenseMatrix α n n) (x x' : Vector α n) (K K' : Scratch α n),
        Agree StoredSolve.x (S.minimumNorm c { x := x.toArray, transposed := W } K.stack K.cells)
          (S.minimumNorm c { x := x'.toArray, transposed := W' } K'.stack K'.cells) ∧
        Agree (fun B => (B.b, B.x))
          (S.solve { x := x.toArray, transposed := W, b } K.stack K.cells)
          (S.solve { x := x'.toArray, transposed := W', b } K'.stack K'.cells) ∧
        Agree id (S.damped c d W K.cells { s := ⟨s⟩, x := x.toArray })
          (S.damped c d W' K'.cells { s := ⟨s'⟩, x := x'.toArray }) := by
  refine ⟨fun reached overwrites => refactorWith_agree reached overwrites,
    fun A diag diag' perm perm' _ _ wanted => factorStored_agree A diag diag' perm perm' wanted,
    fun reached used used' b c d s s' x x' K K' => ⟨?_, ?_, ?_⟩⟩
  · exact minimumNorm_agree reached used used' c x x' K K'
  · exact solve_agree reached used used' b x x' K K'
  · exact damped_agree reached used used' c d s s' x x' K K'

/-- A factorization of equal columns that was one of a matrix with a `NaN` before, a new workspace,
and one in which that factorization has solved. -/
theorem storage_independent_of_past_alike :
    let K : Scratch Float 2 := .filled 0
    let K' : Scratch Float 2 := .filled (0 / 0)
    ∃ S W W' : Stored Float, (S.Reached 2 2 ∧ W.Used 2 ∧ W'.Used 2) ∧
      (S.rank, W.rank, W'.rank) = (1, 0, 1) ∧
      (∃ F : Stored Float, S.refactorWith (fun _ => some ⟨Factorization.holes⟩) K.stack =
          some { buffers := F, result := .ok F.rank } ∧
        allocate ⟨Factorization.holes⟩ K'.stack = some { buffers := F, result := .ok F.rank }) ∧
      Agree StoredSolve.x (S.minimumNorm #[1, 2] { x := #[0, 0], transposed := W } K.stack K.cells)
        (S.minimumNorm #[1, 2] { x := #[7, 7], transposed := W' } K'.stack K'.cells) := by
  intro K K'
  let F := Factorization.ofMatrix Factorization.alike
  let B : SolveBuffers Float :=
    { x := #[0, 0], workspace := ⟨(.blank : Factorization Float 2 2)⟩ }
  have begun : (Factorization.ofMatrix Factorization.holes).storage.Reached 2 2 :=
    .allocated (Factorization.allocate_storage Factorization.holes K.stack_room)
  have again : (Factorization.ofMatrix Factorization.holes).storage.refactorWith
      (fun _ => some ⟨Factorization.alike⟩) K.stack =
        some { buffers := F.storage, result := .ok F.rank } := by
    refine Factorization.storage_overwritten (A := Factorization.alike) _ ?_ K.stack_room
    rfl
  have reached : F.storage.Reached 2 2 := .refilled begun again
  have solved : F.storage.minimumNorm #[1, 2] B.storage K.stack K.cells =
      some ((F.minimumNormInto #[1, 2] B).map SolveBuffers.storage) :=
    F.storage_minimumNorm #[1, 2] B K.stack_room K.cells_room
  have used := Used.minimumNorm .fresh reached solved
  obtain ⟨refilling, -, solving⟩ := storage_independent_of_past (α := Float) (m := 2) (n := 2)
  refine ⟨F.storage, _, _, ⟨reached, .fresh, used⟩, by decide +kernel,
    refilling reached (fun _ => rfl) K K', ?_⟩
  exact (solving reached .fresh used #[] #[1, 2] #[] .zeros .zeros #v[0, 0] #v[7, 7] K K').1

end Independence

end LeastSquares

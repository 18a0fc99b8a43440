/-!
# Vectors as functions

A vector of length `n` is read like a function of its positions: `v i` is entry `i`. The lemmas
below say what each way of making or changing a vector does to that function.
-/

set_option autoImplicit false

namespace LeastSquares

variable {α β : Type} {n : Nat}

instance Vector.asFunction : CoeFun (Vector α n) fun _ => Fin n → α := ⟨Vector.get⟩

namespace Vector

theorem get_eq (v : Vector α n) (i : Fin n) : v i = v[i.val] := rfl

theorem ext_get {v w : Vector α n} (h : ∀ i, v i = w i) : v = w := by
  apply Vector.ext
  intro i hi
  exact h ⟨i, hi⟩

@[simp] theorem get_ofFn (f : Fin n → α) (i : Fin n) : Vector.ofFn f i = f i := by
  simp [get_eq]

@[simp] theorem get_replicate (x : α) (i : Fin n) : Vector.replicate n x i = x := by
  simp [get_eq]

@[simp] theorem get_map (f : α → β) (v : Vector α n) (i : Fin n) : v.map f i = f (v i) := by
  simp [get_eq]

theorem get_set (v : Vector α n) (k i : Fin n) (x : α) :
    v.set k x k.isLt i = if k = i then x else v i := by
  simp [get_eq, Vector.getElem_set, Fin.ext_iff]

theorem get_swap (v : Vector α n) (a b i : Fin n) :
    v.swap a b a.isLt b.isLt i = if i = a then v b else if i = b then v a else v i := by
  simp [get_eq, Vector.getElem_swap, Fin.ext_iff]

end Vector

end LeastSquares

import LeastSquares.DenseMatrix

/-!
# Models

A model computes values at `m` points from `n` parameters, and the derivatives of the values. It
may keep a state, and any call may fail. It writes into a buffer that it is handed, and the buffer
counts as written whether or not the call succeeds; the one for derivatives is handed over zeroed.
-/

set_option autoImplicit false

namespace LeastSquares

/-- What a call of a model leaves behind: its state, the buffer it wrote to, and its failure. -/
structure Answer (σ ε β : Type) where
  state : σ
  buffer : β
  failure? : Option ε

structure Model (α σ ε : Type) (n m : Nat) where
  values : σ → Vector α n → Vector α m → Answer σ ε (Vector α m)
  /-- Column `p` takes the derivatives by parameter `p`. -/
  jacobian : σ → Vector α n → DenseMatrix α m n → Answer σ ε (DenseMatrix α m n)

end LeastSquares

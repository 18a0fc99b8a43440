import LeastSquares.DenseMatrix

/-!
# Products of matrices

The products of matrices come from a library for them, which is free in the order in which it sums
up an entry. So they are a parameter of everything that takes one. What is proved with it holds in
every order, unless it names something more that it asks of products.
-/

set_option autoImplicit false

namespace LeastSquares

class Products (α : Type) where
  /-- The product `A' B`. -/
  transposeMul {k m n : Nat} : DenseMatrix α k m → DenseMatrix α k n → DenseMatrix α m n

/-- Each entry is summed up from the first row on. -/
instance (priority := low) Products.inOrder {α : Type} [Scalar α] : Products α where
  transposeMul A B :=
    .ofFn fun p q => Scalar.addOver 0 (fun _ => true) fun i => A.get i p * B.get i q

end LeastSquares

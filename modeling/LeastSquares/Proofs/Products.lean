import LeastSquares.Products
import LeastSquares.Proofs.Exact

/-!
# Exact products

In exact arithmetic the order in which the entries of a product are summed up makes no difference,
and all that is asked of products is that they are products.
-/

set_option autoImplicit false

namespace LeastSquares.Products

variable {k m n : Nat}

/-- The products are those of the matrices. -/
class Exact [Products ℝ] : Prop where
  get_transposeMul {k m n : Nat} (A : DenseMatrix ℝ k m) (B : DenseMatrix ℝ k n) (p : Fin m)
    (q : Fin n) : (transposeMul A B).get p q = ∑ i, A.get i p * B.get i q

instance : @Exact inOrder where
  get_transposeMul A B p q := by
    change DenseMatrix.get (.ofFn _) p q = _
    rw [DenseMatrix.get_ofFn, Scalar.addOver_real, zero_add]
    exact Finset.sum_congr rfl fun i _ => if_pos rfl

end LeastSquares.Products

import LeastSquares.Decimal.Text
import LeastSquares.QR.Factorization

/-!
# The debug text of a factorization
-/

set_option autoImplicit false

namespace LeastSquares

def bracketed (items : List String) : String := "[" ++ ", ".intercalate items ++ "]"

def Permutation.debugText {n : Nat} (P : Permutation n) : String :=
  "Permutation \x7b indices: " ++ bracketed (P.toList.map toString) ++ " \x7d"

def Factorization.debugText {m n : Nat} (F : Factorization Float m n) : String :=
  "QrFactorization \x7b nrows: " ++ toString m ++ ", ncols: " ++ toString n ++
    ", rank: " ++ toString F.rank ++
    ", diag: " ++ bracketed (F.diag.toList.map Decimal.tagged) ++
    ", perm: " ++ F.perm.debugText ++ ", .. \x7d"

end LeastSquares

import LeastSquares.Models.Counted

/-!
# Models given by a script

A script answers the calls of either kind with its entries in order, and goes on with the last one
when they run out. An entry that a script leaves out is not written.
-/

set_option autoImplicit false

namespace LeastSquares

structure ScriptModel where
  values : Array (Array (Option Float))
  jacobian : Array (Array (Array (Option Float)))

namespace ScriptModel

def entryAt? {β : Type} (entries : Array β) (call : Nat) : Option β :=
  entries[min (call - 1) (entries.size - 1)]?

def valueAt? (S : ScriptModel) (call i : Nat) : Option Float := do
  let row ← entryAt? S.values call
  row[i]?.join

def derivativeAt? (S : ScriptModel) (call i p : Nat) : Option Float := do
  let rows ← entryAt? S.jacobian call
  let row ← rows[i]?
  row[p]?.join

def toTable (S : ScriptModel) (n m : Nat) : CallTable Float n m where
  values call _ buffer := Vector.ofFn fun i => (S.valueAt? call i).getD (buffer i)
  jacobian call _ buffer := .ofFn fun i p => (S.derivativeAt? call i p).getD (buffer.get i p)

end ScriptModel

end LeastSquares

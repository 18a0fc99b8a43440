import LeastSquares.Permutation

/-!
# Programs on storage

A program on storage reads and writes one cell after another, in arrays that still hold what their
last use left in them. It answers `none` where a position is out of range. A loop passes over
positions upward or downward and hands its state from one pass to the next.

Scratch space is a stack of cells. A piece of it is carved off the front, and every cell of the
piece is written before it is handed out.
-/

set_option autoImplicit false

namespace LeastSquares.Storage

variable {α σ : Type}

/-! ## Loops -/

def ascend (first last : Nat) (start : σ) (pass : Nat → σ → Option σ) : Option σ :=
  (List.range' first (last - first)).foldlM (fun s i => pass i s) start

def descend (first last : Nat) (start : σ) (pass : Nat → σ → Option σ) : Option σ :=
  (List.range' first (last - first)).reverse.foldlM (fun s i => pass i s) start

/-! ## Cells -/

def write (cells : Array α) (i : Nat) (x : α) : Option (Array α) :=
  if h : i < cells.size then some (cells.set i x h) else none

def exchange (cells : Array α) (i j : Nat) : Option (Array α) := do
  let x ← cells[i]?
  let y ← cells[j]?
  write (← write cells i y) j x

def fill (cells : Array α) (first : Nat) (x : α) : Option (Array α) :=
  ascend first cells.size cells fun i cells => write cells i x

/-- The first `count` cells of a stack, cell `i` holding `f i`, and the cells behind them. -/
def carve (stack : Array α) (count : Nat) (f : Nat → Option α) :
    Option (Array α × Array α) := do
  let stack ← ascend 0 count stack fun i stack => do write stack i (← f i)
  return (stack.extract 0 count, stack.extract count)

end LeastSquares.Storage

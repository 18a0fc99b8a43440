import LeastSquares.Models.Counted

/-!
# Models given by formulas

A formula is a list of tokens in postfix order, over the parameters and a row of data. The points of
a formula model take the formulas, and the rows of data, in turn.
-/

set_option autoImplicit false

namespace LeastSquares

namespace Formula

inductive Unary where
  | neg
  | sqrt
  | exp
  | sin
  | cos

inductive Binary where
  | add
  | sub
  | mul
  | div

inductive Token where
  | number (value : Float)
  | parameter (index : Nat)
  | datum (index : Nat)
  | unary (op : Unary)
  | binary (op : Binary)

def Unary.apply (x : Float) : Unary → Float
  | neg => -x
  | sqrt => x.sqrt
  | exp => x.exp
  | sin => x.sin
  | cos => x.cos

def Binary.apply (x y : Float) : Binary → Float
  | add => x + y
  | sub => x - y
  | mul => x * y
  | div => x / y

def step (parameters data : Array Float) (stack : List Float) : Token → Option (List Float)
  | .number value => some (value :: stack)
  | .parameter index => parameters[index]?.map (· :: stack)
  | .datum index => data[index]?.map (· :: stack)
  | .unary op =>
      match stack with
      | x :: rest => some (op.apply x :: rest)
      | [] => none
  | .binary op =>
      match stack with
      | y :: x :: rest => some (op.apply x y :: rest)
      | _ => none

def eval? (parameters data : Array Float) (formula : List Token) : Option Float :=
  (formula.foldlM (step parameters data) []).bind List.head?

end Formula

/-- Formulas for the values and their derivatives. A derivative without a formula is not written. -/
structure FormulaModel where
  values : Array (List Formula.Token)
  derivatives : Array (Array (Option (List Formula.Token)))
  data : Array (Array Float)

namespace FormulaModel

def inTurn? {β : Type} (entries : Array β) (i : Nat) : Option β := entries[i % entries.size]?

def dataAt (F : FormulaModel) (i : Nat) : Array Float := (inTurn? F.data i).getD #[]

def valueAt? (F : FormulaModel) (parameters : Array Float) (i : Nat) : Option Float :=
  (inTurn? F.values i).bind (Formula.eval? parameters (F.dataAt i))

def derivativeAt? (F : FormulaModel) (parameters : Array Float) (i p : Nat) : Option Float := do
  let row ← inTurn? F.derivatives i
  let formula ← row[p]?.join
  Formula.eval? parameters (F.dataAt i) formula

def toTable (F : FormulaModel) (n m : Nat) : CallTable Float n m where
  values _ parameters buffer :=
    Vector.ofFn fun i => (F.valueAt? parameters.toArray i).getD (buffer i)
  jacobian _ parameters buffer :=
    .ofFn fun i p => (F.derivativeAt? parameters.toArray i p).getD (buffer.get i p)

end FormulaModel

end LeastSquares

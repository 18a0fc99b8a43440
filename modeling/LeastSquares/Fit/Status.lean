/-!
# How an iteration ends
-/

set_option autoImplicit false

namespace LeastSquares

inductive Status where
  | improving
  | minimumFound
  | chiSquareIsOk
  | chiSquareChangeTooSmall
  | allParametersAreStuck
  | deltaIsTooSmall
deriving DecidableEq, Repr

namespace Status

def all : List Status :=
  [improving, minimumFound, chiSquareIsOk, chiSquareChangeTooSmall, allParametersAreStuck,
    deltaIsTooSmall]

def isTerminal : Status → Bool
  | improving => false
  | _ => true

def name : Status → String
  | improving => "IMPROVING"
  | minimumFound => "MINIMUM_FOUND"
  | chiSquareIsOk => "CHI_2_IS_OK"
  | chiSquareChangeTooSmall => "CHI_2_CHANGE_TOO_SMALL"
  | allParametersAreStuck => "ALL_PARAMETERS_ARE_STUCK"
  | deltaIsTooSmall => "DELTA_IS_TOO_SMALL"

def ofName? (text : String) : Option Status := all.find? (·.name == text)

theorem mem_all (status : Status) : status ∈ all := by cases status <;> decide

end Status

end LeastSquares

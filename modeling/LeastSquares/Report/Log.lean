import LeastSquares.Decimal.Text
import LeastSquares.Fit.Event

/-!
# Log records

A record has a level and a text. A filter lets through the records at its own level and above; no
filter lets through nothing.
-/

set_option autoImplicit false

namespace LeastSquares

inductive LogLevel where
  | error
  | warn
  | info
  | debug
  | trace
deriving DecidableEq, Repr

namespace LogLevel

def all : List LogLevel := [error, warn, info, debug, trace]

def name : LogLevel → String
  | error => "ERROR"
  | warn => "WARN"
  | info => "INFO"
  | debug => "DEBUG"
  | trace => "TRACE"

def verbosity : LogLevel → Nat
  | error => 1
  | warn => 2
  | info => 3
  | debug => 4
  | trace => 5

def line (level : LogLevel) (text : String) : String := level.name ++ " " ++ text

end LogLevel

abbrev LogFilter := Option LogLevel

def LogFilter.passes (filter : LogFilter) (level : LogLevel) : Bool :=
  match filter with
  | none => false
  | some threshold => decide (level.verbosity ≤ threshold.verbosity)

namespace LogRecord

def level {α : Type} : LogRecord α → LogLevel
  | clamped .. => .warn
  | prepared .. => .debug
  | stuck .. => .debug
  | rankDeficient .. => .debug
  | terminated .. => .debug
  | search .. => .trace

open Decimal in
def text : LogRecord Float → String
  | clamped parameter value limited =>
      "parameter " ++ toString parameter ++ " = " ++ plain value ++
        " outside its limits, clamped to " ++ plain limited
  | prepared chiSquare => "prepared fit: chi2 = " ++ scientific 6 chiSquare
  | stuck parameter => "parameter " ++ toString parameter ++ " is stuck at a limit"
  | rankDeficient rank free =>
      "jacobian is rank deficient: rank " ++ toString rank ++ " for " ++ toString free ++
        " free parameters"
  | terminated iterations status chiSquare =>
      "fit terminated after " ++ toString iterations ++ " iterations: " ++ status.name ++
        " (chi2 = " ++ scientific 6 chiSquare ++ ")"
  | search (.gaussNewtonFits length) =>
      "gauss-newton step fits the trust region: |Dx| = " ++ scientific 3 length
  | search (.tried step alpha length delta) =>
      "damping search " ++ toString step ++ ": alpha = " ++ scientific 3 alpha ++ ", |Dx| = " ++
        scientific 3 length ++ ", delta = " ++ scientific 3 delta

end LogRecord

end LeastSquares

import LeastSquares.Report.BoxTable
import LeastSquares.Report.Log

/-!
# The table of trial steps

The table reporter collects the reports of a run and prints them as one table when the run finishes,
with the status below it. What it has printed it forgets.

Its lines go to the log at level `info` where the filter passes that level, and to the output
otherwise. On the output an empty line stands before a table.
-/

set_option autoImplicit false

namespace LeastSquares

structure Printed where
  output : List String
  log : List String

namespace Printed

def nothing : Printed := { output := [], log := [] }

def append (first second : Printed) : Printed :=
  { output := first.output ++ second.output, log := first.log ++ second.log }

instance : Append Printed := ⟨append⟩

def lines (filter : LogFilter) (texts : List String) : Printed :=
  if filter.passes .info then { output := [], log := texts.map LogLevel.info.line }
  else { output := texts, log := [] }

def record (filter : LogFilter) (record : LogRecord Float) : Printed :=
  if filter.passes record.level then { output := [], log := [record.level.line record.text] }
  else nothing

end Printed

/-- What the table reporter prints when a run finishes: a table of these reports, unless there are
none, and the status. -/
structure Printout (α : Type) where
  reports : List (IterationReport α)
  status : Status

structure TableReporter (α : Type) where
  reports : Array (IterationReport α)

namespace TableReporter

variable {α : Type}

def empty : TableReporter α := ⟨#[]⟩

def onIteration (R : TableReporter α) (report : IterationReport α) : TableReporter α :=
  ⟨R.reports.push report⟩

def onFinish (R : TableReporter α) (status : Status) : Printout α × TableReporter α :=
  ({ reports := R.reports.toList, status }, empty)

end TableReporter

namespace Printout

def header : List (String × Alignment) :=
  [("iter", .right), ("chi2", .right), ("trial", .right), ("rho", .right), ("alpha", .right),
    ("delta", .right), ("grad", .right), ("accepted", .left), ("bounded", .left)]

open Decimal in
def row (report : IterationReport Float) : List String :=
  [toString report.iteration, scientific 4 report.chiSquare, scientific 4 report.trialChiSquare,
    fixed 3 report.rho, scientific 1 report.alpha, scientific 1 report.delta,
    scientific 1 report.gradientNorm, if report.accepted then "yes" else "no",
    if report.bounded then "yes" else ""]

def table (P : Printout Float) : BoxTable :=
  { header := header.map (·.1), alignments := header.map (·.2), rows := P.reports.map row }

def statusLine {α : Type} (P : Printout α) : String := "status: " ++ P.status.name

def lines (render : BoxTable → List String) (P : Printout Float) : List String :=
  (if P.reports.isEmpty then [] else render P.table) ++ [P.statusLine]

def spaced {α : Type} (P : Printout α) (filter : LogFilter) : Bool :=
  !P.reports.isEmpty && !filter.passes .info

def printBy (render : BoxTable → List String) (filter : LogFilter) (P : Printout Float) : Printed :=
  { output := if P.spaced filter then [""] else [], log := [] } ++
    Printed.lines filter (P.lines render)

def print (filter : LogFilter) (P : Printout Float) : Printed := P.printBy BoxTable.lines filter

end Printout

end LeastSquares

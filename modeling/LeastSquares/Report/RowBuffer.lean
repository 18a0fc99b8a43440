import LeastSquares.Report.TableReporter

/-!
# A table reporter line by line

The calls of a table reporter as programs that keep rows and send off one line after another. Each
line finds its own way, to the log or to the output. A finish without rows takes a way out of its
own, on which nothing is cleared.

Laying out a table is somebody else's work: the rows are added one by one to a table with a header,
and `render` gives its lines.
-/

set_option autoImplicit false

namespace LeastSquares

inductive Sent where
  | output (text : String)
  | log (level : LogLevel) (text : String)

namespace Sent

/-- Sends a line to the log if `info` passes, and to the output if not. -/
def emitLine (filter : LogFilter) (text : String) (sent : Array Sent) : Array Sent :=
  if filter.passes .info then sent.push (.log .info text) else sent.push (.output text)

end Sent

structure RowBuffer where
  rows : Array (IterationReport Float)

namespace RowBuffer

open Sent

def empty : RowBuffer := { rows := #[] }

def onIteration (B : RowBuffer) (report : IterationReport Float) : RowBuffer :=
  { rows := B.rows.push report }

def headed : BoxTable :=
  { header := Printout.header.map (·.1), alignments := Printout.header.map (·.2), rows := [] }

def addRow (table : BoxTable) (report : IterationReport Float) : BoxTable :=
  { table with rows := table.rows ++ [Printout.row report] }

def onFinish (render : BoxTable → List String) (filter : LogFilter) (status : Status)
    (B : RowBuffer) : RowBuffer × Array Sent :=
  let closing := "status: " ++ status.name
  if B.rows.isEmpty then (B, emitLine filter closing #[])
  else
    let sent := if filter.passes .info then #[] else #[.output ""]
    let table := B.rows.foldl addRow headed
    let sent := (render table).foldl (fun sent line => emitLine filter line sent) sent
    ({ rows := #[] }, emitLine filter closing sent)

end RowBuffer

end LeastSquares

import LeastSquares.Fit.Correlation
import LeastSquares.Fit.Run
import LeastSquares.Report.TableReporter

/-!
# Sessions

A session is a fit with a log filter and a reporter. It turns the events of each call into text and
into what a recording reporter has received.

A verbose session has a table reporter of its own, which a reporter set by the caller replaces. With
its own reporter a run also tells how long it took.
-/

set_option autoImplicit false

namespace LeastSquares

inductive CallerReporter where
  | table (reporter : TableReporter Float)
  /-- Keeps what it receives; `finishes` says whether it listens to the end of a run. -/
  | recorder (finishes : Bool)

inductive Reporter where
  | none
  | own (reporter : TableReporter Float)
  | caller (reporter : CallerReporter)

inductive Received where
  | iteration (report : IterationReport Float)
  | finish (status : Status)

structure Produced where
  printed : Printed
  received : List Received

namespace Produced

def nothing : Produced := { printed := .nothing, received := [] }

def append (first second : Produced) : Produced :=
  { printed := first.printed ++ second.printed, received := first.received ++ second.received }

instance : Append Produced := ⟨append⟩

end Produced

namespace Reporter

def onIteration (report : IterationReport Float) : Reporter → Reporter × List Received
  | none => (none, [])
  | own table => (own (table.onIteration report), [])
  | caller (.table table) => (caller (.table (table.onIteration report)), [])
  | caller (.recorder finishes) => (caller (.recorder finishes), [.iteration report])

def onFinish (filter : LogFilter) (status : Status) : Reporter → Reporter × Produced
  | none => (none, .nothing)
  | own table =>
      let (printout, table) := table.onFinish status
      (own table, { printed := printout.print filter, received := [] })
  | caller (.table table) =>
      let (printout, table) := table.onFinish status
      (caller (.table table), { printed := printout.print filter, received := [] })
  | caller (.recorder finishes) =>
      (caller (.recorder finishes),
        { printed := .nothing, received := if finishes then [.finish status] else [] })

def onEvent (filter : LogFilter) (reporter : Reporter) : Event Float → Reporter × Produced
  | .log record => (reporter, { printed := .record filter record, received := [] })
  | .iteration report =>
      let (reporter, received) := reporter.onIteration report
      (reporter, { printed := .nothing, received })
  | .finish status => reporter.onFinish filter status

def onEvents (filter : LogFilter) : Reporter → List (Event Float) → Reporter × Produced
  | reporter, [] => (reporter, .nothing)
  | reporter, event :: rest =>
      let (reporter, first) := reporter.onEvent filter event
      let (reporter, others) := onEvents filter reporter rest
      (reporter, first ++ others)

def isOwn : Reporter → Bool
  | own _ => true
  | _ => false

end Reporter

structure Session (σ : Type) (n m : Nat) where
  fit : Fit Float σ n m
  reporter : Reporter
  filter : LogFilter

structure Reply (σ ε : Type) (n m : Nat) (ρ : Type) where
  session : Session σ n m
  produced : Produced
  result : Except (FitError ε) ρ

namespace Session

variable {σ ε ρ : Type} {n m : Nat} [Products Float]

def ofFit (filter : LogFilter) (fit : Fit Float σ n m) : Session σ n m :=
  { fit, reporter := .none, filter }

def setReporter (S : Session σ n m) (reporter : CallerReporter) : Session σ n m :=
  { S with reporter := .caller reporter }

/-- Turns the table of the session on or off. A reporter set by the caller stays. -/
def setVerbose (S : Session σ n m) (verbose : Bool) : Session σ n m :=
  match S.reporter, verbose with
  | .none, true => { S with reporter := .own .empty }
  | .own _, false => { S with reporter := .none }
  | _, _ => S

def reply (S : Session σ n m) (call : Call Float σ ε n m ρ) : Reply σ ε n m ρ :=
  let (reporter, produced) := S.reporter.onEvents S.filter call.events
  { session := { S with fit := call.fit, reporter }, produced, result := call.result }

def prepare (M : Model Float σ ε n m) (S : Session σ n m) : Reply σ ε n m Unit :=
  S.reply (S.fit.prepare M)

def iterate (M : Model Float σ ε n m) (fuel : Nat) (S : Session σ n m) :
    Option (Reply σ ε n m Status) :=
  (S.fit.iterate M fuel).map S.reply

def correlationWithin (budget : Nat) (M : Model Float σ ε n m) (S : Session σ n m) :
    Reply σ ε n m (DenseMatrix Float n n) :=
  S.reply (S.fit.correlation M budget)

def correlation (M : Model Float σ ε n m) (S : Session σ n m) :
    Reply σ ε n m (DenseMatrix Float n n) :=
  S.correlationWithin S.fit.correlationBuffers.length M

def run (M : Model Float σ ε n m) (fuel maxIterations : Nat) (elapsed : String)
    (S : Session σ n m) : Option (Reply σ ε n m (RunSummary Float)) :=
  (S.fit.run M fuel maxIterations).map fun call =>
    let reply := S.reply call
    match reply.result with
    | .error _ => reply
    | .ok _ =>
      if S.reporter.isOwn then
        let time : Produced := { printed := .lines S.filter ["time: " ++ elapsed], received := [] }
        { reply with produced := reply.produced ++ time }
      else reply

end Session

end LeastSquares

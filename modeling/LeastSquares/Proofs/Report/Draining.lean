import LeastSquares.Proofs.Fit.Trace
import LeastSquares.Report.RowBuffer

/-!
# Rows that are drained

What a table reporter prints at a finish, said from the calls before it and not from what it holds:
the reports since the last finish, each in a row of its own, and the status. Every report is printed
by one finish, or by none so far. How a table is rendered is left open, as long as its rows come in
the order in which they were added.
-/

set_option autoImplicit false

namespace LeastSquares

open Sent

variable {render : BoxTable → List String} {filter : LogFilter}

/-! ## One finish -/

namespace Printout

def sentBy (render : BoxTable → List String) (filter : LogFilter) (P : Printout Float) :
    List Sent :=
  if filter.passes .info then (P.lines render).map (.log .info)
  else (if P.reports.isEmpty then [] else [.output ""]) ++ (P.lines render).map .output

end Printout

namespace RowBuffer

theorem foldl_addRow (reports : List (IterationReport Float)) (table : BoxTable) :
    reports.foldl addRow table = { table with rows := table.rows ++ reports.map Printout.row } := by
  induction reports generalizing table with
  | nil => rw [List.foldl_nil, List.map_nil, List.append_nil]
  | cons report rest ih =>
      rw [List.foldl_cons, ih]
      simp [addRow]

def via (filter : LogFilter) (text : String) : Sent :=
  if filter.passes .info then .log .info text else .output text

theorem emitLine_eq (text : String) (sent : Array Sent) :
    emitLine filter text sent = sent.push (via filter text) := by
  unfold emitLine via
  split <;> rfl

theorem onFinish_sent (render : BoxTable → List String) (filter : LogFilter) (status : Status)
    (B : RowBuffer) : (B.onFinish render filter status).1 = empty ∧
    (B.onFinish render filter status).2.toList =
      (⟨B.rows.toList, status⟩ : Printout Float).sentBy render filter := by
  obtain ⟨rows⟩ := B
  by_cases none : rows.isEmpty = true
  · obtain rfl : rows = #[] := Array.isEmpty_iff.mp none
    refine ⟨rfl, ?_⟩
    by_cases logged : filter.passes .info = true <;>
      simp [onFinish, emitLine_eq, via, Printout.sentBy, Printout.lines, Printout.statusLine,
        logged]
  · have some? : rows.toList.isEmpty = false := by simpa using none
    have table : rows.foldl addRow headed =
        (⟨rows.toList, status⟩ : Printout Float).table := by
      rw [← Array.foldl_toList, foldl_addRow]
      rfl
    simp only [onFinish, if_neg none, table, emitLine_eq, Array.toList_push]
    refine ⟨rfl, ?_⟩
    simp only [Printout.sentBy, Printout.lines, some?, Printout.statusLine]
    by_cases logged : filter.passes .info = true
    · simp [via, logged]
    · simp [via, logged]

end RowBuffer

/-! ## Calls in any order -/

/-- A call of a reporter, under the log filter that is set at the time. -/
structure ReporterCall where
  filter : LogFilter
  notice : Notice Float

namespace ReporterCall

def report? (call : ReporterCall) : Option (IterationReport Float) :=
  match call.notice with
  | .iteration report => some report
  | .finish _ => none

/-- The reports at the end of these calls, behind the last finish. -/
def sinceFinish (calls : List ReporterCall) : List (IterationReport Float) :=
  (calls.reverse.takeWhile (·.report?.isSome)).reverse.filterMap report?

/-- The reports that a call should print, after these calls. -/
def drained (before : List ReporterCall) (call : ReporterCall) : List (IterationReport Float) :=
  match call.notice with
  | .iteration _ => []
  | .finish _ => sinceFinish before

/-- The lines that a call should send, after these calls. -/
def sent (render : BoxTable → List String) (before : List ReporterCall) (call : ReporterCall) :
    List Sent :=
  match call.notice with
  | .iteration _ => []
  | .finish status => (⟨sinceFinish before, status⟩ : Printout Float).sentBy render call.filter

theorem sinceFinish_iteration (calls : List ReporterCall) (filter : LogFilter)
    (report : IterationReport Float) :
    sinceFinish (calls ++ [⟨filter, .iteration report⟩]) = sinceFinish calls ++ [report] := by
  simp [sinceFinish, report?]

theorem sinceFinish_finish (calls : List ReporterCall) (filter : LogFilter) (status : Status) :
    sinceFinish (calls ++ [⟨filter, .finish status⟩]) = [] := by
  simp [sinceFinish, report?]

/-- Something about each call and the calls before it. -/
def withPast {β : Type} (f : List ReporterCall → ReporterCall → β) :
    List ReporterCall → List ReporterCall → List β
  | _, [] => []
  | past, call :: rest => f past call :: withPast f (past ++ [call]) rest

theorem drained_all (past calls : List ReporterCall) :
    (withPast drained past calls).flatten ++ sinceFinish (past ++ calls) =
      sinceFinish past ++ calls.filterMap report? := by
  induction calls generalizing past with
  | nil => simp [withPast]
  | cons call rest ih =>
      obtain ⟨filter, notice⟩ := call
      have split : past ++ ⟨filter, notice⟩ :: rest = past ++ [⟨filter, notice⟩] ++ rest := by simp
      rw [withPast, List.flatten_cons, List.append_assoc, split, ih]
      cases notice with
      | iteration report => simp [drained, sinceFinish_iteration, report?]
      | finish status =>
          have silent : report? ⟨filter, .finish status⟩ = none := rfl
          simp [drained, sinceFinish_finish, silent]

end ReporterCall

namespace RowBuffer

open ReporterCall

/-- One call, and what it sends. -/
def hear (render : BoxTable → List String) (B : RowBuffer) (call : ReporterCall) :
    RowBuffer × List Sent :=
  match call.notice with
  | .iteration report => (B.onIteration report, [])
  | .finish status =>
      let (B, sent) := B.onFinish render call.filter status
      (B, sent.toList)

def hearAll (render : BoxTable → List String) :
    RowBuffer → List ReporterCall → RowBuffer × List (List Sent)
  | B, [] => (B, [])
  | B, call :: rest =>
      let (B, sent) := B.hear render call
      let (B, others) := hearAll render B rest
      (B, sent :: others)

/-- What a reporter holds after these calls. -/
def holding (calls : List ReporterCall) : RowBuffer := { rows := (sinceFinish calls).toArray }

theorem holding_iteration (past : List ReporterCall) (filter : LogFilter)
    (report : IterationReport Float) :
    holding (past ++ [⟨filter, .iteration report⟩]) = (holding past).onIteration report := by
  simp [holding, onIteration, sinceFinish_iteration]

theorem holding_finish (past : List ReporterCall) (filter : LogFilter) (status : Status) :
    holding (past ++ [⟨filter, .finish status⟩]) = empty := by
  rw [holding, sinceFinish_finish]
  rfl

theorem hear_holding (past : List ReporterCall) (call : ReporterCall) :
    (holding past).hear render call = (holding (past ++ [call]), call.sent render past) := by
  obtain ⟨filter, notice⟩ := call
  cases notice with
  | iteration report =>
      rw [holding_iteration]
      rfl
  | finish status =>
      obtain ⟨cleared, printed⟩ := (holding past).onFinish_sent render filter status
      rw [holding_finish]
      exact Prod.ext cleared printed

theorem hearAll_holding (past calls : List ReporterCall) :
    (holding past).hearAll render calls =
      (holding (past ++ calls), withPast (ReporterCall.sent render) past calls) := by
  induction calls generalizing past with
  | nil => rw [hearAll, List.append_nil, withPast]
  | cons call rest ih =>
      rw [hearAll, hear_holding]
      dsimp only
      rw [ih, List.append_assoc, List.singleton_append, withPast]

end RowBuffer

/-! ## Rows in their order -/

/-- How tables are rendered: of the lines of a table, those that show cells are the lines of its
header and those of one row after another, in the order in which the rows were added. No other line
of a printout shows cells. -/
structure RowsInOrder (render : BoxTable → List String) (showsCells : String → Bool)
    (linesOf : BoxTable → List String → List String) : Prop where
  rendered : ∀ T, (render T).filter showsCells =
    linesOf T T.header ++ T.rows.flatMap (linesOf T)
  some : ∀ T row, linesOf T row ≠ []
  blank : showsCells "" = false
  status : ∀ status : Status, showsCells ("status: " ++ status.name) = false

namespace Sent

def text : Sent → String
  | output text => text
  | log _ text => text

end Sent

def Printout.rowLines (linesOf : BoxTable → List String → List String) (P : Printout Float) :
    List String :=
  if P.reports.isEmpty then []
  else
    linesOf P.table P.table.header ++
      P.reports.flatMap fun report => linesOf P.table (row report)

section InOrder

variable {showsCells : String → Bool} {linesOf : BoxTable → List String → List String}

theorem RowsInOrder.lines (inOrder : RowsInOrder render showsCells linesOf)
    (P : Printout Float) : (P.lines render).filter showsCells = P.rowLines linesOf := by
  have last : showsCells P.statusLine = false := inOrder.status P.status
  rw [Printout.lines, List.filter_append, List.filter_cons_of_neg (by simpa using last),
    List.filter_nil, List.append_nil, Printout.rowLines]
  cases P.reports.isEmpty with
  | true => rfl
  | false =>
      rw [if_neg Bool.false_ne_true, if_neg Bool.false_ne_true, inOrder.rendered]
      exact congrArg (_ ++ ·) (List.flatMap_map ..)

theorem RowsInOrder.sentBy (inOrder : RowsInOrder render showsCells linesOf)
    (filter : LogFilter) (P : Printout Float) :
    ((P.sentBy render filter).map Sent.text).filter showsCells = P.rowLines linesOf := by
  rw [← inOrder.lines, Printout.sentBy]
  split
  · rw [List.map_map, show Sent.text ∘ Sent.log .info = id from rfl, List.map_id]
  · rw [List.map_append, List.map_map, show Sent.text ∘ Sent.output = id from rfl, List.map_id,
      List.filter_append]
    cases P.reports.isEmpty with
    | true => rfl
    | false => simp [Sent.text, inOrder.blank]

def ReporterCall.rowLines (linesOf : BoxTable → List String → List String)
    (before : List ReporterCall) (call : ReporterCall) : List String :=
  match call.notice with
  | .iteration _ => []
  | .finish status => (⟨sinceFinish before, status⟩ : Printout Float).rowLines linesOf

theorem RowsInOrder.sent (inOrder : RowsInOrder render showsCells linesOf)
    (past calls : List ReporterCall) :
    (ReporterCall.withPast (ReporterCall.sent render) past calls).map
        (fun sent => (sent.map Sent.text).filter showsCells) =
      ReporterCall.withPast (ReporterCall.rowLines linesOf) past calls := by
  induction calls generalizing past with
  | nil => rfl
  | cons call rest ih =>
      obtain ⟨filter, notice⟩ := call
      rw [ReporterCall.withPast, List.map_cons, ih, ReporterCall.withPast]
      cases notice with
      | iteration report => rfl
      | finish status => exact congrArg (· :: _) (inOrder.sentBy filter _)

end InOrder

/-! ## The reporter of a session -/

def Sent.output? : Sent → Option String
  | .output text => some text
  | .log _ _ => none

def Sent.log? : Sent → Option String
  | .output _ => none
  | .log level text => some (level.line text)

def Printed.ofSent (sent : List Sent) : Printed :=
  { output := sent.filterMap Sent.output?, log := sent.filterMap Sent.log? }

namespace Printed

theorem ofSent_append (first second : List Sent) :
    ofSent (first ++ second) = ofSent first ++ ofSent second := by
  rw [ofSent, List.filterMap_append, List.filterMap_append]
  rfl

theorem ofSent_output (texts : List String) :
    ofSent (texts.map .output) = { output := texts, log := [] } := by
  simp [ofSent, List.filterMap_map, Function.comp_def, Sent.output?, Sent.log?]

theorem ofSent_log (texts : List String) :
    ofSent (texts.map (.log .info)) = { output := [], log := texts.map LogLevel.info.line } := by
  simp [ofSent, List.filterMap_map, Function.comp_def, Sent.output?, Sent.log?]

end Printed

theorem Printout.printBy_eq (render : BoxTable → List String) (filter : LogFilter)
    (P : Printout Float) : P.printBy render filter = .ofSent (P.sentBy render filter) := by
  rw [printBy, Printed.lines, sentBy, spaced]
  by_cases logged : filter.passes .info = true
  · rw [if_pos logged, if_pos logged, Printed.ofSent_log, logged, Bool.not_true, Bool.and_false]
    rfl
  · have silent : filter.passes .info = false := Bool.eq_false_iff.mpr logged
    rw [if_neg logged, if_neg logged, Printed.ofSent_append, Printed.ofSent_output, silent,
      Bool.not_false, Bool.and_true]
    cases P.reports.isEmpty <;> rfl

structure TableReporter.Runs (R : TableReporter Float) (B : RowBuffer)
    (render : BoxTable → List String) : Prop where
  reports : R.reports = B.rows
  onIteration : ∀ report, (R.onIteration report).reports = (B.onIteration report).rows
  onFinish : ∀ filter status,
    (R.onFinish status).2.reports = (B.onFinish render filter status).1.rows ∧
      (R.onFinish status).1.printBy render filter =
        .ofSent (B.onFinish render filter status).2.toList

theorem RowBuffer.runs (B : RowBuffer) (render : BoxTable → List String) :
    (⟨B.rows⟩ : TableReporter Float).Runs B render where
  reports := rfl
  onIteration _ := rfl
  onFinish filter status := by
    obtain ⟨cleared, printed⟩ := B.onFinish_sent render filter status
    rw [cleared, printed]
    exact ⟨rfl, Printout.printBy_eq render filter _⟩

/-! ## What is drained -/

structure Drains (render : BoxTable → List String) (calls : List ReporterCall) (B : RowBuffer)
    (sent : List (List Sent)) : Prop where
  /-- A finish sends the reports since the finish before it, unless there are none, and its status,
  all to the same place. -/
  sends : sent = ReporterCall.withPast (ReporterCall.sent render) [] calls
  held : B.rows.toList = ReporterCall.sinceFinish calls
  complete : (ReporterCall.withPast ReporterCall.drained [] calls).flatten ++
    ReporterCall.sinceFinish calls = calls.filterMap ReporterCall.report?
  inOrder : ∀ {showsCells linesOf}, RowsInOrder render showsCells linesOf →
    sent.map (fun sent => (sent.map Sent.text).filter showsCells) =
      ReporterCall.withPast (ReporterCall.rowLines linesOf) [] calls
  runs : (⟨B.rows⟩ : TableReporter Float).Runs B render

/-- Between two finishes no report is lost, and none is printed twice. A finish prints the reports
since the finish before it, each in a row of its own and in their order, and below them its status.
All its lines go to the log if the filter of the call passes `info`; if not, they go to the output,
and there an empty line stands before a table. -/
theorem RowBuffer.finish_drains (render : BoxTable → List String) (calls : List ReporterCall) :
    Drains render calls (empty.hearAll render calls).1 (empty.hearAll render calls).2 := by
  have all : empty.hearAll render calls =
      (holding calls, ReporterCall.withPast (ReporterCall.sent render) [] calls) :=
    hearAll_holding [] calls
  rw [all]
  exact ⟨rfl, rfl, ReporterCall.drained_all [] calls, fun inOrder => inOrder.sent [] calls,
    (holding calls).runs render⟩

/-! ## Tables in a frame -/

namespace BoxTable

/-- A line that shows cells begins with an unbroken bar. -/
def showsCells (line : String) : Bool := line.toList.head? == some '│'

theorem rowLine_showsCells (widths : List Nat) (alignments : List Alignment) (row : List String) :
    showsCells (rowLine widths alignments row) = true := by
  simp [showsCells, rowLine]

theorem rule_showsCells (rule : Rule) (widths : List Nat)
    (other : ∃ c rest, rule.first.toList = c :: rest ∧ c ≠ '│') :
    showsCells (rule.line widths) = false := by
  obtain ⟨c, rest, first, other⟩ := other
  simp [showsCells, Rule.line, first, other]

theorem filter_intersperse {keep : String → Bool} {separator : String} {lines : List String}
    (dropped : keep separator = false) (kept : ∀ line ∈ lines, keep line = true) :
    (lines.intersperse separator).filter keep = lines := by
  induction lines with
  | nil => rfl
  | cons first rest ih =>
      obtain ⟨here, others⟩ := List.forall_mem_cons.mp kept
      cases rest with
      | nil => rw [List.intersperse_singleton, List.filter_cons_of_pos here, List.filter_nil]
      | cons second rest =>
          rw [List.intersperse_cons_cons, List.filter_cons_of_pos here,
            List.filter_cons_of_neg (by simpa using dropped), ih others]

theorem lines_showsCells (T : BoxTable) : T.lines.filter showsCells =
    (T.header :: T.rows).map (rowLine T.widths T.alignments) := by
  have top : showsCells (top.line T.widths) = false :=
    rule_showsCells _ _ ⟨'┌', [], by decide, by decide⟩
  have belowHeader : showsCells (belowHeader.line T.widths) = false :=
    rule_showsCells _ _ ⟨'╞', [], by decide, by decide⟩
  have betweenRows : showsCells (betweenRows.line T.widths) = false :=
    rule_showsCells _ _ ⟨'├', [], by decide, by decide⟩
  have bottom : showsCells (bottom.line T.widths) = false :=
    rule_showsCells _ _ ⟨'└', [], by decide, by decide⟩
  have rows : ∀ line ∈ T.rows.map (rowLine T.widths T.alignments), showsCells line = true := by
    intro line listed
    obtain ⟨row, -, rfl⟩ := List.mem_map.mp listed
    exact rowLine_showsCells _ _ _
  simp only [lines, List.filter_append, filter_intersperse betweenRows rows, List.filter_cons, top,
    belowHeader, bottom, rowLine_showsCells]
  simp

theorem lines_inOrder :
    RowsInOrder lines showsCells fun T row => [rowLine T.widths T.alignments row] where
  rendered T := by
    rw [lines_showsCells, List.map_cons, ← List.map_eq_flatMap]
    rfl
  some _ _ := List.cons_ne_nil _ _
  blank := rfl
  status status := by cases status <;> rfl

end BoxTable

def IterationReport.taken : IterationReport Float :=
  { iteration := 1, chiSquare := 4, trialChiSquare := 1, rho := 0.9, alpha := 0, delta := 0.5
    gradientNorm := 2, accepted := true, bounded := false }

/-- A report, a finish on the output, and a finish in the log with nothing to show. -/
theorem RowBuffer.finish_drains_framed :
    let report := IterationReport.taken
    let calls : List ReporterCall := [⟨none, .iteration report⟩, ⟨none, .finish .improving⟩,
      ⟨some .info, .finish .chiSquareIsOk⟩]
    let T : BoxTable := (⟨[report], .improving⟩ : Printout Float).table
    let row := BoxTable.rowLine T.widths T.alignments
    let heard := empty.hearAll BoxTable.lines calls
    heard.1.rows.toList = [] ∧
      heard.2.map (fun sent => (sent.map Sent.text).filter BoxTable.showsCells) =
        [[], [row T.header, row (Printout.row report)], []] ∧
      heard.2.getLast? = some [.log .info "status: CHI_2_IS_OK"] := by
  intro report calls T row heard
  have drains : Drains BoxTable.lines calls heard.1 heard.2 := finish_drains BoxTable.lines calls
  refine ⟨drains.held, drains.inOrder BoxTable.lines_inOrder, ?_⟩
  rw [drains.sends]
  rfl

end LeastSquares

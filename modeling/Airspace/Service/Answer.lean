import Airspace.Guard.Evaluate
import Airspace.Service.Metric
import Airspace.Service.Report

/-! # Answers

  Each position report gets one answer: the verdict, and the status of the guard
  after it. Besides, the verdict is counted; and when the guard becomes ready or
  fails, what it keeps or that it failed is reported.
-/

namespace Airspace

/-- The answer to a report. -/
structure Answer where
  /-- The verdict. -/
  verdict : Verdict
  /-- The status of the guard after it. -/
  status : Guard.Status
deriving DecidableEq

/-- An answer as a line of output. -/
def Answer.line (a : Answer) : String :=
  "\x7b\"allowed\":" ++ (if a.verdict.allowed then "true" else "false")
    ++ ",\"reason\":" ++ quoteJson a.verdict.reason.name
    ++ ",\"code\":" ++ toString a.verdict.reason.code
    ++ ",\"detail\":" ++ quoteJson a.verdict.detail
    ++ ",\"state\":" ++ quoteJson a.status.name ++ "\x7d"

namespace Guard

/-- What is reported of a guard whose status changed from `before`. -/
def changes (before : Status) (g : Guard) : List Metric :=
  if before = g.status then []
  else match g.status with
    | .ready =>
      [.retained .countries g.report.vertices, .retained .airports g.report.airports,
        .retained .prisons g.report.prisons]
    | .failed => [.loadFailed]
    | _ => []

/-- What handling a report gives. -/
structure Handled where
  /-- The guard afterwards. -/
  guard : Guard
  /-- The answer. -/
  answer : Answer
  /-- The changes of metrics. -/
  metrics : List Metric
  /-- The check-ins made. -/
  checkIns : List CheckIn

/-- Handles a position report. -/
def handle (v : Volume) (r : PositionReport) (g : Guard) : Handled :=
  let e := (g.locate r.position).evaluate v r.ready
  { guard := e.guard
    answer := ⟨e.verdict, e.guard.status⟩
    metrics := .verdict e.verdict.reason :: e.guard.changes g.status
    checkIns := e.checkIns }

/-- The answers to reports handled one after the other. -/
def answers (v : Volume) : List PositionReport → Guard → List Answer
  | [], _ => []
  | r :: rest, g =>
    let h := g.handle v r
    h.answer :: answers v rest h.guard

end Guard

end Airspace

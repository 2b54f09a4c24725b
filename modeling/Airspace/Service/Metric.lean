import Airspace.Table
import Airspace.Verdict

/-! # Metrics

  What the service counts: verdicts by their reason, the records that are kept, and
  failed loads.
-/

namespace Airspace

/-- One change of a metric. -/
inductive Metric
  /-- One more verdict for a reason. -/
  | verdict (r : Reason)
  /-- So many records are kept of a table. -/
  | retained (t : Table) (n : Nat)
  /-- One more failed load. -/
  | loadFailed
deriving DecidableEq

namespace Metric

/-- A metric with at most one label, in one line. -/
def render (kind name label change : String) : String :=
  kind ++ " " ++ name ++ "\x7b" ++ label ++ "\x7d " ++ change

/-- A change of a metric in one line. -/
def text : Metric → String
  | verdict r => render "counter" "geofence_verdicts_total" ("reason=" ++ r.label) "+1"
  | retained t n =>
    render "gauge" "geofence_retained_records" ("table=" ++ t.name) ("=" ++ toString n)
  | loadFailed => render "counter" "geofence_ingestion_failures_total" "" "+1"

end Metric

end Airspace

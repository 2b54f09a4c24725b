import Airspace.Text.Cut

/-! # Verdicts

  Whether flight is allowed, and if it is not, why. The detail of a denial is cut
  to fifty bytes, the most that a flight controller shows.
-/

namespace Airspace

/-- Why flight is denied. -/
inductive Reason
  /-- It is not. -/
  | noBan
  /-- An airport is too near. -/
  | airport
  /-- The position lies in a banned country. -/
  | country
  /-- A prison is too near. -/
  | prison
  /-- The tables cannot be read. -/
  | fileError
  /-- There is no position yet. -/
  | gps
deriving DecidableEq

namespace Reason

/-- All reasons, in the order of their codes. -/
def all : List Reason := [noBan, airport, country, prison, fileError, gps]

/-- The code for the flight controller. -/
def code : Reason → Nat
  | noBan => 0
  | airport => 1
  | country => 2
  | prison => 3
  | fileError => 4
  | gps => 5

/-- The short mark in messages. -/
def tag : Reason → String
  | noBan => ""
  | airport => "AIRPORT"
  | country => "COUNTRY"
  | prison => "PRISON"
  | fileError => "FILE"
  | gps => "GPS"

/-- The name in records and answers. -/
def name : Reason → String
  | noBan => "no_ban"
  | airport => "airport"
  | country => "country"
  | prison => "prison"
  | fileError => "file_error"
  | gps => "gps"

/-- The label in metrics. -/
def label : Reason → String
  | noBan => "none"
  | airport => "airport"
  | country => "country"
  | prison => "prison"
  | fileError => "file_error"
  | gps => "gps"

end Reason

/-- The answer of one evaluation. -/
structure Verdict where
  /-- Whether flight is allowed. -/
  allowed : Bool
  /-- Why not. -/
  reason : Reason
  /-- The reason in words. -/
  detail : String
deriving DecidableEq

namespace Verdict

/-- The most bytes that a detail takes. -/
def detailLimit : Nat := 50

/-- Flight is allowed. -/
def allow : Verdict := ⟨true, .noBan, ""⟩

/-- Flight is denied, with as much of the detail as fits. -/
def deny (reason : Reason) (detail : String) : Verdict :=
  ⟨false, reason, Text.cut detailLimit detail⟩

/-- A verdict in words. -/
def message (v : Verdict) : String :=
  if v.allowed then "allowed" else "denied [" ++ v.reason.tag ++ "] " ++ v.detail

end Verdict

end Airspace

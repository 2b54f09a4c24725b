import Airspace.Guard.Load
import Airspace.Guard.Proximity
import Airspace.Verdict

/-! # The guard

  A guard decides whether flight is allowed at the current position. It loads the
  tables once, on the first evaluation at a known position that is said to be ready
  for it; only what is within reach of that position is kept. A failed load lasts
  until the guard is started again. On what globe distances are measured is up to who
  makes the guard.
-/

namespace Airspace

/-- Where the guard stands with its tables. -/
inductive Phase
  /-- They have not been loaded. -/
  | pending
  /-- They have been loaded. -/
  | loaded (report : LoadReport)
  /-- Loading them failed. -/
  | failed (fault : LoadFault)

/-- A guard. -/
structure Guard where
  /-- The measurements on the globe. -/
  globe : Globe
  /-- What it checks. -/
  config : Config
  /-- The current position; the reserved point while there is none. -/
  position : Position
  /-- Whether the volume was there when the guard was started; `none` before that. -/
  storage : Option Bool
  /-- Where it stands with its tables. -/
  phase : Phase
  /-- What it keeps of them. -/
  holdings : Holdings

namespace Guard

/-- A guard that has not been started. -/
def new (globe : Globe) (c : Config) : Guard := ⟨globe, c, .null, none, .pending, .new c⟩

/-- Starts the guard over: drops everything but the position and looks whether the
    volume is there. -/
def start (v : Volume) (g : Guard) : Guard :=
  { g with storage := some v.mounted, phase := .pending, holdings := g.holdings.reset }

/-- Moves the guard to a position. -/
def locate (p : Position) (g : Guard) : Guard := { g with position := p }

/-! ### What is to be seen of a guard -/

/-- What a guard is waiting for, if it waits. -/
inductive Status
  | uninitialized
  | awaitingGps
  | awaitingIngestion
  | ready
  | failed
deriving DecidableEq

/-- The name of a status in answers. -/
def Status.name : Status → String
  | uninitialized => "uninitialized"
  | awaitingGps => "awaiting_gps"
  | awaitingIngestion => "awaiting_ingestion"
  | ready => "ready"
  | failed => "failed"

/-- The status of a guard. A failure shows before a missing position does. -/
def status (g : Guard) : Status :=
  match g.storage, g.phase with
  | none, _ => .uninitialized
  | some _, .failed _ => .failed
  | some _, .pending => if g.position.isNull then .awaitingGps else .awaitingIngestion
  | some _, .loaded _ => if g.position.isNull then .awaitingGps else .ready

/-- Whether the tables have been loaded. -/
def isLoaded (g : Guard) : Bool :=
  match g.phase with
  | .loaded _ => true
  | _ => false

/-- The report of the load, all zero where there was none. -/
def report (g : Guard) : LoadReport :=
  match g.phase with
  | .loaded report => report
  | _ => .zero

/-- The alert of the failed load, if it failed. -/
def alert? (g : Guard) : Option Alert :=
  match g.phase with
  | .failed fault => some fault.alert
  | _ => none

/-! ### Checks -/

/-- Whether an airport that is kept is too near. -/
def isNearAirport (g : Guard) : Bool :=
  (nearAirport? g.globe g.config.clearances g.position g.holdings.airports.toList).isSome

/-- Whether a prison that is kept is too near. -/
def isNearPrison (g : Guard) : Bool :=
  (nearPrison? g.globe g.config.clearances.prison g.position g.holdings.prisons.toList).isSome

/-- Whether the position lies in a banned country: by the outline that is kept, or
    by the unpruned borders if nothing of them was within reach. -/
def isInsideCountry (g : Guard) : Bool :=
  let vertices := g.holdings.countries.toList
  if vertices.isEmpty then decide (0 < g.holdings.reference)
  else Region.contains vertices g.position 0

end Guard

end Airspace

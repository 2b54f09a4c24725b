import Airspace.Guard.Basic

/-! # Evaluations

  An evaluation first asks what stands in the way of any check: nothing to check, no
  volume, no position, a failed load. Then the tables are loaded if they have not
  been and the caller is ready for it; then airports, prisons and countries are
  checked in this order, and the first that forbids flight decides.
-/

namespace Airspace.Guard

/-! ### Loading -/

/-- What a load of the tables does to what a guard keeps. -/
structure Ingestion where
  /-- What is kept afterwards. -/
  holdings : Holdings
  /-- The check-ins made. -/
  checkIns : List CheckIn
  /-- What was counted, or why it failed. -/
  outcome : Except LoadFault LoadReport

/-- Loads the tables at the current position. -/
def ingestion (v : Volume) (g : Guard) : Ingestion :=
  match Load.all ⟨g.globe, g.config, v, g.position⟩ ⟨g.holdings, []⟩ with
  | .ok report p => ⟨p.holdings, p.checkIns, .ok report⟩
  | .error fault p => ⟨p.holdings, p.checkIns, .error fault⟩

/-- Loads the tables and changes what is kept, but not where the guard stands. -/
def ingest (v : Volume) (g : Guard) : Guard × Ingestion :=
  let i := g.ingestion v
  ({ g with holdings := i.holdings }, i)

/-! ### Verdicts -/

/-- The verdict of the checks on what is kept. -/
def judge (g : Guard) : Verdict :=
  if g.config.airportEnabled && g.isNearAirport then .deny .airport "near airport"
  else if g.config.prisonEnabled && g.isNearPrison then .deny .prison "near prison"
  else if g.config.countryEnabled && g.isInsideCountry then
    .deny .country "inside banned country"
  else .allow

/-- The verdict that stands before any check, if one does. -/
def verdictBefore? (g : Guard) : Option Verdict :=
  if g.config.everythingBypassed then some .allow
  else if g.storage != some true then some (.deny .fileError "filesystem unavailable")
  else if g.position.isNull then some (.deny .gps "no position")
  else match g.phase with
    | .failed _ => some (.deny .fileError "file error")
    | _ => none

/-- What an evaluation gives. -/
structure Evaluation where
  /-- The guard afterwards. -/
  guard : Guard
  /-- The verdict. -/
  verdict : Verdict
  /-- The check-ins made. -/
  checkIns : List CheckIn

/-- Loads the tables for the first time and goes on to the checks if that works. -/
def loadAndJudge (v : Volume) (g : Guard) : Evaluation :=
  let i := g.ingestion v
  match i.outcome with
  | .ok report =>
    let g := { g with phase := .loaded report, holdings := i.holdings }
    ⟨g, g.judge, i.checkIns⟩
  | .error fault =>
    let g := { g with phase := .failed fault, holdings := i.holdings.release }
    ⟨g, .deny .fileError "file error", i.checkIns⟩

/-- The guard, started if it has not been. -/
def started (v : Volume) (g : Guard) : Guard :=
  match g.storage with
  | none => g.start v
  | some _ => g

/-- Whether an evaluation may have to read tables. Where it does not, the volume does
    not matter. -/
def mayLoad (ready : Bool) (g : Guard) : Bool :=
  match g.phase with
  | .pending => ready
  | _ => false

/-- Decides whether flight is allowed. `ready` says whether the tables may be loaded
    now. -/
def evaluate (v : Volume) (ready : Bool) (g : Guard) : Evaluation :=
  let g := g.started v
  match g.verdictBefore? with
  | some verdict => ⟨g, verdict, []⟩
  | none =>
    match g.phase, ready with
    | .pending, true => g.loadAndJudge v
    | _, _ => ⟨g, g.judge, []⟩

end Airspace.Guard

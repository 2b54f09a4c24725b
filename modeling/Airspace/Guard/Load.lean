import Airspace.Alert
import Airspace.Border.Outline
import Airspace.Border.Search
import Airspace.Config
import Airspace.Guard.Pass

/-! # Loading the tables

  Tables are loaded in the order airports, countries, prisons, and only those that
  are checked. Of each, the records within reach of the position are kept. The
  border table is read twice: first for the polygon that contains the position,
  then for the outline. With a yield interval of zero, the supervisor is checked in
  with at every line, after the line was read and before it is used.

  A failure ends the load and leaves behind what was loaded before it.
-/

namespace Airspace

/-- Why a load failed. -/
inductive LoadFault
  /-- A table cannot be read. -/
  | storage (fault : StorageFault)
  /-- The records of a table do not fit. -/
  | buffer (t : Table) (fault : BufferFault)
deriving DecidableEq

namespace LoadFault

/-- What a load fault says. -/
def message : LoadFault → String
  | storage fault => fault.message
  | buffer t fault => t.name ++ ": " ++ fault.message

/-- What the fault below it says, if it wraps one. -/
def cause? : LoadFault → Option String
  | storage fault => fault.cause?
  | buffer _ fault => some fault.message

end LoadFault

/-- The code of a buffer fault. -/
def BufferFault.code : BufferFault → AlertCode
  | limitReached _ => .capacityExceeded
  | outOfMemory _ => .outOfMemory

/-- The code of a storage fault. -/
def StorageFault.code (_ : StorageFault) : AlertCode := .storageUnavailable

/-- The code of a load fault. -/
def LoadFault.code : LoadFault → AlertCode
  | storage fault => fault.code
  | buffer _ fault => fault.code

/-- The alert of a load fault. -/
def LoadFault.alert (f : LoadFault) : Alert := ⟨f.code, f.message⟩

/-! ### What a load leaves -/

/-- What is kept of the tables. -/
structure Holdings where
  /-- The outline of the borders within reach. -/
  countries : Buffer Position
  /-- The airports within reach. -/
  airports : Buffer Airport
  /-- The prisons within reach. -/
  prisons : Buffer Position
  /-- The number of the border polygon around the position, or 0. -/
  reference : Nat

namespace Holdings

/-- Nothing is kept. -/
def new (c : Config) : Holdings where
  countries := .new c.initialCapacity c.recordLimit
  airports := .new c.initialCapacity c.recordLimit
  prisons := .new c.initialCapacity c.recordLimit
  reference := 0

/-- Drops everything, ready for a new load. -/
def reset (h : Holdings) : Holdings where
  countries := h.countries.reset
  airports := h.airports.reset
  prisons := h.prisons.reset
  reference := 0

/-- Drops everything, and the buffers' capacity with it. -/
def release (h : Holdings) : Holdings where
  countries := h.countries.release
  airports := h.airports.release
  prisons := h.prisons.release
  reference := 0

end Holdings

/-- What a load counted. -/
structure LoadReport where
  /-- The number of the border polygon around the position, or 0. -/
  reference : Nat
  /-- What was drawn of the borders. -/
  borders : Border.Summary
  /-- Vertices kept of the borders. -/
  vertices : Nat
  /-- Airports kept. -/
  airports : Nat
  /-- Prisons kept. -/
  prisons : Nat
deriving DecidableEq

/-- Nothing was loaded. -/
def LoadReport.zero : LoadReport := ⟨0, .zero, 0, 0, 0⟩

/-- A message to the supervisor: so many lines of a table have been read. -/
structure CheckIn where
  /-- The table. -/
  table : Table
  /-- The lines. -/
  lines : Nat
deriving DecidableEq

/-! ### The load -/

/-- What a load is based on. -/
structure Load.Basis where
  /-- The measurements on the globe. -/
  globe : Globe
  /-- What to load. -/
  config : Config
  /-- Where from. -/
  volume : Volume
  /-- The position. -/
  origin : Position

/-- A load in progress. -/
structure Load.Progress where
  /-- What is kept so far. -/
  holdings : Holdings
  /-- The check-ins so far. -/
  checkIns : List CheckIn

/-- A load that a fault may end; what was loaded before it stays. -/
abbrev Load := EStateM LoadFault Load.Progress

namespace Load

/-- Changes what is kept. -/
def changeHoldings (f : Holdings → Holdings) : Load Unit :=
  modify fun p => { p with holdings := f p.holdings }

/-- Opens a table. -/
def openTable (b : Basis) (t : Table) : Load Reading :=
  match b.volume.read t with
  | .ok reading => pure reading
  | .error fault => throw (.storage fault)

/-- The pass over a reading of a table. -/
def passOver {σ : Type} (t : Table) (r : Reading) (use : String → EStateM BufferFault σ Unit)
    (enough : σ → Bool) (s : σ) : Pass LoadFault σ :=
  let tagged (line : String) : EStateM LoadFault σ Unit := fun s =>
    match use line s with
    | .ok u s => .ok u s
    | .error fault s => .error (.buffer t fault) s
  let ending := r.fault.map fun cause => .storage (.unreadable t cause)
  .along tagged enough ending r.lines 0 s

/-- The check-ins of a pass over so many lines. -/
def checkInsOf (c : Config) (t : Table) (scanned : Nat) : List CheckIn :=
  if c.yieldInterval = 0 then (List.range scanned).map fun i => ⟨t, i + 1⟩ else []

/-- Takes over the outcome of a pass: what was gathered, the check-ins and the
    failure. -/
def conclude {σ : Type} (b : Basis) (t : Table) (pass : Pass LoadFault σ)
    (keep : σ → Holdings → Holdings) : Load Unit := do
  modify fun p => {
    holdings := keep pass.gathered p.holdings
    checkIns := p.checkIns ++ checkInsOf b.config t pass.scanned }
  match pass.failure with
  | some fault => throw fault
  | none => pure ()

/-- Whether a place is within reach. -/
def Basis.reaches (b : Basis) (p : Position) : Bool :=
  decide (b.globe.distance b.origin p < b.config.reach)

/-- Puts a record into a buffer. -/
def keep {α : Type} (a : α) : EStateM BufferFault (Buffer α) Unit := fun buffer =>
  match buffer.push a with
  | .ok buffer => .ok () buffer
  | .error fault => .error fault buffer

/-- Keeps the airport of a line if it is within reach. -/
def keepAirport (b : Basis) (line : String) : EStateM BufferFault (Buffer Airport) Unit :=
  match Record.airport? line.toList with
  | some a => if b.reaches a.position then keep a else pure ()
  | none => pure ()

/-- Keeps the prison of a line if it is within reach. -/
def keepPrison (b : Basis) (line : String) : EStateM BufferFault (Buffer Position) Unit :=
  match Record.prison? line.toList with
  | some p => if b.reaches p then keep p else pure ()
  | none => pure ()

/-- Loads the airports and counts them. -/
def airports (b : Basis) : Load Nat := do
  changeHoldings fun h => { h with airports := h.airports.reset }
  let reading ← openTable b .airports
  let p ← get
  let pass := passOver .airports reading (keepAirport b) (fun _ => false) p.holdings.airports
  conclude b .airports pass fun kept h => { h with airports := kept }
  return pass.gathered.size

/-- Loads the prisons and counts them. -/
def prisons (b : Basis) : Load Nat := do
  changeHoldings fun h => { h with prisons := h.prisons.reset }
  let reading ← openTable b .prisons
  let p ← get
  let pass := passOver .prisons reading (keepPrison b) (fun _ => false) p.holdings.prisons
  conclude b .prisons pass fun kept h => { h with prisons := kept }
  return pass.gathered.size

/-! ### Borders -/

/-- Shows a border line to a search. -/
def searchLine (line : String) : EStateM BufferFault Border.Search Unit :=
  match Record.border? line.toList with
  | some r => modify (·.push r)
  | none => pure ()

/-- Draws a border line. -/
def drawLine (plan : Border.Plan) (line : String) : Border.Drawing Unit :=
  match Record.border? line.toList with
  | some r => Border.Drawing.push plan r
  | none => pure ()

/-- What the outline is drawn from. -/
def Basis.plan (b : Basis) (reference : Nat) : Border.Plan where
  globe := b.globe
  origin := b.origin
  reach := b.config.reach
  detour := b.config.detour
  reference := reference

/-- Looks for the border polygon around the position. -/
def reference (b : Basis) : Load Nat := do
  let reading ← openTable b .countries
  let pass := passOver .countries reading searchLine (·.found.isSome) (.start b.origin)
  conclude b .countries pass fun _ h => h
  let k := pass.gathered.finish
  changeHoldings fun h => { h with reference := k }
  return k

/-- Draws the outline of the borders. -/
def outline (b : Basis) (reference : Nat) : Load Border.Summary := do
  let reading ← openTable b .countries
  let plan := b.plan reference
  let p ← get
  let pass := passOver .countries reading (drawLine plan) (fun _ => false)
    (.new p.holdings.countries)
  conclude b .countries pass fun o h => { h with countries := o.buffer }
  match Border.Drawing.finish plan pass.gathered with
  | .ok summary o =>
    changeHoldings fun h => { h with countries := o.buffer }
    return summary
  | .error fault o =>
    changeHoldings fun h => { h with countries := o.buffer }
    throw (.buffer .countries fault)

/-- Loads the borders. -/
def countries (b : Basis) : Load Border.Summary := do
  changeHoldings fun h => { h with countries := h.countries.reset }
  let k ← reference b
  outline b k

/-! ### All tables -/

/-- Loads a table if it is checked. -/
def when {α : Type} (enabled : Bool) (load : Load α) (otherwise : α) : Load α :=
  if enabled then load else pure otherwise

/-- Loads the borders and adds what was counted to a report. -/
def reportCountries (b : Basis) (r : LoadReport) : Load LoadReport := do
  let borders ← countries b
  let p ← get
  return { r with
    reference := p.holdings.reference
    borders := borders
    vertices := p.holdings.countries.size }

/-- Loads every table that is checked. -/
def all (b : Basis) : Load LoadReport := do
  let airports ← when b.config.airportEnabled (airports b) 0
  let report := { LoadReport.zero with airports := airports }
  let report ← when b.config.countryEnabled (reportCountries b report) report
  let prisons ← when b.config.prisonEnabled (prisons b) 0
  return { report with prisons := prisons }

end Load

end Airspace

import Airspace.Airport

/-! # Configuration

  What the guard checks, how far it keeps away from what, and how much it loads. A
  category that is bypassed is neither loaded nor checked.
-/

namespace Airspace

/-- The categories that are not checked. -/
structure Bypass where
  /-- Airports. -/
  airport : Bool
  /-- Countries. -/
  country : Bool
  /-- Prisons. -/
  prison : Bool
deriving DecidableEq

/-- Nothing is bypassed. -/
def Bypass.none : Bypass := ⟨false, false, false⟩

/-- Everything is bypassed. -/
def Bypass.all : Bypass := ⟨true, true, true⟩

/-- The distances to keep, in kilometres. -/
structure Clearances where
  /-- From large airports. -/
  largeAirport : Float
  /-- From medium airports. -/
  mediumAirport : Float
  /-- From small airports. -/
  smallAirport : Float
  /-- From heliports. -/
  heliport : Float
  /-- From seaplane bases. -/
  seaplaneBase : Float
  /-- From balloon bases. -/
  balloonBase : Float
  /-- From test fields. -/
  testField : Float
  /-- From prisons. -/
  prison : Float
  /-- Replaces the distance from every airport, unless it is zero. -/
  airportOverride : Option Float

namespace Clearances

/-- The distances that hold where nothing else is said. -/
def standard : Clearances where
  largeAirport := 8.0
  mediumAirport := 5.0
  smallAirport := 3.0
  heliport := 1.0
  seaplaneBase := 2.0
  balloonBase := 1.0
  testField := 0.5
  prison := 1.0
  airportOverride := none

/-- The distance of a category by itself. -/
def ofCategory (c : Clearances) : AirportCategory → Float
  | .largeAirport => c.largeAirport
  | .mediumAirport => c.mediumAirport
  | .smallAirport => c.smallAirport
  | .heliport => c.heliport
  | .seaplaneBase => c.seaplaneBase
  | .balloonBase => c.balloonBase
  | .testField => c.testField

/-- The distance to keep from airports of a category. -/
def forAirport (c : Clearances) (category : AirportCategory) : Float :=
  match c.airportOverride with
  | some km => if km != 0.0 then km else c.ofCategory category
  | none => c.ofCategory category

end Clearances

/-- The configuration of a guard. -/
structure Config where
  /-- What is not checked. -/
  bypass : Bypass
  /-- Whether there is a table of prisons at all. -/
  prisonSupport : Bool
  /-- The distances to keep. -/
  clearances : Clearances
  /-- Records and border edges as far away as this, in kilometres, are not loaded. -/
  reach : Float
  /-- How far out the detours lead that close a border, in kilometres. -/
  detour : Float
  /-- The first capacity of a buffer. -/
  initialCapacity : Nat
  /-- The most records that a buffer holds. -/
  recordLimit : Nat
  /-- Milliseconds between two check-ins while tables are read. -/
  yieldInterval : Nat

namespace Config

/-- The configuration that holds where nothing else is said. -/
def standard : Config where
  bypass := .none
  prisonSupport := true
  clearances := .standard
  reach := 55.0
  detour := 200.0
  initialCapacity := 16
  recordLimit := 1024
  yieldInterval := 500

/-- Whether airports are checked. -/
def airportEnabled (c : Config) : Bool := !c.bypass.airport

/-- Whether countries are checked. -/
def countryEnabled (c : Config) : Bool := !c.bypass.country

/-- Whether prisons are checked. -/
def prisonEnabled (c : Config) : Bool := c.prisonSupport && !c.bypass.prison

/-- Whether nothing is left to check. -/
def everythingBypassed (c : Config) : Bool :=
  !c.airportEnabled && !c.countryEnabled && !c.prisonEnabled

end Config

/-- How the service presents itself and where it finds its tables. -/
structure ServiceSettings where
  /-- The name in logs and metrics. -/
  serviceName : String
  /-- How much is logged. -/
  logLevel : String
  /-- The directory with the tables. -/
  dataDir : String
  /-- Where metrics are offered, if anywhere. -/
  metricsAddr : Option String

end Airspace

import Airspace.Config
import Airspace.Number.Decimal

/-! # Settings from the environment

  Every setting has a variable. A variable that is not set or not well-formed text
  leaves the standard setting, and so does one that cannot be read as what it
  should be. Blanks around a number or a truth value do not matter.
-/

namespace Airspace

/-- The variables that are set, with their bytes. -/
structure Environment where
  /-- Names and values. -/
  entries : List (String × List UInt8)

namespace Environment

/-- The names of all variables that are looked at. -/
def names : List String :=
  ["RID_SERVICE_NAME", "RID_LOG_LEVEL", "RID_DATA_DIR", "RID_METRICS_ADDR",
    "RID_BYPASS_AIRPORT", "RID_BYPASS_COUNTRY", "RID_BYPASS_PRISON", "RID_PRISON_SUPPORT",
    "RID_MIN_LARGE_AIRPORT_KM", "RID_MIN_MEDIUM_AIRPORT_KM", "RID_MIN_SMALL_AIRPORT_KM",
    "RID_MIN_HELIPORT_KM", "RID_MIN_SEAPLANE_BASE_KM", "RID_MIN_BALLOON_BASE_KM",
    "RID_MIN_TEST_FIELD_KM", "RID_MIN_PRISON_KM", "RID_AIRPORT_OVERRIDE_KM",
    "RID_MAX_DRONE_DISTANCE_KM", "RID_CLOSING_LINE_KM", "RID_STORE_INITIAL_CAPACITY",
    "RID_STORE_MAX_CAPACITY", "RID_YIELD_INTERVAL_MS"]

/-- The text of a variable, if it is set and well formed. -/
def get? (env : Environment) (name : String) : Option String :=
  (env.entries.find? fun v => v.1 == name).bind fun v => String.fromUTF8? ⟨v.2.toArray⟩

/-- A text. -/
def text (env : Environment) (name standard : String) : String :=
  (env.get? name).getD standard

/-- A double, if the variable spells one. -/
def float? (env : Environment) (name : String) : Option Float :=
  (env.get? name).bind fun s => Number.readFloat? (Text.trim s.toList)

/-- A double. -/
def float (env : Environment) (name : String) (standard : Float) : Float :=
  (env.float? name).getD standard

/-- A natural number of at most 64 bits. -/
def nat (env : Environment) (name : String) (standard : Nat) : Nat :=
  ((env.get? name).bind fun s => Number.readNat? Number.wordBound (Text.trim s.toList)).getD standard

/-- The truth value that a word stands for, in any case. -/
def truth? (cs : List Char) : Option Bool :=
  let word := String.ofList ((Text.trim cs).map Char.toLower)
  if ["1", "true", "yes", "on"].contains word then some true
  else if ["0", "false", "no", "off"].contains word then some false
  else none

/-- A truth value. -/
def truth (env : Environment) (name : String) (standard : Bool) : Bool :=
  ((env.get? name).bind fun s => truth? s.toList).getD standard

end Environment

/-- The bypassed categories. -/
def Bypass.ofEnvironment (env : Environment) : Bypass where
  airport := env.truth "RID_BYPASS_AIRPORT" Bypass.none.airport
  country := env.truth "RID_BYPASS_COUNTRY" Bypass.none.country
  prison := env.truth "RID_BYPASS_PRISON" Bypass.none.prison

/-- The distances to keep. -/
def Clearances.ofEnvironment (env : Environment) : Clearances where
  largeAirport := env.float "RID_MIN_LARGE_AIRPORT_KM" standard.largeAirport
  mediumAirport := env.float "RID_MIN_MEDIUM_AIRPORT_KM" standard.mediumAirport
  smallAirport := env.float "RID_MIN_SMALL_AIRPORT_KM" standard.smallAirport
  heliport := env.float "RID_MIN_HELIPORT_KM" standard.heliport
  seaplaneBase := env.float "RID_MIN_SEAPLANE_BASE_KM" standard.seaplaneBase
  balloonBase := env.float "RID_MIN_BALLOON_BASE_KM" standard.balloonBase
  testField := env.float "RID_MIN_TEST_FIELD_KM" standard.testField
  prison := env.float "RID_MIN_PRISON_KM" standard.prison
  airportOverride := env.float? "RID_AIRPORT_OVERRIDE_KM"

/-- The configuration of a guard. -/
def Config.ofEnvironment (env : Environment) : Config where
  bypass := .ofEnvironment env
  prisonSupport := env.truth "RID_PRISON_SUPPORT" standard.prisonSupport
  clearances := .ofEnvironment env
  reach := env.float "RID_MAX_DRONE_DISTANCE_KM" standard.reach
  detour := env.float "RID_CLOSING_LINE_KM" standard.detour
  initialCapacity := env.nat "RID_STORE_INITIAL_CAPACITY" standard.initialCapacity
  recordLimit := env.nat "RID_STORE_MAX_CAPACITY" standard.recordLimit
  yieldInterval := env.nat "RID_YIELD_INTERVAL_MS" standard.yieldInterval

/-- The settings of the service called `name` where nothing else is said. -/
def ServiceSettings.ofEnvironment (env : Environment) (name : String) : ServiceSettings where
  serviceName := env.text "RID_SERVICE_NAME" name
  logLevel := env.text "RID_LOG_LEVEL" "info"
  dataDir := env.text "RID_DATA_DIR" "/var/lib/rid"
  metricsAddr := env.get? "RID_METRICS_ADDR"

end Airspace

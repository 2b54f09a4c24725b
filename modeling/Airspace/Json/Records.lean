import Airspace.Config
import Airspace.Json.Shape
import Airspace.Table
import Airspace.Verdict

/-! # Records in JSON

  The readers of the records and settings that are exchanged as JSON. A field that
  is an `Option` may be missing; every other one has to be there. Numbers become doubles
  in a way of rounding that is said.
-/

namespace Airspace

open Json (fields? required possible named? bool? float? nat? string?)

/-- Reads a place. -/
def Point.ofJson? (rounding : JsonNumber.Rounding) (j : Json) : Option Position := do
  let [lat, lon] ← fields? ["latitude", "longitude"] 0 j | none
  return ⟨← required (float? rounding) lat, ← required (float? rounding) lon⟩

/-- Reads an airport category by its name. -/
def AirportCategory.ofJson? : Json → Option AirportCategory := named? name all

/-- Reads an airport. -/
def Airport.ofJson? (rounding : JsonNumber.Rounding) (j : Json) : Option Airport := do
  let [category, position] ← fields? ["category", "position"] 0 j | none
  return ⟨← required AirportCategory.ofJson? category, ← required (Point.ofJson? rounding) position⟩

/-- Reads a table by its name. -/
def Table.ofJson? : Json → Option Table := named? name all

/-- Reads a reason by its name. -/
def Reason.ofJson? : Json → Option Reason := named? name all

/-- Reads a verdict. Its detail is taken as it is. -/
def Verdict.ofJson? (j : Json) : Option Verdict := do
  let [allowed, reason, detail] ← fields? ["allowed", "reason", "detail"] 0 j | none
  return ⟨← required bool? allowed, ← required Reason.ofJson? reason, ← required string? detail⟩

/-- Reads the bypassed categories. -/
def Bypass.ofJson? (j : Json) : Option Bypass := do
  let [airport, country, prison] ← fields? ["airport", "country", "prison"] 0 j | none
  return ⟨← required bool? airport, ← required bool? country, ← required bool? prison⟩

/-- Reads the distances to keep. -/
def Clearances.ofJson? (rounding : JsonNumber.Rounding) (j : Json) : Option Clearances := do
  let names := ["large_airport_km", "medium_airport_km", "small_airport_km", "heliport_km",
    "seaplane_base_km", "balloon_base_km", "test_field_km", "prison_km", "airport_override_km"]
  let [large, medium, small, heliport, seaplane, balloon, test, prison, override] ←
    fields? names 0 j | none
  return {
    largeAirport := ← required (float? rounding) large
    mediumAirport := ← required (float? rounding) medium
    smallAirport := ← required (float? rounding) small
    heliport := ← required (float? rounding) heliport
    seaplaneBase := ← required (float? rounding) seaplane
    balloonBase := ← required (float? rounding) balloon
    testField := ← required (float? rounding) test
    prison := ← required (float? rounding) prison
    airportOverride := ← possible (float? rounding) override }

/-- Reads the configuration of a guard. -/
def Config.ofJson? (rounding : JsonNumber.Rounding) (j : Json) : Option Config := do
  let names := ["bypass", "prison_support", "clearances", "max_drone_distance_km",
    "closing_line_km", "store_initial_capacity", "store_max_capacity", "yield_interval_ms"]
  let [bypass, support, clearances, reach, detour, initial, limit, interval] ←
    fields? names 0 j | none
  return {
    bypass := ← required Bypass.ofJson? bypass
    prisonSupport := ← required bool? support
    clearances := ← required (Clearances.ofJson? rounding) clearances
    reach := ← required (float? rounding) reach
    detour := ← required (float? rounding) detour
    initialCapacity := ← required (nat? Number.wordBound) initial
    recordLimit := ← required (nat? Number.wordBound) limit
    yieldInterval := ← required (nat? Number.wordBound) interval }

/-- Reads the settings of the service. -/
def ServiceSettings.ofJson? (j : Json) : Option ServiceSettings := do
  let [name, level, dir, addr] ←
    fields? ["service_name", "log_level", "data_dir", "metrics_addr"] 0 j | none
  return {
    serviceName := ← required string? name
    logLevel := ← required string? level
    dataDir := ← required string? dir
    metricsAddr := ← possible string? addr }

end Airspace

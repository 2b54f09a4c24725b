import Airspace.Json.Records
import Airspace.Text.Blank
import Airspace.Volume

/-! # Position reports

  The input of the service: one report a line, in JSON. A report gives the position
  and says whether the tables may be loaded now. Blank lines and lines that are no
  report are passed over; a line that is not well-formed text ends the input.
-/

namespace Airspace

/-- The latest position. -/
structure PositionReport where
  /-- Where the vehicle is. -/
  position : Position
  /-- Whether the tables may be loaded now. -/
  ready : Bool

namespace PositionReport

/-- Reads a report; `ready` may be left out. -/
def ofJson? (rounding : JsonNumber.Rounding) (j : Json) : Option PositionReport := do
  let [lat, lon, ready] ← Json.fields? ["lat", "lon", "ready"] 1 j | none
  let lat ← Json.required (Json.float? rounding) lat
  let lon ← Json.required (Json.float? rounding) lon
  let ready ← match ready with
    | none => some false
    | some j => Json.bool? j
  return ⟨⟨lat, lon⟩, ready⟩

/-- Reads a report from its text. -/
def ofText? (rounding : JsonNumber.Rounding) (cs : List Char) : Option PositionReport :=
  (Json.read? cs).bind (ofJson? rounding)

/-! ### Reports on lines -/

/-- What is made of the text of a line: a report, or nothing. -/
abbrev Parser := List Char → Option PositionReport

/-- The report on a line of the input, if there is one. -/
def ofLine? (parse : Parser) (line : String) : Option PositionReport :=
  if Text.allBlank line.toList then none else parse line.toList

/-- The reports of an input. -/
def ofInput (parse : Parser) (input : Reading) : List PositionReport :=
  input.lines.filterMap (ofLine? parse)

end PositionReport

end Airspace

import Airspace.Number.Fixed
import Airspace.Plane.Point

/-! # Positions in messages

  On the wire a position is a pair of integers in units of 10^(-7) degrees, and in
  messages it is written with as many places.
-/

namespace Airspace.Position

/-- The position of a pair in units of 10^(-7) degrees. -/
def ofE7 (lat lon : Int) : Position := ⟨Float.ofInt lat * 1.0e-7, Float.ofInt lon * 1.0e-7⟩

/-- Degrees have seven places in messages. -/
def degreeFormat : Number.FixedFormat := ⟨7, "NaN"⟩

/-- A position in messages. -/
def text (p : Position) : String :=
  degreeFormat.write p.lat ++ "," ++ degreeFormat.write p.lon

end Airspace.Position

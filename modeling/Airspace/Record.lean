import Airspace.Airport
import Airspace.Number.Decimal
import Airspace.Text.Field

/-! # Records in lines

  A border line is a delimiter, which begins with a number sign, or a vertex. A
  vertex, like a prison, is a latitude and a longitude; an airport has the index of
  its category before them. Lines are lenient: a line without the commas it needs,
  or with a category that does not exist, stands for the reserved point, and a
  number that cannot be read is zero.
-/

namespace Airspace

/-- One record of the border table. -/
inductive BorderRecord
  /-- Ends the polygon in progress. -/
  | delimiter
  /-- The next vertex of a polygon. -/
  | vertex (p : Position)

namespace Record

/-- A number of degrees, with blanks around it at will; zero if it cannot be read. -/
def degrees (cs : List Char) : Float :=
  (Number.readFloat? (Text.trim cs)).getD 0.0

/-- A latitude and a longitude. -/
def position (cs : List Char) : Position :=
  match Text.splitComma? (Text.trim cs) with
  | none => .null
  | some (lat, lon) => ⟨degrees lat, degrees lon⟩

/-- A category index, a latitude and a longitude. -/
def airport (cs : List Char) : Airport :=
  match Text.splitComma? (Text.trim cs) with
  | none => .null
  | some (category, rest) =>
    match Text.splitComma? rest with
    | none => .null
    | some (lat, lon) =>
      match AirportCategory.ofText? category with
      | none => .null
      | some c => ⟨c, ⟨degrees lat, degrees lon⟩⟩

/-- A border record; a blank line is none. -/
def border? (cs : List Char) : Option BorderRecord :=
  match Text.trim cs with
  | [] => none
  | '#' :: _ => some .delimiter
  | line => some (.vertex (position line))

/-- A prison; a blank line is none. -/
def prison? (cs : List Char) : Option Position :=
  if Text.allBlank cs then none else some (position cs)

/-- An airport; a blank line is none. -/
def airport? (cs : List Char) : Option Airport :=
  if Text.allBlank cs then none else some (airport cs)

end Record

end Airspace

import Airspace.Number.Natural
import Airspace.Plane.Point
import Airspace.Text.Blank

/-! # Airports

  An airport is a place with a category. Tables name the category by its index.
-/

namespace Airspace

/-- What kind of airfield an airport is. -/
inductive AirportCategory
  | largeAirport
  | mediumAirport
  | smallAirport
  | heliport
  | seaplaneBase
  | balloonBase
  | testField
deriving DecidableEq

namespace AirportCategory

/-- The categories in the order of their indices. -/
def all : List AirportCategory :=
  [largeAirport, mediumAirport, smallAirport, heliport, seaplaneBase, balloonBase, testField]

/-- The index that tables use. -/
def index : AirportCategory → Nat
  | largeAirport => 0
  | mediumAirport => 1
  | smallAirport => 2
  | heliport => 3
  | seaplaneBase => 4
  | balloonBase => 5
  | testField => 6

/-- The category with an index. -/
def ofIndex? (n : Nat) : Option AirportCategory := all[n]?

/-- Reads an index, with blanks around it at will. The number has to fit into a byte
    before it is looked up. -/
def ofText? (cs : List Char) : Option AirportCategory :=
  (Number.readNat? 256 (Text.trim cs)).bind ofIndex?

/-- The name in configuration and records. -/
def name : AirportCategory → String
  | largeAirport => "large_airport"
  | mediumAirport => "medium_airport"
  | smallAirport => "small_airport"
  | heliport => "heliport"
  | seaplaneBase => "seaplane_base"
  | balloonBase => "balloon_base"
  | testField => "test_field"

end AirportCategory

/-- One record of the airport table. -/
structure Airport where
  /-- Decides the clearance. -/
  category : AirportCategory
  /-- Where it is. -/
  position : Position

/-- What a line that names no airport stands for. -/
def Airport.null : Airport := ⟨.largeAirport, .null⟩

end Airspace

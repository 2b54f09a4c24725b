import Airspace.Config
import Airspace.Sphere

/-! # Places that are too near

  A place is too near if the distance to it is below the clearance to keep from it.
  Of several such places the first one listed counts.
-/

namespace Airspace

/-- Whether an airport is nearer to `origin` than the clearance of its category. -/
def Airport.tooNear (globe : Globe) (clearances : Clearances) (origin : Position) (a : Airport) :
    Bool :=
  decide (globe.distance origin a.position < clearances.forAirport a.category)

/-- The first airport that is too near. -/
def nearAirport? (globe : Globe) (clearances : Clearances) (origin : Position)
    (airports : List Airport) : Option Airport :=
  airports.find? (Airport.tooNear globe clearances origin)

/-- The first prison that is nearer to `origin` than `km`. -/
def nearPrison? (globe : Globe) (km : Float) (origin : Position) (prisons : List Position) :
    Option Position :=
  prisons.find? fun p => decide (globe.distance origin p < km)

end Airspace

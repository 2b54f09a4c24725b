/-! # Points in degrees

  A point has a latitude and a longitude. The planar tests treat the two as
  coordinates of a flat plane, and are stated over any arithmetic, so that they
  can be read over doubles, as they run, and over exact fractions.

  The point with both components zero is reserved: it stands for "no position"
  and separates the rings of a region, and no table lists it as a real place.
-/

namespace Airspace

/-- A place in decimal degrees. -/
structure Point (α : Type) where
  /-- Degrees north. -/
  lat : α
  /-- Degrees east. -/
  lon : α

/-- A point in doubles. -/
abbrev Position := Point Float

namespace Point

variable {α : Type}

/-- Points are compared component by component, as the arithmetic compares them:
    over doubles the two zeros are equal and not-a-number differs from itself. -/
instance [BEq α] : BEq (Point α) where
  beq a b := a.lat == b.lat && a.lon == b.lon

/-- The reserved point. -/
def null [OfNat α 0] : Point α := ⟨0, 0⟩

/-- Whether a point is the reserved one. -/
def isNull [OfNat α 0] [BEq α] (p : Point α) : Bool := p.lat == 0 && p.lon == 0

end Point

end Airspace

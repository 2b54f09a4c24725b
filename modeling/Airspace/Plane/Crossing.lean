import Airspace.Plane.Point

/-! # Crossings of a ray and an edge

  From a point a ray runs towards larger latitudes along its own longitude. An
  edge covers the longitudes above its lower end and up to its upper end, the
  upper one included; so where two edges meet at a vertex, the ray through that
  vertex meets exactly one of two edges that go on in the same direction, and
  both or none of two that turn back. An edge along the ray covers nothing.
-/

namespace Airspace

variable {α : Type}

/-- The smaller of two numbers; beside not-a-number, the other one. -/
def least [LT α] [DecidableLT α] [BEq α] (a b : α) : α :=
  if a < b then a else if b == b then b else a

/-- The larger of two numbers; beside not-a-number, the other one. -/
def greatest [LT α] [DecidableLT α] [BEq α] (a b : α) : α :=
  if b < a then a else if b == b then b else a

namespace Point

/-- Where the line through `a` and `b` has the longitude of `p`. -/
def latitudeOn [Add α] [Sub α] [Mul α] [Div α] (p a b : Point α) : α :=
  (p.lon - a.lon) * (b.lat - a.lat) / (b.lon - a.lon) + a.lat

/-- Whether the ray from `p` meets the edge from `a` to `b`. -/
def meets [Add α] [Sub α] [Mul α] [Div α] [BEq α] [LT α] [DecidableLT α] [LE α] [DecidableLE α]
    (p a b : Point α) : Bool :=
  decide (least a.lon b.lon < p.lon) && decide (p.lon ≤ greatest a.lon b.lon)
    && decide (p.lat ≤ greatest a.lat b.lat) && a.lon != b.lon
    && (a.lat == b.lat || decide (p.lat ≤ latitudeOn p a b))

end Point

end Airspace

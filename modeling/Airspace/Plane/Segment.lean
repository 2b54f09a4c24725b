import Airspace.Plane.Point

/-! # The nearest point of a segment

  The foot of the perpendicular from a point, kept within the segment, with
  degrees of latitude and longitude taken as equal lengths. A segment of almost no
  length is its first end.
-/

namespace Airspace

variable {α : Type}

/-- The number kept within `[0, 1]`; not-a-number stays as it is. -/
def clampUnit [OfNat α 0] [OfNat α 1] [LT α] [DecidableLT α] (t : α) : α :=
  if t < 0 then 0 else if 1 < t then 1 else t

namespace Point

/-- The squared length of the segment from `a` to `b`, in degrees. -/
def squaredLength [Add α] [Sub α] [Mul α] (a b : Point α) : α :=
  (b.lat - a.lat) * (b.lat - a.lat) + (b.lon - a.lon) * (b.lon - a.lon)

/-- Where the perpendicular from `p` meets the line from `a` to `b`: 0 stands for
    `a` and 1 for `b`. -/
def footRatio [Add α] [Sub α] [Mul α] [Div α] (p a b : Point α) : α :=
  ((p.lat - a.lat) * (b.lat - a.lat) + (p.lon - a.lon) * (b.lon - a.lon)) / squaredLength a b

/-- The point at the ratio `t` between `a` and `b`. -/
def between [Add α] [Sub α] [Mul α] (a b : Point α) (t : α) : Point α :=
  ⟨a.lat + t * (b.lat - a.lat), a.lon + t * (b.lon - a.lon)⟩

/-- The point of the segment from `a` to `b` that is nearest to `p`. -/
def nearestOn [OfNat α 0] [OfNat α 1] [OfScientific α] [Add α] [Sub α] [Mul α] [Div α] [LT α]
    [DecidableLT α] (p a b : Point α) : Point α :=
  if squaredLength a b < 1e-9 then a
  else between a b (clampUnit (footRatio p a b))

end Point

end Airspace

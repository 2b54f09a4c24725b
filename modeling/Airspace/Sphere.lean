import Airspace.Number.Binary
import Airspace.Plane.Segment

/-! # Distances and bearings on the globe

  The earth is a sphere of radius 6371 km. Distances are great-circle distances by
  the haversine formula, bearings are initial compass bearings, and a destination
  is the place reached along a great circle. What the rest of the library needs of
  the globe is collected in a `Globe`; the sphere is one.
-/

namespace Airspace

/-- The measurements that everything about distances and directions is built on. -/
structure Globe where
  /-- The distance between two places, in kilometres. -/
  distance : Position → Position → Float
  /-- The compass bearing under which the second place is seen from the first. -/
  bearing : Position → Position → Float
  /-- The place at a distance in kilometres along a bearing. -/
  destination : Position → Float → Float → Position

namespace Sphere

/-- The radius of the earth in metres. -/
def radius : Float := 6371000.0

/-- The ratio of a circle's circumference to its diameter. -/
def pi : Float := 3.14159265358979323846

/-- Degrees to radians. -/
def radians (x : Float) : Float := x * (pi / 180.0)

/-- Radians to degrees. -/
def degrees (x : Float) : Float := x * (180.0 / pi)

/-- The square. -/
def square (x : Float) : Float := x * x

/-- The great-circle distance in kilometres. -/
def distance (a b : Position) : Float :=
  let halfLat := radians (b.lat - a.lat) / 2.0
  let halfLon := radians (b.lon - a.lon) / 2.0
  let h := square halfLat.sin
    + (radians a.lat).cos * (radians b.lat).cos * square halfLon.sin
  (radius * (2.0 * h.sqrt.asin) / 1000.0).abs

/-- The initial bearing from `a` to `b` in degrees, in `[0, 360)`. -/
def bearing (a b : Position) : Float :=
  let lat₁ := radians a.lat
  let lat₂ := radians b.lat
  let dLon := radians b.lon - radians a.lon
  let s := lat₂.cos * dLon.sin
  let c := lat₁.cos * lat₂.sin - lat₁.sin * lat₂.cos * dLon.cos
  let turned := Number.remainder (degrees (Float.atan2 s c) + 360.0) 360.0
  let deg := Number.residue turned 360.0
  if 360.0 ≤ deg then 0.0 else deg

/-- A degree value rounded to seven places, so that places reached along different
    ways compare as equal. -/
def roundDegrees (x : Float) : Float := (x * 1e7).round / 1e7

/-- The place reached from `a` by `km` kilometres along a bearing. A negative
    distance leads the opposite way. -/
def destination (a : Position) (km deg : Float) : Position :=
  let backward := decide (km < 0.0)
  let arc := (if backward then -km else km) * 1000.0 / radius
  let course := radians (Number.residue (if backward then deg + 180.0 else deg) 360.0)
  let lat₀ := radians a.lat
  let lon₀ := radians a.lon
  let lat := (lat₀.sin * arc.cos + lat₀.cos * arc.sin * course.cos).asin
  let lon := Float.atan2 (course.sin * arc.sin * lat₀.cos) (arc.cos - lat₀.sin * lat.sin) + lon₀
  ⟨roundDegrees (degrees lat),
    roundDegrees (Number.remainder (degrees lon + 540.0) 360.0 - 180.0)⟩

end Sphere

/-- The globe as a sphere. -/
def Globe.sphere : Globe where
  distance := Sphere.distance
  bearing := Sphere.bearing
  destination := Sphere.destination

/-- The distance from `p` to the point of the segment from `a` to `b` that is
    nearest to it in degrees. -/
def Globe.distanceToSegment (g : Globe) (p a b : Position) : Float :=
  g.distance p (p.nearestOn a b)

end Airspace

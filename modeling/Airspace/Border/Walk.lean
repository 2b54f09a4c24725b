import Airspace.Plane.Run
import Airspace.Record

/-! # Walking along a border

  A stream of border records is a series of polygons. Each record means one step:
  an edge, the end of a polygon or nothing at all. Polygons are numbered from 1,
  and delimiters without a vertex between them make no polygon. A polygon may or
  may not repeat its first vertex at its end; where it does not, its end carries
  the edge that leads back.
-/

namespace Airspace.Border

/-- The polygons of a border: the runs of vertices between delimiters. -/
def polygons (border : List BorderRecord) : List (List Position) :=
  runs (border.map fun
    | .delimiter => none
    | .vertex v => some v)

/-- An edge from one vertex to another. -/
abbrev Edge := Position × Position

/-- What one record means for the polygon in progress. -/
inductive Step
  /-- Nothing. -/
  | idle
  /-- One more edge. -/
  | edge (e : Edge)
  /-- The polygon ends, with the edge back to its first vertex if its last vertex is
      another one. -/
  | closed (closing : Option Edge)

/-- How far a border has been walked. -/
structure Walk where
  /-- The number of the latest polygon. -/
  polygon : Nat
  /-- The first and the latest vertex of the polygon in progress. -/
  ends : Option (Position × Position)

namespace Walk

/-- Nothing has been walked yet. -/
def start : Walk := ⟨0, none⟩

/-- Ends the polygon in progress, if there is one. -/
def close (w : Walk) : Step × Walk :=
  match w.ends with
  | none => (.idle, w)
  | some (first, last) =>
    (.closed (if first != last then some (last, first) else none), { w with ends := none })

/-- Takes one more record. -/
def advance (w : Walk) : BorderRecord → Step × Walk
  | .delimiter => w.close
  | .vertex v =>
    match w.ends with
    | none => (.idle, ⟨w.polygon + 1, some (v, v)⟩)
    | some (first, last) => (.edge (last, v), { w with ends := some (first, v) })

end Walk

end Airspace.Border

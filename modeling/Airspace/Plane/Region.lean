import Airspace.Plane.Ring
import Airspace.Plane.Run

/-! # Regions

  A region is a list of vertices that holds several rings, one after the other,
  with the reserved point between them. One pass over neighbouring vertices tests
  all rings together: it remembers where the ring in progress began and closes it
  at the next separator or at the end of the list.
-/

namespace Airspace.Region

variable {α : Type} [OfNat α 0] [Add α] [Sub α] [Mul α] [Div α] [BEq α] [LT α] [DecidableLT α]
  [LE α] [DecidableLE α]

/-- The rings of a region: the runs of vertices between separators. -/
def rings (vs : List (Point α)) : List (List (Point α)) :=
  runs (vs.map fun v => if v.isNull then none else some v)

/-- One hit or none. -/
def hit (p a b : Point α) : Nat := if p.meets a b then 1 else 0

/-- The hit of the edge that leads from `last` back to the beginning of the ring in
    progress, if one is in progress. -/
def closingHit (p last : Point α) : Option (Point α) → Nat
  | some first => hit p last first
  | none => 0

/-- The hits over a list of vertices, `first` being the beginning of the ring in
    progress. A ring begins when its first edge is met. -/
def sweep (p : Point α) : Option (Point α) → List (Point α) → Nat
  | _, [] => 0
  | first, [last] => if last.isNull then 0 else closingHit p last first
  | first, current :: next :: rest =>
    if current.isNull then sweep p none (next :: rest)
    else if next.isNull then closingHit p current first + sweep p first (next :: rest)
    else hit p current next + sweep p (some (first.getD current)) (next :: rest)

/-- Whether `p` lies in the region from the vertex number `start` on. A list of
    fewer than three vertices holds no point. -/
def contains (vs : List (Point α)) (p : Point α) (start : Nat) : Bool :=
  if vs.length < 3 || vs.length ≤ start then false
  else sweep p none (vs.drop start) % 2 == 1

end Airspace.Region

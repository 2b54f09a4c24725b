import Airspace.Plane.Crossing

/-! # Rings

  A ring is a list of vertices read as a closed boundary: each vertex is joined to
  the next, and the last one to the first. By the even-odd rule a point lies in a
  ring if its ray meets an odd number of the ring's edges.
-/

namespace Airspace

/-- The edges of the ring through `vs`: from each vertex to the next, then from
    the last back to the first. -/
def Ring.edges {V : Type} : List V → List (V × V)
  | [] => []
  | v :: vs => (v :: vs).zip (vs ++ [v])

variable {α : Type} [Add α] [Sub α] [Mul α] [Div α] [BEq α] [LT α] [DecidableLT α] [LE α]
  [DecidableLE α]

/-- The number of edges of the ring through `vs` that the ray from `p` meets. -/
def Ring.hits (p : Point α) (vs : List (Point α)) : Nat :=
  (Ring.edges vs).countP fun e => p.meets e.1 e.2

/-- Whether `p` lies in the ring through `vs`. -/
def Ring.contains (vs : List (Point α)) (p : Point α) : Bool :=
  Ring.hits p vs % 2 == 1

end Airspace

import Airspace.Border.Walk
import Airspace.Plane.Crossing

/-! # The polygon around a position

  A search walks along an unpruned border and finds the first polygon that
  contains the position, by the parity of the edges its ray meets. Once found, the
  rest of the border changes nothing.
-/

namespace Airspace.Border

/-- A search for the polygon that contains a position. -/
structure Search where
  /-- The position. -/
  origin : Position
  /-- How far the border has been walked. -/
  walk : Walk
  /-- The parity of the hits on the polygon in progress. -/
  inside : Bool
  /-- The number of the containing polygon, once it has ended. -/
  found : Option Nat

namespace Search

/-- A search that has seen nothing yet. -/
def start (origin : Position) : Search := ⟨origin, .start, false, none⟩

/-- Counts the hit of an edge. -/
def meet (s : Search) (e : Edge) : Search :=
  { s with inside := s.inside ^^ s.origin.meets e.1 e.2 }

/-- Takes account of a step. -/
def note (s : Search) : Step → Search
  | .idle => s
  | .edge e => s.meet e
  | .closed closing =>
    let s := match closing with
      | some e => s.meet e
      | none => s
    { s with found := if s.inside then some s.walk.polygon else s.found, inside := false }

/-- Takes one more record. -/
def push (s : Search) (r : BorderRecord) : Search :=
  match s.found with
  | some _ => s
  | none =>
    let (step, walk) := s.walk.advance r
    { s with walk := walk }.note step

/-- Ends the border and gives the number of the containing polygon, or 0 if there
    is none. -/
def finish (s : Search) : Nat :=
  match s.found with
  | some k => k
  | none =>
    let (step, walk) := s.walk.close
    ({ s with walk := walk }.note step).found.getD 0

/-- The number of the first polygon of a border that contains a position, or 0. -/
def run (origin : Position) (border : List BorderRecord) : Nat :=
  (border.foldl push (start origin)).finish

end Search

end Airspace.Border

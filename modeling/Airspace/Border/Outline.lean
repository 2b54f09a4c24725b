import Airspace.Border.Walk
import Airspace.Buffer
import Airspace.Plane.Region
import Airspace.Sphere

/-! # Outlines within reach

  An outline is what is kept of a border near a position: only the edges within
  reach, in a buffer of vertices. What is kept of one polygon ends with exactly one
  separator. Where the kept arc leads back to its own beginning the separator alone
  ends it; otherwise a detour out of reach closes it first. The detour leads over a
  pivot on one side of the position, and the side is chosen so that the closed arc
  contains the position exactly if the unpruned polygon does.

  A fault leaves the outline as it was when the fault arose: an edge or a detour
  for which there is no room is left out as a whole.
-/

namespace Airspace.Border

/-- What an outline is drawn from. -/
structure Plan where
  /-- The measurements on the globe. -/
  globe : Globe
  /-- The position. -/
  origin : Position
  /-- Edges as far away as this, in kilometres, or farther are dropped. -/
  reach : Float
  /-- How far out a detour leads, in kilometres. -/
  detour : Float
  /-- The number of the polygon that contains the position, or 0. -/
  reference : Nat

/-- What has been drawn. -/
structure Summary where
  /-- Polygons of the border. -/
  seen : Nat
  /-- Polygons of which an edge was kept. -/
  retained : Nat
  /-- Kept polygons that a detour closes. -/
  closed : Nat
  /-- Detours whose pivot was moved to the other side. -/
  flipped : Nat
  /-- Moved detours that disagree with the reference nevertheless. -/
  unresolved : Nat
deriving DecidableEq

/-- Nothing has been drawn. -/
def Summary.zero : Summary := ⟨0, 0, 0, 0, 0⟩

/-- An outline in progress. -/
structure Outline where
  /-- The vertices kept so far. -/
  buffer : Buffer Position
  /-- How far the border has been walked. -/
  walk : Walk
  /-- The first and the last vertex kept of the polygon in progress. -/
  arc : Option (Position × Position)
  /-- Where the vertices of the polygon in progress begin in the buffer. -/
  start : Nat
  /-- What has been drawn so far; the polygons seen are counted at the end. -/
  summary : Summary

/-! ### Detours -/

/-- The places of a detour. -/
structure Detour where
  /-- Beyond the first vertex of the arc. -/
  beyondFirst : Position
  /-- Beyond the last vertex of the arc. -/
  beyondLast : Position
  /-- Out on the bearing of the middle between the two. -/
  pivot : Position
  /-- Out on the opposite side. -/
  opposite : Position

/-- The detour that leads from `last` back to `first`. -/
def Plan.detourFor (p : Plan) (first last : Position) : Detour :=
  let beyond (v : Position) := p.globe.destination v p.detour (p.globe.bearing p.origin v)
  let beyondFirst := beyond first
  let beyondLast := beyond last
  let middle : Position :=
    ⟨(beyondFirst.lat + beyondLast.lat) / 2.0, (beyondFirst.lon + beyondLast.lon) / 2.0⟩
  let course := p.globe.bearing p.origin middle
  { beyondFirst, beyondLast
    pivot := p.globe.destination p.origin p.detour course
    opposite := p.globe.destination p.origin (-p.detour) course }

/-- The vertices that close an arc that begins at `first`: the detour, the beginning
    again and a separator. -/
def Detour.closing (d : Detour) (first : Position) : List Position :=
  [d.beyondLast, d.pivot, d.beyondFirst, first, .null]

/-- How many vertices close an arc. -/
def closingSize : Nat := 5

/-- How far from the end of the buffer the pivot of a closed arc stands. -/
def pivotFromEnd : Nat := 4

/-! ### Edges -/

/-- Whether an edge is kept: it has two different ends and is not out of reach. -/
def Plan.keeps (p : Plan) (e : Edge) : Bool :=
  !(e.1 == e.2 || decide (p.reach ≤ p.globe.distanceToSegment p.origin e.1 e.2))

namespace Outline

/-- Nothing has been drawn; the buffer may hold vertices already. -/
def new (buffer : Buffer Position) : Outline :=
  ⟨buffer, .start, none, buffer.size, .zero⟩

/-- Whether the vertices of the polygon in progress, closed as they stand, agree with
    the reference about containing the position. -/
def agrees (p : Plan) (o : Outline) : Bool :=
  Region.contains o.buffer.toList p.origin o.start == (p.reference == o.walk.polygon)

/-- Moves the pivot of the detour just drawn to `opposite` if the closed arc disagrees
    with the reference, and counts what came of it. -/
def settle (p : Plan) (opposite : Position) (o : Outline) : Outline :=
  if o.agrees p then o
  else
    let moved := { o with buffer := o.buffer.replace (o.buffer.size - pivotFromEnd) opposite }
    let summary := { o.summary with flipped := o.summary.flipped + 1 }
    if moved.agrees p then { moved with summary := summary }
    else { moved with summary := { summary with unresolved := summary.unresolved + 1 } }

/-- Whether the kept arc ends at a vertex. -/
def endsAt (o : Outline) (v : Position) : Bool :=
  match o.arc with
  | some (_, last) => last == v
  | none => false

/-- The outline with an arc that ends with an edge. -/
def extendArc (e : Edge) (o : Outline) : Outline :=
  match o.arc with
  | some (first, _) => { o with arc := some (first, e.2) }
  | none => { o with arc := some e }

/-- Counts a polygon of which an edge was kept. -/
def countRetained (o : Outline) : Outline :=
  { o with summary := { o.summary with retained := o.summary.retained + 1 } }

/-- Counts a polygon that a detour closes. -/
def countClosed (o : Outline) : Outline :=
  { o with summary := { o.summary with closed := o.summary.closed + 1 } }

/-- The outline ready for the next polygon, whose vertices begin at the end of the
    buffer. -/
def nextPolygon (o : Outline) : Outline := { o with start := o.buffer.size }

end Outline

/-! ### Drawing -/

/-- A change of an outline that a fault may end; what was drawn before the fault
    stays. -/
abbrev Drawing := EStateM BufferFault Outline

namespace Drawing

/-- Makes room for `n` more vertices. -/
def room (n : Nat) : Drawing Unit := fun o =>
  match o.buffer.reserve n with
  | .ok buffer => .ok () { o with buffer := buffer }
  | .error fault => .error fault o

/-- Puts a vertex at the end of the buffer. -/
def append (v : Position) : Drawing Unit := fun o =>
  match o.buffer.push v with
  | .ok buffer => .ok () { o with buffer := buffer }
  | .error fault => .error fault o

/-- Puts several vertices at the end of the buffer. -/
def appendAll : List Position → Drawing Unit
  | [] => pure ()
  | v :: vs => do
    append v
    appendAll vs

/-- Takes the arc out of the outline. -/
def takeArc : Drawing (Option (Position × Position)) :=
  modifyGet fun o => (o.arc, { o with arc := none })

/-- Puts a kept edge into the buffer: its end, and its beginning before it unless the
    arc ends there already. Room is made for both in any case. -/
def keepEdge (e : Edge) : Drawing Unit := do
  room 2
  let o ← get
  appendAll (if o.endsAt e.1 then [e.2] else [e.1, e.2])
  modify (·.extendArc e)

/-- Takes an edge and keeps it if it is within reach. -/
def takeEdge (p : Plan) (e : Edge) : Drawing Unit :=
  if p.keeps e then keepEdge e else pure ()

/-- Closes the arc from `first` to `last` by a detour and a separator. -/
def closeArc (p : Plan) (first last : Position) : Drawing Unit := do
  room closingSize
  let d := p.detourFor first last
  appendAll (d.closing first)
  modify (·.settle p d.opposite)

/-- Ends what was kept of a polygon with a separator, after a detour if the arc is
    open. -/
def endArc (p : Plan) : Option (Position × Position) → Drawing Unit
  | none => pure ()
  | some (first, last) =>
    if first != last then do
      closeArc p first last
      modify fun o => o.countRetained.countClosed
    else do
      append .null
      modify (·.countRetained)

/-- Takes the closing edge of a polygon, if it has one. -/
def takeClosing (p : Plan) : Option Edge → Drawing Unit
  | none => pure ()
  | some e => takeEdge p e

/-- Ends the polygon in progress, after its closing edge if it has one. -/
def endPolygon (p : Plan) (closing : Option Edge) : Drawing Unit := do
  takeClosing p closing
  let arc ← takeArc
  endArc p arc
  modify (·.nextPolygon)

/-- Draws what a step of the walk asks for. -/
def draw (p : Plan) : Step → Drawing Unit
  | .idle => pure ()
  | .edge e => takeEdge p e
  | .closed closing => endPolygon p closing

/-- Takes one more record. -/
def push (p : Plan) (r : BorderRecord) : Drawing Unit := do
  let step ← modifyGet fun o =>
    let (step, walk) := o.walk.advance r
    (step, { o with walk := walk })
  draw p step

/-- Ends the border, and with it the polygon in progress. -/
def finish (p : Plan) : Drawing Summary := do
  let step ← modifyGet fun o =>
    let (step, walk) := o.walk.close
    (step, { o with walk := walk })
  draw p step
  let o ← get
  return { o.summary with seen := o.walk.polygon }

/-- Draws a whole border. -/
def run (p : Plan) : List BorderRecord → Drawing Summary
  | [] => finish p
  | r :: rest => do
    push p r
    run p rest

end Drawing

end Airspace.Border

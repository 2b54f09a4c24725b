import Airspace.Border.Walk
import Airspace.Proofs.Double
import Airspace.Proofs.Path

/-! # Polygons in a stream

  A walk sees a border one record at a time. Midway it stands in the polygon of which it
  has seen some vertices, and what the border comes to is decided by those vertices and
  the records that are left. The statements about whole borders are proved for a walk
  that stands anywhere, by induction on what is left.
-/

namespace Airspace.Border

/-! ### The polygons of what is left -/

/-- The polygons of a border of which a walk has seen some vertices of the polygon in
    progress and that goes on with `rest`. -/
def polygonsFrom (seen : List Position) (rest : List BorderRecord) : List (List Position) :=
  polygons (seen.map .vertex ++ rest)

/-- The number of the next polygon that will end, if the latest one that has begun is
    number `k`. -/
def nextNumber (k : Nat) (seen : List Position) : Nat := if seen = [] then k + 1 else k

theorem runs_map_some {V : Type} {vs : List V} (h : vs ≠ []) : runs (vs.map some) = [vs] := by
  match vs with
  | [] => exact absurd rfl h
  | [v] => rfl
  | v :: w :: vs =>
    have htail := runs_map_some (List.cons_ne_nil w vs)
    simp only [List.map_cons] at htail ⊢
    simp only [runs, htail]

@[simp] theorem polygonsFrom_nil (rest : List BorderRecord) :
    polygonsFrom [] rest = polygons rest := rfl

/-- The end of the border ends the polygon in progress. -/
theorem polygonsFrom_end {seen : List Position} (h : seen ≠ []) :
    polygonsFrom seen [] = [seen] := by
  unfold polygonsFrom polygons
  rw [List.append_nil, List.map_map]
  exact runs_map_some h

/-- A delimiter ends the polygon in progress. -/
theorem polygonsFrom_delimiter {seen : List Position} (h : seen ≠ []) (rest : List BorderRecord) :
    polygonsFrom seen (.delimiter :: rest) = seen :: polygons rest := by
  unfold polygonsFrom polygons
  rw [List.map_append, List.map_cons, runs_append_none, List.map_map]
  exact congrArg (· ++ _) (runs_map_some h)

/-- A vertex goes on with the polygon in progress, or begins one. -/
theorem polygonsFrom_vertex (seen : List Position) (v : Position) (rest : List BorderRecord) :
    polygonsFrom seen (.vertex v :: rest) = polygonsFrom (seen ++ [v]) rest := by
  unfold polygonsFrom
  rw [List.map_append, List.append_assoc]
  rfl

/-! ### Boundaries -/

/-- The edge from the last vertex of a polygon back to its first, if the two differ. -/
def closing? (vs : List Position) : Option Edge :=
  (endpoints vs).bind fun e => if e.1 != e.2 then some (e.2, e.1) else none

/-- The edges of a polygon: from each vertex to the next, and back to the first unless
    the last vertex repeats it. -/
def boundary (vs : List Position) : List Edge := path vs ++ (closing? vs).toList

/-- A polygon contains a position if the ray meets its boundary an odd number of times:
    an edge back to an equal vertex would not be met. -/
theorem crosses_boundary (vs : List Position) (p : Position) :
    p.crosses (boundary vs) = Ring.contains vs p := by
  rw [Ring.contains_eq_crosses, boundary, Point.crosses_append]
  rcases empty_or_endpoints vs with rfl | ⟨first, last, hends⟩
  · rfl
  · rw [Ring.edges_eq hends, Point.crosses_append, Point.crosses_singleton, closing?, hends,
      Option.bind_some]
    by_cases hsame : (first == last) = true
    · -- the ring closes with an edge between equal vertices, the boundary with none
      rw [Point.meets_of_beq (Point.beq_symm hsame)]
      simp only [bne, hsame]
      rfl
    · simp only [bne, hsame, Bool.not_false, ↓reduceIte, Option.toList_some,
        Point.crosses_singleton]

/-! ### The steps of a walk -/

namespace Walk

/-- Where a walk stands: in the polygon number `k`, of which it has seen some vertices. -/
def midway (k : Nat) (seen : List Position) : Walk := ⟨k, endpoints seen⟩

/-- Where no polygon is in progress, nothing ends. -/
theorem close_idle (k : Nat) : (midway k []).close = (.idle, midway k []) := rfl

/-- The polygon in progress ends with its closing edge. -/
theorem close_midway {k : Nat} {seen : List Position} (h : seen ≠ []) :
    (midway k seen).close = (.closed (closing? seen), midway k []) := by
  cases seen with
  | nil => exact absurd rfl h
  | cons v vs => rfl

/-- The first vertex begins a polygon. -/
theorem advance_first (k : Nat) (v : Position) :
    (midway k []).advance (.vertex v) = (.idle, midway (k + 1) [v]) := rfl

/-- Every other vertex is the end of an edge. -/
theorem advance_vertex {k : Nat} {seen : List Position} {first last : Position}
    (h : endpoints seen = some (first, last)) (v : Position) :
    (midway k seen).advance (.vertex v) = (.edge (last, v), midway k (seen ++ [v])) := by
  unfold midway
  rw [endpoints_concat h, h]
  rfl

end Walk

end Airspace.Border

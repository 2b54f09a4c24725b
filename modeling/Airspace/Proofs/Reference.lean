import Airspace.Border.Search
import Airspace.Proofs.Stream

/-! # The reference

  The search for the polygon around a position gives the number of the first polygon, in
  the order of the border, in which the position lies by the even-odd rule. It carries
  the parity of the edges walked so far, which is that of the path through the vertices
  seen; the closing edge makes it the parity of the whole boundary.
-/

namespace Airspace.Border

/-- The number of the first polygon that contains a position, counted from `n`, or 0. -/
def firstAround (origin : Position) : Nat → List (List Position) → Nat
  | _, [] => 0
  | n, vs :: rest => if Ring.contains vs origin then n else firstAround origin (n + 1) rest

namespace Search

variable {origin : Position}

/-- A search that has found nothing yet and has seen some vertices of polygon `k`. -/
def midway (origin : Position) (k : Nat) (seen : List Position) : Search where
  origin := origin
  walk := .midway k seen
  inside := origin.crosses (path seen)
  found := none

/-- A search that has found its polygon, and how it does not matter. -/
theorem foldl_push_found {s : Search} {k : Nat} (h : s.found = some k)
    (rest : List BorderRecord) : rest.foldl push s = s := by
  induction rest with
  | nil => rfl
  | cons r rest ih =>
    have hstay : s.push r = s := by
      unfold push
      rw [h]
    rw [List.foldl_cons, hstay, ih]

theorem finish_found {s : Search} {k : Nat} (h : s.found = some k) : s.finish = k := by
  unfold finish
  rw [h]

/-- A vertex takes a search on. -/
theorem push_vertex (k : Nat) (seen : List Position) (v : Position) :
    (midway origin k seen).push (.vertex v) = midway origin (nextNumber k seen) (seen ++ [v]) := by
  rcases empty_or_endpoints seen with rfl | ⟨first, last, hends⟩
  · rfl
  · have hseen : seen ≠ [] := ne_nil_of_endpoints hends
    unfold push
    simp only [midway, Walk.advance_vertex hends, note, meet, nextNumber, hseen, ↓reduceIte]
    rw [path_concat hends, Point.crosses_append, Point.crosses_singleton]

/-- The closing edge makes the parity of the path that of the boundary. -/
theorem note_closed (origin : Position) (k : Nat) (seen : List Position) :
    ({ midway origin k seen with walk := .midway k [] } : Search).note (.closed (closing? seen)) =
      { midway origin k [] with found := if Ring.contains seen origin then some k else none } := by
  have hparity : Ring.contains seen origin =
      (origin.crosses (path seen) ^^ origin.crosses (closing? seen).toList) := by
    rw [← crosses_boundary, boundary, Point.crosses_append]
  rw [hparity]
  cases closing? seen with
  | none =>
    rw [Option.toList_none, Point.crosses_nil, Bool.xor_false]
    rfl
  | some e =>
    rw [Option.toList_some, Point.crosses_singleton]
    rfl

/-- A delimiter ends the search if the polygon before it contains the position. -/
theorem push_delimiter (k : Nat) {seen : List Position} (h : seen ≠ []) :
    (midway origin k seen).push .delimiter =
      { midway origin k [] with found := if Ring.contains seen origin then some k else none } := by
  have hstep : (Walk.midway k seen).advance .delimiter = (.closed (closing? seen), .midway k []) :=
    Walk.close_midway h
  rw [← note_closed]
  unfold push
  simp only [midway, hstep]

/-- The end of the border ends the search in any case. -/
theorem finish_midway (k : Nat) {seen : List Position} (h : seen ≠ []) :
    (midway origin k seen).finish = if Ring.contains seen origin then k else 0 := by
  have hnote := note_closed origin k seen
  unfold finish
  simp only [midway, Walk.close_midway h] at hnote ⊢
  rw [hnote]
  by_cases hin : Ring.contains seen origin = true
  · rw [if_pos hin, if_pos hin, Option.getD_some]
  · rw [if_neg hin, if_neg hin, Option.getD_none]

/-- From wherever it stands, a search goes on to the first polygon around the position. -/
theorem finish_foldl_push (k : Nat) (seen : List Position) (rest : List BorderRecord) :
    (rest.foldl push (midway origin k seen)).finish =
      firstAround origin (nextNumber k seen) (polygonsFrom seen rest) := by
  induction rest generalizing k seen with
  | nil =>
    -- the border is at its end, and so is the polygon in progress
    by_cases hseen : seen = []
    · subst hseen
      rfl
    · rw [List.foldl_nil, finish_midway k hseen, polygonsFrom_end hseen, nextNumber, if_neg hseen]
      rfl
  | cons r rest ih =>
    rw [List.foldl_cons]
    cases r with
    | vertex v =>
      have hnext : nextNumber (nextNumber k seen) (seen ++ [v]) = nextNumber k seen :=
        if_neg (List.append_ne_nil_of_right_ne_nil seen (List.cons_ne_nil v []))
      rw [push_vertex, ih, polygonsFrom_vertex, hnext]
    | delimiter =>
      by_cases hseen : seen = []
      · subst hseen
        exact ih k []
      · rw [push_delimiter k hseen, polygonsFrom_delimiter hseen, nextNumber, if_neg hseen,
          firstAround]
        -- either the search is over, or it goes on with no polygon in progress
        by_cases hin : Ring.contains seen origin = true
        · rw [if_pos hin, if_pos hin, foldl_push_found rfl, finish_found rfl]
        · rw [if_neg hin, if_neg hin]
          exact ih k []

/-- A search gives the number of the first polygon around the position. -/
theorem run_eq (origin : Position) (border : List BorderRecord) :
    run origin border = firstAround origin 1 (polygons border) :=
  finish_foldl_push 0 [] border

end Search

/-! ### The first polygon around a position -/

variable {origin : Position}

/-- There is a first polygon around a position if there is one at all. -/
theorem firstAround_pos {n : Nat} (hn : 0 < n) (ps : List (List Position)) :
    0 < firstAround origin n ps ↔ ∃ vs ∈ ps, Ring.contains vs origin = true := by
  induction ps generalizing n with
  | nil => simp [firstAround]
  | cons vs ps ih =>
    rw [firstAround]
    by_cases hin : Ring.contains vs origin = true
    · rw [if_pos hin]
      exact ⟨fun _ => ⟨vs, List.mem_cons_self, hin⟩, fun _ => hn⟩
    · rw [if_neg hin, ih (Nat.succ_pos n)]
      constructor
      · rintro ⟨ws, hws, h⟩
        exact ⟨ws, List.mem_cons_of_mem _ hws, h⟩
      · rintro ⟨ws, hws, h⟩
        rcases List.mem_cons.mp hws with rfl | hws
        · exact absurd h hin
        · exact ⟨ws, hws, h⟩

/-- The first polygon around a position is none of the polygons before it. -/
theorem firstAround_ge {n : Nat} {ps : List (List Position)}
    (h : 0 < firstAround origin n ps) : n ≤ firstAround origin n ps := by
  induction ps generalizing n with
  | nil => exact absurd h (Nat.lt_irrefl 0)
  | cons vs ps ih =>
    rw [firstAround] at h ⊢
    by_cases hin : Ring.contains vs origin = true
    · exact Nat.le_of_eq (if_pos hin).symm
    · rw [if_neg hin] at h ⊢
      have hlater := ih h
      omega

/-- The polygon with the number of the first one contains the position. -/
theorem contains_of_firstAround {n k : Nat} {vs : List Position} {ps : List (List Position)}
    (hn : 0 < n) (hmem : (vs, k) ∈ ps.zipIdx n) (h : firstAround origin n ps = k) :
    Ring.contains vs origin = true := by
  induction ps generalizing n with
  | nil => cases hmem
  | cons ws ps ih =>
    have hk : n ≤ k := (List.mem_zipIdx hmem).1
    rw [List.zipIdx_cons] at hmem
    rw [firstAround] at h
    by_cases hin : Ring.contains ws origin = true
    · rw [if_pos hin] at h
      rcases List.mem_cons.mp hmem with heq | hlater
      · obtain ⟨rfl, -⟩ := Prod.mk.inj heq
        exact hin
      · have hlt : n + 1 ≤ k := (List.mem_zipIdx hlater).1
        omega
    · rw [if_neg hin] at h
      rcases List.mem_cons.mp hmem with heq | hlater
      · obtain ⟨-, rfl⟩ := Prod.mk.inj heq
        have hge : k + 1 ≤ firstAround origin (k + 1) ps := firstAround_ge (by omega)
        omega
      · exact ih (Nat.succ_pos n) hlater h

/-- If at most one polygon contains the position, it is the one with the number of the
    first. -/
theorem firstAround_eq_iff {n k : Nat} {vs : List Position} {ps : List (List Position)}
    (hn : 0 < n) (hone : ps.countP (Ring.contains · origin) ≤ 1)
    (hmem : (vs, k) ∈ ps.zipIdx n) :
    firstAround origin n ps = k ↔ Ring.contains vs origin = true := by
  refine ⟨contains_of_firstAround hn hmem, fun hvs => ?_⟩
  induction ps generalizing n with
  | nil => cases hmem
  | cons ws ps ih =>
    rw [List.zipIdx_cons] at hmem
    rw [List.countP_cons] at hone
    rw [firstAround]
    by_cases hin : Ring.contains ws origin = true
    · rw [if_pos hin] at hone ⊢
      rcases List.mem_cons.mp hmem with heq | hlater
      · exact (Prod.mk.inj heq).2.symm
      · -- a later one would be the second polygon around the position
        have hzero : ps.countP (Ring.contains · origin) = 0 := by omega
        have hout := List.countP_eq_zero.mp hzero vs (List.fst_mem_of_mem_zipIdx hlater)
        exact absurd hvs hout
    · rw [if_neg hin] at hone ⊢
      rcases List.mem_cons.mp hmem with heq | hlater
      · obtain ⟨rfl, -⟩ := Prod.mk.inj heq
        exact absurd hvs hin
      · exact ih (Nat.succ_pos n) hone hlater

end Airspace.Border

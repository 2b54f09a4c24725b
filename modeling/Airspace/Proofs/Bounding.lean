import Airspace.Proofs.Boundary
import Mathlib.Algebra.BigOperators.Ring.List

/-! # Frames

  In exact fractions a region contains no point outside the frames of its rings, the frame of a
  ring being the box that its vertices span. Three sides of the frame are read off any edge that
  the ray meets: it covers the longitude of the point, and it is not all before the point. The
  fourth side takes the whole ring. From a point before all of its vertices the ray does meet
  edges, but only those whose ends lie on different sides of the ray, and a way around changes
  sides an even number of times.
-/

namespace Airspace

variable {p : Point ℚ}

/-! ### A way around -/

/-- A path that is met where its vertices change sides is met an odd number of times exactly if
    its ends lie on different sides. -/
theorem Point.crosses_of_changes (side : Point ℚ → Bool) (v : Point ℚ) (vs : List (Point ℚ))
    (w : Point ℚ)
    (h : ∀ e ∈ path (v :: vs ++ [w]), p.meets e.1 e.2 = (side e.1 ^^ side e.2)) :
    p.crosses (path (v :: vs ++ [w])) = (side v ^^ side w) := by
  -- the first vertex moves on, and the side of each vertex passed cancels out
  induction vs generalizing v with
  | nil => exact (crosses_singleton p (v, w)).trans (h (v, w) List.mem_cons_self)
  | cons u vs ih =>
    have hpath : path (v :: u :: vs ++ [w]) = (v, u) :: path (u :: vs ++ [w]) := rfl
    rw [hpath] at h
    have hfirst := h (v, u) List.mem_cons_self
    have hrest := ih u fun e he => h e (List.mem_cons_of_mem _ he)
    rw [hpath, crosses_cons, hfirst, hrest, Bool.xor_assoc, ← Bool.xor_assoc (side u),
      Bool.xor_self, Bool.false_xor]

namespace Ring

variable {vs : List (Point ℚ)}

/-- The edges of a ring lead between its vertices. -/
theorem mem_of_mem_edges {e : Point ℚ × Point ℚ} (h : e ∈ edges vs) : e.1 ∈ vs ∧ e.2 ∈ vs := by
  cases vs with
  | nil => cases h
  | cons v vs =>
    rw [edges_cons] at h
    have hback : ∀ w, w ∈ v :: vs ++ [v] → w ∈ v :: vs := by
      intro w hw
      rcases List.mem_append.mp hw with hw | hw
      · exact hw
      · exact List.mem_singleton.mp hw ▸ List.mem_cons_self
    exact (mem_of_mem_path h).imp (hback e.1) (hback e.2)

/-- A ring does not contain a point before all of its vertices. -/
theorem not_contains_of_before (h : ∀ v ∈ vs, p.lat ≤ v.lat) : contains vs p = false := by
  cases vs with
  | nil => rfl
  | cons v vs =>
    have hchanges : ∀ e ∈ path (v :: vs ++ [v]),
        p.meets e.1 e.2 = (decide (e.1.lon < p.lon) ^^ decide (e.2.lon < p.lon)) := by
      intro e he
      rw [← edges_cons] at he
      obtain ⟨hfrom, hto⟩ := mem_of_mem_edges he
      exact Point.meets_of_before (h e.1 hfrom) (h e.2 hto)
    rw [contains_cons, Point.crosses_of_changes (fun w => decide (w.lon < p.lon)) v vs v hchanges,
      Bool.xor_self]

/-! ### Frames of rings -/

/-- Whether a point lies in the frame of a ring: between the least and the greatest latitude and
    longitude of its vertices, the greatest ones included. -/
def Frames (vs : List (Point ℚ)) (p : Point ℚ) : Prop :=
  ((∃ v ∈ vs, v.lat < p.lat) ∧ ∃ v ∈ vs, p.lat ≤ v.lat) ∧
    (∃ v ∈ vs, v.lon < p.lon) ∧ ∃ v ∈ vs, p.lon ≤ v.lon

instance (vs : List (Point ℚ)) (p : Point ℚ) : Decidable (Frames vs p) :=
  inferInstanceAs (Decidable (_ ∧ _))

theorem frames_of_contains (h : contains vs p = true) : Frames vs p := by
  have hbefore : ∃ v ∈ vs, v.lat < p.lat := by
    by_contra hnone
    have hall : ∀ v ∈ vs, p.lat ≤ v.lat := fun v hv =>
      not_lt.mp fun hlt => hnone ⟨v, hv, hlt⟩
    rw [not_contains_of_before hall] at h
    cases h
  -- an odd number is not zero
  have hmet : ∃ e ∈ edges vs, p.meets e.1 e.2 = true := by
    have hodd : hits p vs % 2 = 1 := beq_iff_eq.mp h
    exact List.countP_pos_iff.mp (show 0 < hits p vs by omega)
  obtain ⟨e, he, hmeets⟩ := hmet
  obtain ⟨hfrom, hto⟩ := mem_of_mem_edges he
  have hend : ∀ {q : Point ℚ → Prop}, q e.1 ∨ q e.2 → ∃ v ∈ vs, q v := by
    rintro q (hq | hq)
    · exact ⟨e.1, hfrom, hq⟩
    · exact ⟨e.2, hto, hq⟩
  obtain ⟨hlow, hhigh, hlat⟩ := Point.covers_of_meets hmeets
  exact ⟨⟨hbefore, hend hlat⟩, hend hlow, hend hhigh⟩

end Ring

/-! ### Frames of regions -/

namespace Region

/-- A point of a region lies in one of its rings. -/
theorem exists_ring_of_contains {vs : List (Point ℚ)} {start : Nat}
    (h : contains vs p start = true) :
    ∃ ring ∈ rings (vs.drop start), Ring.contains ring p = true := by
  have hodd : ringHits p (vs.drop start) % 2 = 1 := by
    rw [contains, sweep_exact] at h
    split at h
    · cases h
    · exact beq_iff_eq.mp h
  by_contra hnone
  have heven : ∀ n ∈ (rings (vs.drop start)).map (Ring.hits p), 2 ∣ n := by
    intro n hn
    obtain ⟨ring, hring, rfl⟩ := List.mem_map.mp hn
    have hout : ¬ Ring.hits p ring % 2 = 1 := fun hin => hnone ⟨ring, hring, beq_iff_eq.mpr hin⟩
    omega
  have hsum := List.dvd_sum heven
  rw [ringHits] at hodd
  omega

/-- A point of a region lies in the frame of one of its rings from the vertex on from which it is
    tested. So a point to one side of each of these rings is not in the region, whatever the
    rings look like: not before or at their least latitudes or longitudes, nor beyond their
    greatest ones. -/
theorem contains_framed (vs : List (Point ℚ)) (p : Point ℚ) (start : Nat) :
    (contains vs p start = true → ∃ ring ∈ rings (vs.drop start), Ring.Frames ring p) ∧
      ((∀ ring ∈ rings (vs.drop start),
        (∀ v ∈ ring, p.lat ≤ v.lat) ∨ (∀ v ∈ ring, v.lat < p.lat) ∨
          (∀ v ∈ ring, p.lon ≤ v.lon) ∨ ∀ v ∈ ring, v.lon < p.lon) →
        contains vs p start = false) := by
  have hframed : contains vs p start = true →
      ∃ ring ∈ rings (vs.drop start), Ring.Frames ring p := by
    intro h
    obtain ⟨ring, hring, hin⟩ := exists_ring_of_contains h
    exact ⟨ring, hring, Ring.frames_of_contains hin⟩
  refine ⟨hframed, fun haside => Bool.eq_false_iff.mpr fun hin => ?_⟩
  obtain ⟨ring, hring, hlat, hlon⟩ := hframed hin
  obtain ⟨⟨u, hu, hbefore⟩, v, hv, hbeyond⟩ := hlat
  obtain ⟨⟨w, hw, hlow⟩, x, hx, hhigh⟩ := hlon
  rcases haside ring hring with hside | hside | hside | hside
  · exact absurd hbefore (not_lt.mpr (hside u hu))
  · exact absurd hbeyond (not_le.mpr (hside v hv))
  · exact absurd hlow (not_lt.mpr (hside w hw))
  · exact absurd hhigh (not_le.mpr (hside x hx))

/-- A field and another one behind a separator: a point of the second, which is tested alone, and a
    point north of the first and west of the second. -/
theorem contains_framed_fields :
    let fields : List (Point ℚ) := [⟨1, 1⟩, ⟨1, 4⟩, ⟨4, 4⟩, ⟨4, 1⟩, .null, ⟨3, 5⟩, ⟨3, 9⟩, ⟨9, 5⟩]
    (∃ ring ∈ rings (fields.drop 5), Ring.Frames ring ⟨4, 6⟩) ∧
      contains fields ⟨5, 3⟩ 0 = false := by
  intro fields
  constructor
  · exact (contains_framed fields ⟨4, 6⟩ 5).1 (by decide +kernel)
  · exact (contains_framed fields ⟨5, 3⟩ 0).2 (by decide +kernel)

end Region

end Airspace

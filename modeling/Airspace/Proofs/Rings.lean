import Airspace.Proofs.Stream
import Airspace.Proofs.Sweep
import Mathlib.Algebra.GroupWithZero.Nat

/-! # The rings of a region

  The one pass over a region comes to the same as splitting it at the separators and testing
  the ring through each run by itself: its hits are those of all rings together. An empty
  run has no hits, nor has one of a single vertex, and the last run is closed whether a
  separator stands behind it or not.
-/

namespace Airspace.Region

/-! ### Splitting -/

section

variable {α : Type} [OfNat α 0] [BEq α] {z : Point α}

/-- The rings before and after a separator. -/
theorem rings_append (hz : z.isNull = true) (xs ys : List (Point α)) :
    rings (xs ++ z :: ys) = rings xs ++ rings ys := by
  unfold rings
  rw [List.map_append, List.map_cons, if_pos hz]
  exact runs_append_none _ _

/-- Vertices without a separator among them make one ring. -/
theorem rings_of_solid {vs : List (Point α)} (hvs : ∀ v ∈ vs, v.isNull = false) (hne : vs ≠ []) :
    rings vs = [vs] := by
  have hmap : vs.map (fun v => if v.isNull then none else some v) = vs.map some :=
    List.map_congr_left fun v hv => if_neg (Bool.eq_false_iff.mp (hvs v hv))
  unfold rings
  rw [hmap]
  exact Border.runs_map_some hne

/-- A list without a separator, or one up to its first separator and the rest. -/
theorem solid_or_split (vs : List (Point α)) :
    (∀ v ∈ vs, v.isNull = false) ∨
      ∃ xs z ys, vs = xs ++ z :: ys ∧ (∀ v ∈ xs, v.isNull = false) ∧ z.isNull = true := by
  induction vs with
  | nil => exact .inl fun v hv => nomatch hv
  | cons v vs ih =>
    by_cases hv : v.isNull = true
    · exact .inr ⟨[], v, vs, rfl, fun w hw => (nomatch hw), hv⟩
    · have hfirst := Bool.eq_false_iff.mpr hv
      rcases ih with hsolid | ⟨xs, z, ys, rfl, hxs, hz⟩
      · exact .inl (List.forall_mem_cons.mpr ⟨hfirst, hsolid⟩)
      · exact .inr ⟨v :: xs, z, ys, rfl, List.forall_mem_cons.mpr ⟨hfirst, hxs⟩, hz⟩

end

/-! ### The pass -/

section

variable {α : Type} [OfNat α 0] [Add α] [Sub α] [Mul α] [Div α] [BEq α] [LT α] [DecidableLT α]
  [LE α] [DecidableLE α]

variable {p z : Point α}

/-- The hits on all rings of a region. -/
def ringHits (p : Point α) (vs : List (Point α)) : Nat := ((rings vs).map (Ring.hits p)).sum

theorem ringHits_append (hz : z.isNull = true) (xs ys : List (Point α)) :
    ringHits p (xs ++ z :: ys) = ringHits p xs + ringHits p ys := by
  unfold ringHits
  rw [rings_append hz, List.map_append, List.sum_append]

theorem ringHits_of_solid {vs : List (Point α)} (hvs : ∀ v ∈ vs, v.isNull = false) :
    ringHits p vs = Ring.hits p vs := by
  by_cases hne : vs = []
  · rw [hne]
    rfl
  · unfold ringHits
    rw [rings_of_solid hvs hne, List.map_singleton, List.sum_singleton]

/-- A separator at the end makes no difference: the last ring is closed with or without it. -/
theorem sweep_concat_separator (hz : z.isNull = true) (first : Option (Point α))
    (vs : List (Point α)) : sweep p first (vs ++ [z]) = sweep p first vs := by
  induction vs generalizing first with
  | nil => exact sweep_separator hz first
  | cons v vs ih =>
    cases vs with
    | nil =>
      show sweep p first (v :: z :: []) = sweep p first [v]
      rw [sweep_cons_cons, sweep_separator hz, sweep_separator hz, if_pos hz, Nat.add_zero, sweep]
    | cons w vs =>
      rw [List.cons_append, List.cons_append, sweep_cons_cons, sweep_cons_cons,
        ← List.cons_append, ih, ih, ih]

/-- The pass counts the hits on vertices without a separator among them as a ring does, if an
    edge from a vertex to itself is never met. -/
theorem sweep_solid (hself : ∀ v : Point α, p.meets v v = false) (hz : z.isNull = true)
    {vs : List (Point α)} (hvs : ∀ v ∈ vs, v.isNull = false) :
    sweep p none (vs ++ [z]) = Ring.hits p vs := by
  match vs with
  | [] => exact sweep_separator hz none
  | [v] =>
    have hring : Ring.hits p [v] = 0 := by
      show List.countP _ [(v, v)] = 0
      rw [List.countP_singleton, hself v]
      rfl
    rw [sweep_concat_separator hz, hring, sweep, if_neg (by simp [hvs v List.mem_cons_self])]
    rfl
  | v :: w :: vs => exact sweep_ring hz hvs

/-- The pass counts the hits on all rings. -/
theorem sweep_eq_ringHits (hself : ∀ v : Point α, p.meets v v = false) (hz : z.isNull = true)
    (vs : List (Point α)) : sweep p none vs = ringHits p vs := by
  -- the first ring is split off, and the induction is on what is left behind it
  rcases solid_or_split vs with hsolid | ⟨xs, z, ys, heq, hxs, hnull⟩
  · rw [← sweep_concat_separator hz, sweep_solid hself hz hsolid, ringHits_of_solid hsolid]
  · have hshorter : ys.length < vs.length := by
      rw [heq, List.length_append, List.length_cons]
      omega
    rw [heq, sweep_append hnull, ringHits_append hnull, sweep_solid hself hnull hxs,
      ringHits_of_solid hxs, sweep_eq_ringHits hself hz ys]
termination_by vs.length

end

/-! ### Containment -/

/-- The reserved point separates. -/
theorem isNull_null : (Point.null : Position).isNull = true := by decide +kernel

/-- A sweep over doubles counts the hits on all rings. -/
theorem sweep_eq (p : Position) (vs : List Position) : sweep p none vs = ringHits p vs :=
  sweep_eq_ringHits (p.meets_self) isNull_null vs

/-- Fewer than two vertices have no hits. -/
theorem two_le_length_of_odd {p : Position} {vs : List Position} (h : ringHits p vs % 2 = 1) :
    2 ≤ vs.length := by
  rw [← sweep_eq] at h
  match vs with
  | [] => exact absurd h (show ¬ 0 % 2 = 1 by decide)
  | [v] =>
    rw [sweep] at h
    split at h <;> exact absurd h (show ¬ 0 % 2 = 1 by decide)
  | v :: w :: vs => exact Nat.le_add_left 2 _

/-- A region contains a position, tested from some vertex on, if it has at least three vertices,
    if there is such a vertex, and if the ray has an odd number of hits on the rings from there
    on. So what stands before a separator is of no account for a test from behind it, and a
    test of two regions with a separator between them tells whether one of them alone
    contains the position. -/
theorem contains_by_rings (p : Position) :
    (∀ vs start, contains vs p start = true ↔ 3 ≤ vs.length ∧ start < vs.length ∧
        ((rings (vs.drop start)).map (Ring.hits p)).sum % 2 = 1) ∧
      ∀ xs z, Point.isNull z = true →
        (∀ ys, contains (xs ++ [z] ++ ys) p (xs ++ [z]).length =
          (((rings ys).map (Ring.hits p)).sum % 2 == 1)) ∧
        ∀ ys, 3 ≤ (xs ++ [z]).length → 3 ≤ ys.length →
          contains (xs ++ [z] ++ ys) p 0 = (contains (xs ++ [z]) p 0 ^^ contains ys p 0) := by
  have hcontains : ∀ vs start, contains vs p start = true ↔ 3 ≤ vs.length ∧ start < vs.length ∧
      ringHits p (vs.drop start) % 2 = 1 := by
    intro vs start
    rw [contains, sweep_eq]
    by_cases hshort : vs.length < 3 ∨ vs.length ≤ start
    · rw [if_pos (by simpa using hshort)]
      simp only [Bool.false_eq_true, false_iff]
      omega
    · rw [if_neg (by simpa using hshort), beq_iff_eq]
      omega
  refine ⟨hcontains, fun xs z hz => ⟨fun ys => ?_, fun ys hxs hys => ?_⟩⟩
  · show _ = (ringHits p ys % 2 == 1)
    rw [Bool.eq_iff_iff, hcontains, List.drop_left, beq_iff_eq]
    refine ⟨fun h => h.2.2, fun hodd => ?_⟩
    -- with the separator there are at least three vertices
    have hlong := two_le_length_of_odd hodd
    simp only [List.length_append, List.length_singleton]
    exact ⟨by omega, by omega, hodd⟩
  · have hterminated : Terminated (xs ++ [z]) := .inr ⟨xs, z, hz, rfl⟩
    rw [contains_eq (by rw [List.length_append]; omega), contains_eq hxs, contains_eq hys,
      sweep_terminated hterminated, odd_add]

/-- A field and a pond in it, a separator between them and none behind the pond. -/
theorem contains_by_rings_pond :
    let field : List Position := [⟨1.0, 1.0⟩, ⟨1.0, 9.0⟩, ⟨9.0, 9.0⟩, ⟨9.0, 1.0⟩]
    let pond : List Position := [⟨4.0, 4.0⟩, ⟨4.0, 6.0⟩, ⟨6.0, 5.0⟩]
    let region := field ++ [.null] ++ pond
    contains region ⟨2.0, 2.0⟩ 0 = true ∧ contains region ⟨4.5, 5.0⟩ 0 = false ∧
      contains region ⟨4.5, 5.0⟩ 5 = true ∧ contains region ⟨4.5, 5.0⟩ 8 = false := by
  intro field pond region
  obtain ⟨hmeadow, -⟩ := contains_by_rings ⟨2.0, 2.0⟩
  obtain ⟨hpond, hparts⟩ := contains_by_rings ⟨4.5, 5.0⟩
  obtain ⟨hbehind, htogether⟩ := hparts field .null isNull_null
  refine ⟨(hmeadow region 0).mpr (by decide +kernel), ?_, ?_, ?_⟩
  · exact (htogether pond (by decide) (by decide)).trans (by decide +kernel)
  · exact (hbehind pond).trans (by decide +kernel)
  · exact Bool.eq_false_iff.mpr fun hin => absurd ((hpond region 8).mp hin).2.1 (by decide)

end Airspace.Region

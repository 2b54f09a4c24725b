import Airspace.Proofs.Drawing

/-! # Outlines

  What a drawing comes to, whatever it is drawn from. The buffer holds what it held
  before and then one block for each polygon, and the counts say of how many polygons the
  blocks agree with the reference. Nothing is asked of the globe: its bearings and
  destinations may be anything at all.
-/

namespace Airspace

/-! ### A flat globe -/

/-- A globe on which every degree has 111 kilometres, distances are the larger of the two
    differences, and the only ways are north and south. -/
def Globe.flat : Globe where
  distance a b := 111.0 * greatest (a.lat - b.lat).abs (a.lon - b.lon).abs
  bearing a b := if a.lat ≤ b.lat then 0.0 else 180.0
  destination a km deg := ⟨if deg < 90.0 then a.lat + km / 111.0 else a.lat - km / 111.0, a.lon⟩

namespace Border

/-- A plan around a position on the flat globe, with a reach of half a degree. -/
def Plan.flat (origin : Position) (reference : Nat) : Plan where
  globe := .flat
  origin := origin
  reach := 55.0
  detour := 1100.0
  reference := reference

/-- A village around (10, 10), and a country that begins two tenths of a degree north of
    it. -/
def villageAndCountry : List BorderRecord :=
  [.vertex ⟨9.8, 9.8⟩, .vertex ⟨9.8, 10.2⟩, .vertex ⟨10.2, 10.2⟩, .vertex ⟨10.2, 9.8⟩, .delimiter,
    .vertex ⟨10.2, 9.0⟩, .vertex ⟨10.2, 11.0⟩, .vertex ⟨20.0, 11.0⟩, .vertex ⟨20.0, 9.0⟩]

/-- A buffer that holds a vertex and a separator. -/
def preloaded : Buffer Position := ⟨#[⟨1.0, 2.0⟩, .null], 4, 4, 100⟩

namespace Drawing

variable {p : Plan} {records : List BorderRecord} {b : Buffer Position} {s : Summary} {o : Outline}

/-- Whether a drawing has come to its end. -/
def Succeeds (p : Plan) (records : List BorderRecord) (b : Buffer Position) : Bool :=
  match run p records (.new b) with
  | .ok _ _ => true
  | .error _ _ => false

theorem exists_of_succeeds (h : Succeeds p records b = true) :
    ∃ s o, run p records (.new b) = .ok s o := by
  unfold Succeeds at h
  split at h
  · next s o hrun => exact ⟨s, o, hrun⟩
  · cases h

/-! ### The buffer -/

/-- A drawing that succeeds leaves what was in the buffer and puts one block for each
    polygon after it, in their order. The block of a polygon depends on nothing but its own
    vertices, the globe, the position and the distances of the plan, and on whether the
    polygon is the reference. -/
theorem run_appends_blocks (h : run p records (.new b) = .ok s o) :
    o.buffer.toList = b.toList ++ ((polygons records).zipIdx 1).flatMap fun q =>
      blockOf p.globe p.origin p.reach p.detour (p.reference == q.2) q.1 := by
  rw [(run_new h).1, Plan.blocks]
  congr 2
  funext q
  exact p.block_eq (p.reference == q.2) q.1

/-- What was in the buffer stays before the block of a village, all of which is within
    reach, and that of a country, of which one edge is. The country is the reference, so its
    pivot is moved behind the position. -/
theorem run_appends_blocks_village :
    ∃ s o, run (.flat ⟨10.0, 10.0⟩ 2) villageAndCountry (.new preloaded) = .ok s o ∧
      o.buffer.toList.map (fun v => (v.lat, v.lon)) =
        [(1.0, 2.0), (0.0, 0.0), (9.8, 9.8), (9.8, 10.2), (10.2, 10.2), (10.2, 9.8), (9.8, 9.8),
          (0.0, 0.0), (10.2, 9.0), (10.2, 11.0), (10.2 + 1100.0 / 111.0, 11.0),
          (10.0 - 1100.0 / 111.0, 10.0), (10.2 + 1100.0 / 111.0, 9.0), (10.2, 9.0),
          (0.0, 0.0)] := by
  obtain ⟨s, o, hrun⟩ : ∃ s o, run (.flat ⟨10.0, 10.0⟩ 2) villageAndCountry (.new preloaded) =
      .ok s o := exists_of_succeeds (by decide +kernel)
  refine ⟨s, o, hrun, ?_⟩
  rw [run_appends_blocks hrun]
  decide +kernel

/-! ### The counts -/

/-- Of each count the next one contains. -/
theorem tally_le (p : Plan) (ps : List (List Position)) :
    (p.tally ps).unresolved ≤ (p.tally ps).flipped ∧ (p.tally ps).flipped ≤ (p.tally ps).closed ∧
      (p.tally ps).closed ≤ (p.tally ps).retained ∧ (p.tally ps).retained ≤ (p.tally ps).seen := by
  refine ⟨?_, ?_, ?_, ?_⟩
  · apply List.countP_mono_left
    intro q _ hmisses
    exact (Bool.and_eq_true _ _ ▸ hmisses).1
  · -- turned detours are counted by number, and closed polygons without
    have hclosed : (p.tally ps).closed = (ps.zipIdx 1).countP fun q => p.detours q.1 :=
      (Plan.countP_zipIdx p.detours ps).symm
    rw [hclosed]
    apply List.countP_mono_left
    intro q _ hturns
    exact Plan.detours_of_turns hturns
  · apply List.countP_mono_left
    intro vs _ hdetours
    exact Plan.retains_of_detours hdetours
  · exact List.countP_le_length

/-- Where nothing is unresolved, every polygon closed by a detour is as expected. -/
theorem agrees_of_resolved {ps : List (List Position)} (h : (p.tally ps).unresolved = 0)
    {q : List Position × Nat} (hq : q ∈ ps.zipIdx 1) (hdetours : p.detours q.1 = true) :
    Region.contains (p.block (p.reference == q.2) q.1) p.origin 0 = (p.reference == q.2) := by
  have hmisses := List.countP_eq_zero.mp h q hq
  rw [← Plan.detours_and_disagrees, hdetours, Bool.true_and, bne, Bool.not_eq_true,
    Bool.not_eq_false'] at hmisses
  exact eq_of_beq hmisses

/-- The counts of a drawing that succeeds are exact. The polygons whose detour fails to
    bring about what the reference says are the unresolved ones; the flipped ones are those
    whose detour leads over the opposite pivot, because the arc closed over the first one
    disagreed. So if none is unresolved, every block that a detour closes agrees with the
    reference, whatever stands before it and after it. -/
theorem run_counts_disagreements (h : run p records (.new b) = .ok s o) :
    let numbered := (polygons records).zipIdx 1
    let agrees := fun (q : List Position × Nat) (block : List Position) =>
      Region.contains block p.origin 0 == (p.reference == q.2)
    o.buffer.toList =
        b.toList ++ numbered.flatMap (fun q => p.block (p.reference == q.2) q.1) ∧
      s.unresolved = numbered.countP (fun q =>
        p.detours q.1 && !agrees q (p.block (p.reference == q.2) q.1)) ∧
      s.flipped = numbered.countP (fun q => p.turns (p.reference == q.2) q.1) ∧
      (∀ q ∈ numbered, ∀ first last, arcEnds (p.kept q.1) = some (first, last) → first != last →
        p.turns (p.reference == q.2) q.1 = !agrees q (p.forward q.1 first last) ∧
        (p.block (p.reference == q.2) q.1)[(p.block (p.reference == q.2) q.1).length -
            pivotFromEnd]? =
          some (if p.turns (p.reference == q.2) q.1 then (p.detourFor first last).opposite
            else (p.detourFor first last).pivot)) ∧
      s.closed = (polygons records).countP p.detours ∧
      s.retained = (polygons records).countP p.retains ∧
      s.seen = (polygons records).length ∧
      s.unresolved ≤ s.flipped ∧ s.flipped ≤ s.closed ∧ s.closed ≤ s.retained ∧
      s.retained ≤ s.seen ∧
      (s.unresolved = 0 → ∀ q ∈ numbered, p.detours q.1 →
        agrees q (p.block (p.reference == q.2) q.1)) := by
  intro numbered agrees
  obtain ⟨hitems, rfl⟩ := run_new h
  obtain ⟨hunresolved, hflipped, hclosed, hretained⟩ := tally_le p (polygons records)
  -- a block disagrees exactly if its detour was turned in vain
  have hmisses : ∀ q : List Position × Nat,
      p.misses (p.reference == q.2) q.1 =
        (p.detours q.1 && !agrees q (p.block (p.reference == q.2) q.1)) := by
    intro q
    exact (Plan.detours_and_disagrees (p.reference == q.2)).symm
  have hcount : (p.tally (polygons records)).unresolved = numbered.countP (fun q =>
      p.detours q.1 && !agrees q (p.block (p.reference == q.2) q.1)) := by
    apply List.countP_congr
    intro q _
    rw [hmisses q]
  refine ⟨hitems, hcount, rfl, ?_, rfl, rfl, rfl, hunresolved, hflipped, hclosed, hretained, ?_⟩
  · intro q _ first last hends hopen
    refine ⟨?_, Plan.block_pivot hends hopen _⟩
    exact (Plan.block_of_open hends hopen (p.reference == q.2)).2.2.2
  · intro hzero q hq hdetours
    exact beq_iff_eq.mpr (agrees_of_resolved hzero hq hdetours)

/-- The detour of a country north of the position is turned where it is the reference. -/
theorem run_counts_disagreements_village :
    ∃ s o, run (.flat ⟨10.0, 10.0⟩ 2) villageAndCountry (.new preloaded) = .ok s o ∧
      s.unresolved = 0 ∧ s.flipped = 1 ∧
      ∀ q ∈ (polygons villageAndCountry).zipIdx 1, (Plan.flat ⟨10.0, 10.0⟩ 2).detours q.1 →
        Region.contains ((Plan.flat ⟨10.0, 10.0⟩ 2).block (2 == q.2) q.1) ⟨10.0, 10.0⟩ 0 ==
          (2 == q.2) := by
  obtain ⟨s, o, hrun⟩ : ∃ s o, run (.flat ⟨10.0, 10.0⟩ 2) villageAndCountry (.new preloaded) =
      .ok s o := exists_of_succeeds (by decide +kernel)
  obtain ⟨-, hunresolved, hflipped, -, -, -, -, -, -, -, -, hagree⟩ := run_counts_disagreements hrun
  have hzero : s.unresolved = 0 := by
    rw [hunresolved]
    decide +kernel
  have hone : s.flipped = 1 := by
    rw [hflipped]
    decide +kernel
  exact ⟨s, o, hrun, hzero, hone, hagree hzero⟩

end Drawing

end Border

end Airspace

import Airspace.Proofs.Ingestion
import Airspace.Proofs.Parity

/-! # The country check

  After a load the position is inside a banned country by the even-odd rule over all
  blocks together, and by the unpruned borders if there is no block at all. So polygons
  that contain the position cancel each other in pairs, and a polygon that contains it
  from afar is overlooked where another one is within reach. Where the position lies in
  one polygon at most, and that one is within reach, the check tells the truth.
-/

namespace Airspace

namespace Border

namespace Plan

variable {p : Plan} {ps : List (List Position)}

/-! ### All blocks together -/

/-- How many polygons are kept around the position. One that a detour closes counts if it
    is the reference, any other one if it contains the position. -/
def around (p : Plan) (ps : List (List Position)) : Nat :=
  (ps.zipIdx 1).countP fun q => p.retains q.1 &&
    if p.detours q.1 then p.reference == q.2 else Ring.contains q.1 p.origin

/-- Every polygon has a number. -/
theorem exists_number {vs : List Position} (h : vs ∈ ps) : ∃ k, (vs, k) ∈ ps.zipIdx 1 := by
  rw [← List.zipIdx_map_fst 1 ps] at h
  obtain ⟨⟨ws, k⟩, hq, rfl⟩ := List.mem_map.mp h
  exact ⟨k, hq⟩

/-- Nothing is drawn if no edge is kept. -/
theorem blocks_eq_nil_iff : p.blocks ps = [] ↔ ∀ vs ∈ ps, p.retains vs = false := by
  have hblock : ∀ expected vs, p.block expected vs = [] ↔ p.retains vs = false := by
    intro expected vs
    by_cases h : p.retains vs = true
    · have hlong := three_le_length_block h expected
      constructor
      · intro hnil
        rw [hnil] at hlong
        exact absurd hlong (Nat.not_succ_le_zero 2)
      · intro hnone
        rw [h] at hnone
        cases hnone
    · have hkept : p.kept vs = [] := by
        by_contra hne
        exact h (retains_iff.mpr hne)
      exact ⟨fun _ => (Bool.not_eq_true _).mp h, fun _ => (block_of_not_retains hkept expected).1⟩
  rw [blocks, List.flatMap_eq_nil_iff]
  constructor
  · intro h vs hvs
    obtain ⟨k, hk⟩ := exists_number hvs
    exact (hblock _ vs).mp (h (vs, k) hk)
  · intro h q hq
    exact (hblock _ q.1).mpr (h q.1 (List.fst_mem_of_mem_zipIdx hq))

/-- Whether a block contributes to the parity of all blocks. -/
theorem odd_sweep_block {q : List Position × Nat} (hnull : ∀ v ∈ q.1, v.isNull = false)
    (hresolved : (p.tally ps).unresolved = 0) (hq : q ∈ ps.zipIdx 1)
    (hpreserves : p.Preserves q.1) :
    (Region.sweep p.origin none (p.block (p.reference == q.2) q.1) % 2 == 1) =
      (p.retains q.1 &&
        if p.detours q.1 then p.reference == q.2 else Ring.contains q.1 p.origin) := by
  by_cases hretains : p.retains q.1 = true
  · rw [← Region.contains_eq (three_le_length_block hretains _), hretains, Bool.true_and]
    by_cases hdetours : p.detours q.1 = true
    · rw [if_pos hdetours]
      exact Drawing.agrees_of_resolved hresolved hq hdetours
    · have heven := hpreserves hretains (Bool.eq_false_iff.mpr hdetours)
      obtain ⟨first, last, hends, hclosed⟩ := exists_closed hretains hdetours
      rw [if_neg hdetours, contains_block_of_closed hnull hends hclosed, heven, Bool.xor_false]
  · have hkept : p.kept q.1 = [] := by
      by_contra hne
      exact hretains (retains_iff.mpr hne)
    rw [(block_of_not_retains hkept _).1, Bool.eq_false_iff.mpr hretains, Bool.false_and]
    rfl

/-- The blocks together contain the position if an odd number of polygons is kept around
    it. -/
theorem contains_blocks (hnull : ∀ vs ∈ ps, ∀ v ∈ vs, v.isNull = false)
    (hresolved : (p.tally ps).unresolved = 0) (hpreserves : ∀ vs ∈ ps, p.Preserves vs)
    (hsome : p.blocks ps ≠ []) :
    Region.contains (p.blocks ps) p.origin 0 = (p.around ps % 2 == 1) := by
  have hterminated : ∀ block ∈ (ps.zipIdx 1).map (fun q => p.block (p.reference == q.2) q.1),
      Region.Terminated block := by
    intro block hmem
    obtain ⟨q, -, rfl⟩ := List.mem_map.mp hmem
    exact terminated_block p _ q.1
  rw [Region.contains_eq (three_le_length_blocks hsome), blocks, List.flatMap_def,
    Region.odd_sweep_flatten hterminated,
    List.countP_map, around]
  congr 2
  apply List.countP_congr
  intro q hq
  have hvs := List.fst_mem_of_mem_zipIdx hq
  rw [← odd_sweep_block (hnull q.1 hvs) hresolved hq (hpreserves q.1 hvs)]
  rfl

/-- If at most one polygon contains the position, and an edge of it is kept, then the
    polygons kept around the position are those that contain it. -/
theorem around_eq (hreference : p.reference = firstAround p.origin 1 ps)
    (hone : ps.countP (Ring.contains · p.origin) ≤ 1)
    (hkept : ∀ vs ∈ ps, Ring.contains vs p.origin = true → p.retains vs = true) :
    p.around ps = ps.countP (Ring.contains · p.origin) := by
  rw [← countP_zipIdx, around]
  apply List.countP_congr
  rintro ⟨vs, k⟩ hq
  have hraw : (p.reference == k) = Ring.contains vs p.origin := by
    rw [Bool.eq_iff_iff, beq_iff_eq, hreference]
    exact firstAround_eq_iff Nat.one_pos hone hq
  have hin := hkept vs (List.fst_mem_of_mem_zipIdx hq)
  simp only [hraw, ite_self, Bool.and_eq_true]
  exact ⟨fun h => h.2, fun h => ⟨hin h, h⟩⟩

end Plan

end Border

namespace Guard

open Border

variable {g : Guard} {v : Volume}

/-! ### The evaluation that loads -/

/-- What the borders are drawn from when the tables are loaded. -/
def plan (g : Guard) (v : Volume) : Plan :=
  Load.Basis.plan ⟨g.globe, g.config, v, g.position⟩ (Search.run g.position v.border)

theorem started_globe (v : Volume) (g : Guard) : (g.started v).globe = g.globe := by
  unfold started
  cases g.storage <;> rfl

theorem started_config (v : Volume) (g : Guard) : (g.started v).config = g.config := by
  unfold started
  cases g.storage <;> rfl

theorem started_position (v : Volume) (g : Guard) : (g.started v).position = g.position := by
  unfold started
  cases g.storage <;> rfl

/-- An evaluation after which the tables are loaded, and before which they were not, has
    loaded them without a failure. -/
theorem evaluate_loads (hpending : (g.started v).phase = .pending)
    (hloaded : (g.evaluate v true).guard.isLoaded = true) :
    ∃ report q, Load.all ⟨g.globe, g.config, v, g.position⟩ ⟨(g.started v).holdings, []⟩ = .ok report q ∧
      (g.evaluate v true).guard =
        { g.started v with phase := .loaded report, holdings := q.holdings } := by
  unfold evaluate at hloaded ⊢
  simp only [hpending] at hloaded ⊢
  cases hbefore : (g.started v).verdictBefore? with
  | some verdict =>
    -- a verdict that stands before any check leaves the tables alone
    simp only [hbefore, isLoaded, hpending] at hloaded
    cases hloaded
  | none =>
    simp only [hbefore] at hloaded ⊢
    unfold loadAndJudge ingestion at hloaded ⊢
    rw [started_globe, started_config, started_position] at hloaded ⊢
    cases hall : Load.all ⟨g.globe, g.config, v, g.position⟩ ⟨(g.started v).holdings, []⟩ with
    | ok report q => exact ⟨report, q, rfl, rfl⟩
    | error fault q =>
      simp only [hall, isLoaded] at hloaded
      cases hloaded

/-- After a load of the borders a guard keeps the blocks of all polygons and the number of
    the first polygon around the position. -/
theorem evaluate_keeps (hpending : (g.started v).phase = .pending)
    (hcountry : g.config.countryEnabled = true)
    (hloaded : (g.evaluate v true).guard.isLoaded = true) :
    (g.evaluate v true).guard.position = g.position ∧
      (g.evaluate v true).guard.holdings.countries.toList = (g.plan v).blocks (polygons v.border) ∧
      (g.evaluate v true).guard.holdings.reference =
        firstAround g.position 1 (polygons v.border) ∧
      (g.evaluate v true).guard.report.reference =
        (g.evaluate v true).guard.holdings.reference ∧
      (g.evaluate v true).guard.report.borders = (g.plan v).tally (polygons v.border) := by
  obtain ⟨report, q, hall, hguard⟩ := evaluate_loads hpending hloaded
  obtain ⟨empty, o, hempty, hrun, hcountries, hreference, hreport⟩ := Load.all_ok hcountry hall
  obtain ⟨hitems, hsummary⟩ := Drawing.run_new hrun
  rw [hempty, List.nil_append] at hitems
  rw [hguard]
  refine ⟨started_position v g, ?_, ?_, ?_, hsummary⟩
  · show q.holdings.countries.toList = _
    rw [hcountries, hitems]
    rfl
  · show q.holdings.reference = _
    rw [hreference, Search.run_eq]
  · show report.reference = q.holdings.reference
    rw [hreport, hreference]

/-- What the check asks after a load. -/
theorem isInsideCountry_eq (hpending : (g.started v).phase = .pending)
    (hcountry : g.config.countryEnabled = true)
    (hloaded : (g.evaluate v true).guard.isLoaded = true) :
    (g.evaluate v true).guard.isInsideCountry =
      if ((g.plan v).blocks (polygons v.border)).isEmpty then
        decide (0 < firstAround g.position 1 (polygons v.border))
      else Region.contains ((g.plan v).blocks (polygons v.border)) g.position 0 := by
  obtain ⟨hposition, hitems, hreference, -, -⟩ := evaluate_keeps hpending hcountry hloaded
  rw [isInsideCountry, hitems, hreference, hposition]

/-- Where a position is said to be inside a banned country by the evaluation that loads the
    tables. The reference is found whenever a polygon contains the position. With nothing
    kept of the borders, the reference decides. Otherwise the parity of the polygons kept
    around the position does, if no polygon lost its parity; then the check tells the truth
    where at most one polygon contains the position and an edge of that one is kept. -/
theorem isInsideCountry_after_load (hpending : (g.started v).phase = .pending)
    (hcountry : g.config.countryEnabled = true)
    (hloaded : (g.evaluate v true).guard.isLoaded = true) :
    let after := (g.evaluate v true).guard
    let inTruth := ∃ vs ∈ polygons v.border, Ring.contains vs g.position = true
    after.position = g.position ∧
      after.report.reference = after.holdings.reference ∧
      (0 < after.holdings.reference ↔ inTruth) ∧
      ((∀ vs ∈ polygons v.border, (g.plan v).retains vs = false) →
        (after.isInsideCountry = true ↔ inTruth)) ∧
      ((∀ vs ∈ polygons v.border, ∀ u ∈ vs, u.isNull = false) →
        after.report.borders.unresolved = 0 →
        (∀ vs ∈ polygons v.border, (g.plan v).Preserves vs) →
        ((∃ vs ∈ polygons v.border, (g.plan v).retains vs = true) →
          (after.isInsideCountry = true ↔ (g.plan v).around (polygons v.border) % 2 = 1)) ∧
        ((polygons v.border).countP (Ring.contains · g.position) ≤ 1 →
          (∀ vs ∈ polygons v.border, Ring.contains vs g.position = true →
            (g.plan v).retains vs = true) →
          (after.isInsideCountry = true ↔ inTruth))) := by
  intro after inTruth
  obtain ⟨hposition, -, hreference, hreport, hsummary⟩ :=
    evaluate_keeps hpending hcountry hloaded
  have htruth : 0 < after.holdings.reference ↔ inTruth := by
    rw [hreference]
    exact firstAround_pos Nat.one_pos (polygons v.border)
  -- which of the two ways the check goes depends on whether there is a block
  have hnothing : (g.plan v).blocks (polygons v.border) = [] →
      (after.isInsideCountry = true ↔ inTruth) := by
    intro hnil
    rw [isInsideCountry_eq hpending hcountry hloaded, hnil, if_pos List.isEmpty_nil,
      decide_eq_true_iff]
    exact firstAround_pos Nat.one_pos (polygons v.border)
  refine ⟨hposition, hreport, htruth,
    fun hnone => hnothing (Plan.blocks_eq_nil_iff.mpr hnone), ?_⟩
  intro hnull hresolved hpreserves
  have hparity : (g.plan v).blocks (polygons v.border) ≠ [] →
      (after.isInsideCountry = true ↔ (g.plan v).around (polygons v.border) % 2 = 1) := by
    intro hsome
    have hcontains := Plan.contains_blocks hnull (hsummary ▸ hresolved) hpreserves hsome
    rw [isInsideCountry_eq hpending hcountry hloaded,
      if_neg fun hempty => hsome (List.isEmpty_iff.mp hempty), ← beq_iff_eq (a := _ % 2), ← hcontains]
    rfl
  refine ⟨?_, ?_⟩
  · rintro ⟨vs, hvs, hretains⟩
    apply hparity
    intro hnil
    have hnone := Plan.blocks_eq_nil_iff.mp hnil vs hvs
    rw [hretains] at hnone
    cases hnone
  · intro hone hkept
    by_cases hnil : (g.plan v).blocks (polygons v.border) = []
    · exact hnothing hnil
    · -- with one polygon at most around the position, none is there to cancel it
      have haround : (g.plan v).around (polygons v.border) =
          (polygons v.border).countP (Ring.contains · g.position) :=
        Plan.around_eq (Search.run_eq g.position v.border) hone hkept
      rw [hparity hnil, haround]
      have hpos : 0 < (polygons v.border).countP (Ring.contains · g.position) ↔ inTruth :=
        List.countP_pos_iff
      rw [← hpos]
      omega

/-! ### Borders within borders -/

/-- A border table of a country from 1 to 5 degrees and an enclave in it from 2 to 4. -/
def enclave : Volume :=
  Volume.empty.putLines .countries
    ["1,1", "5,1", "5,5", "1,5", "#", "2,2", "4,2", "4,4", "2,4"]

/-- A guard at a position that checks countries alone. No distance is as far as its reach,
    so it keeps every edge. -/
def watchful (position : Position) : Guard :=
  let config := { Config.standard with bypass := ⟨true, false, true⟩, reach := 0.0 / 0.0 }
  (Guard.new .sphere config).locate position

set_option maxRecDepth 100000 in
/-- Between the two borders the check tells the truth. -/
theorem isInsideCountry_after_load_between :
    let after := ((watchful ⟨1.5, 3.0⟩).evaluate enclave true).guard
    after.isLoaded = true ∧ after.report.borders.unresolved = 0 ∧
      (∀ vs ∈ polygons enclave.border, ((watchful ⟨1.5, 3.0⟩).plan enclave).Preserves vs) ∧
      after.isInsideCountry = true ∧
      ∃ vs ∈ polygons enclave.border, Ring.contains vs ⟨1.5, 3.0⟩ = true := by
  intro after
  have hloaded : after.isLoaded = true := by decide +kernel
  have hresolved : after.report.borders.unresolved = 0 := by decide +kernel
  have hpreserves : ∀ vs ∈ polygons enclave.border,
      ((watchful ⟨1.5, 3.0⟩).plan enclave).Preserves vs := by
    unfold Plan.Preserves
    decide +kernel
  obtain ⟨-, -, -, -, hrest⟩ := isInsideCountry_after_load (g := watchful ⟨1.5, 3.0⟩)
    (v := enclave) rfl rfl hloaded
  obtain ⟨hparity, htruth⟩ := hrest (by decide +kernel) hresolved hpreserves
  -- the outer border alone is around the position
  have hinside : after.isInsideCountry = true :=
    (hparity (by decide +kernel)).mpr (by decide +kernel)
  exact ⟨hloaded, hresolved, hpreserves, hinside,
    (htruth (by decide +kernel) (by decide +kernel)).mp hinside⟩

set_option maxRecDepth 100000 in
/-- Inside both borders the two cancel each other: the reference is found and nothing is
    unresolved, but the position is said to be outside. -/
theorem nested_borders_cancel :
    (∀ vs ∈ polygons enclave.border, ∀ u ∈ vs,
        u.isNull = false ∧ u.lat.isNaN = false ∧ u.lon.isNaN = false) ∧
      (watchful ⟨3.0, 3.0⟩).config.countryEnabled = true ∧
      (watchful ⟨3.0, 3.0⟩).isLoaded = false ∧
      let after := ((watchful ⟨3.0, 3.0⟩).evaluate enclave true).guard
      after.isLoaded = true ∧ after.report.borders.unresolved = 0 ∧
        (∃ vs ∈ polygons enclave.border, Ring.contains vs after.position = true) ∧
        0 < after.report.reference ∧ after.isInsideCountry = false := by
  decide +kernel

end Guard

end Airspace

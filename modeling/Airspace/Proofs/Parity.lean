import Airspace.Proofs.Outline
import Airspace.Proofs.Reference

/-! # Parity of blocks

  A polygon contains the position if the ray meets its boundary an odd number of times.
  What is drawn of it leaves edges of the boundary out. A detour makes up for them, since
  its side is chosen for the parity that the reference has found. An arc that leads back
  to its own beginning gets no detour, although edges in between may be missing: there
  the arc leaps from the end of one kept edge to the beginning of the next. It has the
  parity of the polygon exactly if the edges left out and the leaps together have an even
  one, and nothing in the drawing sees to that.
-/

namespace Airspace

/-- The parity of some edges is that of those with a property and those without it. -/
theorem Point.crosses_filter (p : Position) (f : Border.Edge → Bool) (es : List Border.Edge) :
    p.crosses es = (p.crosses (es.filter f) ^^ p.crosses (es.filter fun e => !f e)) := by
  unfold Point.crosses
  rw [← odd_add, List.countP_eq_countP_filter_add es _ f]

namespace Border

variable {origin : Position}

/-! ### Leaps -/

/-- The leaps of an arc over some edges: from the end of each edge to the beginning of the
    next one. -/
def leaps (es : List Edge) : List Edge := (path es).map fun q => (q.1.2, q.2.1)

/-- One more edge is one more leap. -/
theorem leaps_concat {es : List Edge} {first last : Position}
    (h : arcEnds es = some (first, last)) (e : Edge) :
    leaps (es ++ [e]) = leaps es ++ [(last, e.1)] := by
  obtain ⟨⟨d, d'⟩, hends, heq⟩ := Option.map_eq_some_iff.mp h
  obtain ⟨-, rfl⟩ := Prod.mk.inj heq
  rw [leaps, path_concat hends, List.map_append]
  rfl

/-- The parity of an arc is that of its edges and its leaps. -/
theorem crosses_arc (origin : Position) (es : List Edge) :
    origin.crosses (path (arcAfter none es)) =
      (origin.crosses es ^^ origin.crosses (leaps es)) := by
  induction es using List.reverseRecOn with
  | nil => rfl
  | append_singleton es e ih =>
    rw [arcAfter_concat]
    rcases empty_or_arcEnds es with rfl | ⟨first, last, hends⟩
    · show origin.crosses [e] = (origin.crosses ([] ++ [e]) ^^ false)
      rw [List.nil_append, Bool.xor_false]
    · have harc : endpoints (arcAfter none es) = some (first, last) := by
        rw [endpoints_arcAfter, hends]
      rw [hends, Option.any_some, leaps_concat hends, Point.crosses_append, Point.crosses_append,
        Point.crosses_singleton, Point.crosses_singleton]
      by_cases hgo : (last == e.1) = true
      · -- the arc ends where the edge begins, up to the signs of zeros
        have hsame : origin.meets last e.2 = origin.meets e.1 e.2 :=
          Point.meets_same (Point.same_of_beq hgo) (.refl e.2)
        rw [if_pos hgo, path_concat harc, Point.crosses_append, ih, Point.crosses_singleton, hsame,
          Point.meets_of_beq hgo, Bool.xor_false]
        cases origin.crosses es <;> cases origin.crosses (leaps es) <;>
          cases origin.meets e.1 e.2 <;> rfl
      · have hstep := endpoints_concat harc e.1
        rw [if_neg hgo, List.append_cons, path_concat hstep, path_concat harc,
          Point.crosses_append, Point.crosses_append, ih, Point.crosses_singleton,
          Point.crosses_singleton]
        show (_ ^^ origin.meets e.1 e.2) = _
        cases origin.crosses es <;> cases origin.crosses (leaps es) <;>
          cases origin.meets e.1 e.2 <;> cases origin.meets last e.1 <;> rfl

/-- An arc over those edges of a path that have a property ends where the path does, and
    its leaps lead nowhere, if the other edges do not either. -/
theorem leaps_of_idle (origin : Position) {f : Edge → Bool} {vs : List Position}
    {first last : Position} (hidle : ∀ e ∈ path vs, f e = false → (e.1 == e.2) = true)
    (hends : endpoints vs = some (first, last)) :
    origin.crosses (leaps ((path vs).filter f)) = false ∧
      ∀ a z, arcEnds ((path vs).filter f) = some (a, z) → Point.Same z last := by
  induction vs using List.reverseRecOn generalizing first last with
  | nil => cases hends
  | append_singleton vs v ih =>
    rcases empty_or_endpoints vs with rfl | ⟨first', last', hbefore⟩
    · exact ⟨rfl, nofun⟩
    · rw [endpoints_concat hbefore] at hends
      obtain ⟨-, rfl⟩ := Prod.mk.inj (Option.some.inj hends)
      rw [path_concat hbefore] at hidle ⊢
      obtain ⟨hleaps, hlast⟩ := ih (fun e he => hidle e (List.mem_append_left _ he)) hbefore
      rw [List.filter_append]
      by_cases hkeep : f (last', v) = true
      · rw [List.filter_cons_of_pos hkeep, List.filter_nil]
        rcases empty_or_arcEnds ((path vs).filter f) with hnone | ⟨a, z, harc⟩
        · rw [hnone]
          refine ⟨rfl, fun a z hz => ?_⟩
          obtain ⟨-, rfl⟩ := Prod.mk.inj (Option.some.inj hz)
          exact .refl v
        · -- the leap to the new edge begins where the path stood before it
          have hleap : origin.meets z last' = false := Point.meets_of_same (hlast a z harc)
          refine ⟨?_, fun a' z' hz => ?_⟩
          · rw [leaps_concat harc, Point.crosses_append, hleaps, Point.crosses_singleton, hleap]
            rfl
          · rw [arcEnds_concat harc] at hz
            obtain ⟨-, rfl⟩ := Prod.mk.inj (Option.some.inj hz)
            exact .refl v
      · rw [List.filter_cons_of_neg hkeep, List.filter_nil, List.append_nil]
        refine ⟨hleaps, fun a z hz => ?_⟩
        have hstay := hidle (last', v) List.mem_concat_self (Bool.eq_false_iff.mpr hkeep)
        exact (hlast a z hz).trans (Point.same_of_beq hstay)

namespace Plan

variable {p : Plan} {vs : List Position} {first last : Position}

/-! ### Arcs that lead back -/

/-- The edges that are missing from what is drawn of a polygon, and the leaps that are
    there in their stead. -/
def changed (p : Plan) (vs : List Position) : List Edge := p.dropped vs ++ leaps (p.kept vs)

/-- Whether what is kept of a polygon has the parity of the polygon, but for the side of
    its detour: where the arc leads back to its beginning, the edges that are missing and
    the leaps in their stead must not change it. -/
def Preserves (p : Plan) (vs : List Position) : Prop :=
  p.retains vs = true → p.detours vs = false → p.origin.crosses (p.changed vs) = false

/-- A polygon keeps its parity if every edge with two different ends is within reach. -/
theorem preserves_of_within_reach (h : ∀ e ∈ p.dropped vs, (e.1 == e.2) = true) :
    p.Preserves vs := by
  intro _ _
  -- an edge with two equal ends is not met
  have hdropped : p.origin.crosses (p.dropped vs) = false := by
    have hnone : (p.dropped vs).countP (fun e => p.origin.meets e.1 e.2) = 0 := by
      rw [List.countP_eq_zero]
      intro e he
      rw [Point.meets_of_beq (h e he)]
      exact Bool.false_ne_true
    rw [Point.crosses, hnone]
    rfl
  have hidle : ∀ e ∈ path vs, p.keeps e = false → (e.1 == e.2) = true := by
    intro e he hkeep
    refine h e (List.mem_filter.mpr ⟨List.mem_append_left _ he, ?_⟩)
    rw [hkeep, Bool.not_false]
  rw [changed, Point.crosses_append, hdropped, Bool.false_xor]
  rcases empty_or_endpoints vs with rfl | ⟨first, last, hends⟩
  · rfl
  · obtain ⟨hleaps, hlast⟩ := leaps_of_idle p.origin hidle hends
    rw [kept, boundary, List.filter_append]
    cases hclosing : closing? vs with
    | none =>
      rw [Option.toList_none, List.filter_nil, List.append_nil]
      exact hleaps
    | some e =>
      -- the closing edge begins where the path ends
      have hfrom : e.1 = last := by
        rw [closing?, hends, Option.bind_some] at hclosing
        split at hclosing
        · rw [← Option.some.inj hclosing]
        · cases hclosing
      rw [Option.toList_some]
      by_cases hkeep : p.keeps e = true
      · rw [List.filter_cons_of_pos hkeep, List.filter_nil]
        rcases empty_or_arcEnds ((path vs).filter p.keeps) with hnone | ⟨a, z, harc⟩
        · rw [hnone]
          rfl
        · rw [leaps_concat harc, Point.crosses_append, hleaps, Point.crosses_singleton, hfrom,
            Point.meets_of_same (hlast a z harc)]
          rfl
      · rw [List.filter_cons_of_neg hkeep, List.filter_nil, List.append_nil]
        exact hleaps

/-- The vertices of an arc are vertices of the polygon. -/
theorem mem_of_mem_arc {v : Position} (h : v ∈ p.arc vs) : v ∈ vs := by
  obtain ⟨e, he, hv⟩ := mem_arcAfter h
  have hboundary : e ∈ boundary vs := (List.mem_filter.mp he).1
  rcases List.mem_append.mp hboundary with hpath | hclosing
  · obtain ⟨hfst, hsnd⟩ := List.of_mem_zip hpath
    rcases hv with rfl | rfl
    · exact hfst
    · exact List.mem_of_mem_tail hsnd
  · obtain ⟨ends, hends, he⟩ := Option.bind_eq_some_iff.mp (Option.mem_toList.mp hclosing)
    obtain ⟨hfst, hsnd⟩ := mem_of_endpoints hends
    split at he
    · obtain rfl := Option.some.inj he
      rcases hv with rfl | rfl
      · exact hsnd
      · exact hfst
    · cases he

/-- An arc that is ended by a separator alone is tested as the ring through it. -/
theorem contains_arc (hvs : ∀ v ∈ vs, v.isNull = false) (hkept : p.kept vs ≠ []) (q : Position) :
    Region.contains (p.arc vs ++ [.null]) q 0 = Ring.contains (p.arc vs) q := by
  have hlong : 2 ≤ (p.arc vs).length := two_le_length_arcAfter hkept
  have harc : ∀ v ∈ p.arc vs, v.isNull = false := fun v hv => hvs v (mem_of_mem_arc hv)
  rw [Region.contains_eq (by rw [List.length_append, List.length_singleton]; omega)]
  obtain ⟨v, w, rest, hshape⟩ : ∃ v w rest, p.arc vs = v :: w :: rest := by
    match hshape : p.arc vs with
    | [] => rw [hshape] at hlong; contradiction
    | [v] => rw [hshape] at hlong; simp at hlong
    | v :: w :: rest => exact ⟨v, w, rest, rfl⟩
  rw [hshape] at harc ⊢
  rw [Region.sweep_ring (by decide +kernel) harc]
  rfl

/-- An arc that leads back to its beginning has the parity of the polygon, but for the
    edges that are missing and the leaps. -/
theorem contains_block_of_closed (hvs : ∀ v ∈ vs, v.isNull = false)
    (hends : arcEnds (p.kept vs) = some (first, last)) (hclosed : (first != last) = false)
    (expected : Bool) :
    Region.contains (p.block expected vs) p.origin 0 =
      (Ring.contains vs p.origin ^^ p.origin.crosses (p.changed vs)) := by
  have hkept : p.kept vs ≠ [] := ne_nil_of_arcEnds hends
  have harc : endpoints (p.arc vs) = some (first, last) := by
    rw [arc, endpoints_arcAfter, hends]
  -- the ring through the arc closes with an edge between equal vertices
  have hback : p.origin.meets last first = false := by
    apply Point.meets_of_beq
    apply Point.beq_symm
    simpa [bne] using hclosed
  have hring : Ring.contains (p.arc vs) p.origin =
      (p.origin.crosses (p.kept vs) ^^ p.origin.crosses (leaps (p.kept vs))) := by
    rw [Ring.contains_eq_crosses, Ring.edges_eq harc, Point.crosses_append, Point.crosses_singleton,
      hback, Bool.xor_false, arc, crosses_arc]
  have hwhole : Ring.contains vs p.origin =
      (p.origin.crosses (p.kept vs) ^^ p.origin.crosses (p.dropped vs)) := by
    rw [← crosses_boundary, Point.crosses_filter p.origin p.keeps]
    rfl
  rw [(block_of_closed hends hclosed expected).1, contains_arc hvs hkept, hring, hwhole, changed,
    Point.crosses_append]
  cases p.origin.crosses (p.kept vs) <;> cases p.origin.crosses (p.dropped vs) <;>
    cases p.origin.crosses (leaps (p.kept vs)) <;> rfl

end Plan

/-! ### Each polygon by itself -/

section blocks

variable {p : Plan} {records : List BorderRecord} {b : Buffer Position} {s : Summary} {o : Outline}

/-- If at most one polygon contains the position, the search found it, and no detour is
    unresolved, then a block has the parity of its polygon if a detour closes it. Where the
    arc leads back to its beginning, it does if and only if the edges that are missing and
    the leaps in their stead have an even one. -/
theorem block_parity_iff (hnull : ∀ vs ∈ polygons records, ∀ v ∈ vs, v.isNull = false)
    (hone : (polygons records).countP (Ring.contains · p.origin) ≤ 1)
    (hreference : p.reference = Search.run p.origin records)
    (hrun : Drawing.run p records (.new b) = .ok s o) (hresolved : s.unresolved = 0) :
    o.buffer.toList = b.toList ++
        ((polygons records).zipIdx 1).flatMap (fun q => p.block (p.reference == q.2) q.1) ∧
      ∀ q ∈ (polygons records).zipIdx 1, p.retains q.1 = true →
        (Region.contains (p.block (p.reference == q.2) q.1) p.origin 0 =
            Ring.contains q.1 p.origin ↔
          p.detours q.1 = true ∨ p.origin.crosses (p.changed q.1) = false) := by
  obtain ⟨hitems, rfl⟩ := Drawing.run_new hrun
  refine ⟨hitems, ?_⟩
  rintro ⟨vs, k⟩ hq hretains
  have hraw : (p.reference == k) = Ring.contains vs p.origin := by
    rw [Bool.eq_iff_iff, beq_iff_eq, hreference, Search.run_eq]
    exact firstAround_eq_iff Nat.one_pos hone hq
  by_cases hdetours : p.detours vs = true
  · -- the detour was settled by the number that the search has found
    have hagrees := Drawing.agrees_of_resolved hresolved hq hdetours
    rw [hagrees, hraw]
    exact ⟨fun _ => .inl hdetours, fun _ => rfl⟩
  · -- the arc leads back to its beginning
    obtain ⟨first, last, hends, hclosed⟩ := Plan.exists_closed hretains hdetours
    have hvs := hnull vs (List.fst_mem_of_mem_zipIdx hq)
    show Region.contains (p.block (p.reference == k) vs) p.origin 0 = _ ↔ _
    rw [Plan.contains_block_of_closed hvs hends hclosed]
    cases Ring.contains vs p.origin <;> cases p.origin.crosses (p.changed vs) <;> simp [hdetours]

/-- Both blocks around the village have the parity of their polygons. -/
theorem block_parity_iff_village :
    ∃ s o, Drawing.run (.flat ⟨10.0, 10.0⟩ 1) villageAndCountry (.new preloaded) = .ok s o ∧
      s.unresolved = 0 ∧
      ∀ q ∈ (polygons villageAndCountry).zipIdx 1,
        Region.contains ((Plan.flat ⟨10.0, 10.0⟩ 1).block (1 == q.2) q.1) ⟨10.0, 10.0⟩ 0 =
          Ring.contains q.1 ⟨10.0, 10.0⟩ := by
  obtain ⟨s, o, hrun⟩ : ∃ s o, Drawing.run (.flat ⟨10.0, 10.0⟩ 1) villageAndCountry
      (.new preloaded) = .ok s o := Drawing.exists_of_succeeds (by decide +kernel)
  have hnull : ∀ vs ∈ polygons villageAndCountry, ∀ v ∈ vs, v.isNull = false := by decide +kernel
  have hzero : s.unresolved = 0 := by
    rw [(Drawing.run_new hrun).2]
    decide +kernel
  have hparity := (block_parity_iff hnull (by decide +kernel) (by decide +kernel) hrun hzero).2
  have heven : ∀ q ∈ (polygons villageAndCountry).zipIdx 1,
      (Plan.flat ⟨10.0, 10.0⟩ 1).retains q.1 = true ∧
        ((Plan.flat ⟨10.0, 10.0⟩ 1).detours q.1 = true ∨
          (⟨10.0, 10.0⟩ : Position).crosses ((Plan.flat ⟨10.0, 10.0⟩ 1).changed q.1) = false) := by
    decide +kernel
  refine ⟨s, o, hrun, hzero, fun q hq => ?_⟩
  exact (hparity q hq (heven q hq).1).mpr (heven q hq).2

/-- A country around (10, 15), the list of which begins in the middle of its straight
    western border. -/
def westernBorder : List Position :=
  [⟨10.0, 10.2⟩, ⟨15.0, 10.2⟩, ⟨15.0, 20.0⟩, ⟨5.0, 20.0⟩, ⟨5.0, 10.2⟩]

/-- Of the country only the two halves of its western border are within reach of a
    position just behind it. The arc leads from the middle to one end, leaps to the other,
    and back to the middle: it encloses nothing, although the country contains the
    position and nothing is unresolved. -/
theorem block_parity_lost :
    polygons (westernBorder.map .vertex) = [westernBorder] ∧
      (∀ v ∈ westernBorder, v.isNull = false ∧ v.lat.isNaN = false ∧ v.lon.isNaN = false) ∧
      Search.run ⟨10.0, 10.5⟩ (westernBorder.map .vertex) = 1 ∧
      (∃ s o, Drawing.run (.flat ⟨10.0, 10.5⟩ 1) (westernBorder.map .vertex)
          (.new (.new 16 100)) = .ok s o ∧
        s.unresolved = 0 ∧ o.buffer.toList = (Plan.flat ⟨10.0, 10.5⟩ 1).block true westernBorder) ∧
      (Plan.flat ⟨10.0, 10.5⟩ 1).retains westernBorder = true ∧
      Region.contains ((Plan.flat ⟨10.0, 10.5⟩ 1).block true westernBorder) ⟨10.0, 10.5⟩ 0 = false ∧
      Ring.contains westernBorder ⟨10.0, 10.5⟩ = true := by
  have hpolygons : polygons (westernBorder.map .vertex) = [westernBorder] := rfl
  refine ⟨hpolygons, by decide +kernel, by decide +kernel, ?_, by decide +kernel,
    by decide +kernel, by decide +kernel⟩
  obtain ⟨s, o, hrun⟩ : ∃ s o, Drawing.run (.flat ⟨10.0, 10.5⟩ 1) (westernBorder.map .vertex)
      (.new (.new 16 100)) = .ok s o := Drawing.exists_of_succeeds (by decide +kernel)
  obtain ⟨hitems, hcounts⟩ := Drawing.run_new hrun
  have hzero : s.unresolved = 0 := by
    rw [hcounts]
    decide +kernel
  refine ⟨s, o, hrun, hzero, ?_⟩
  rw [hitems, hpolygons, Buffer.toList_new, List.nil_append, Plan.blocks_singleton]
  rfl

end blocks

end Border

end Airspace

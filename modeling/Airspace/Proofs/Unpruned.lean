import Airspace.Proofs.Parity

/-! # Borders within reach

  Where no edge of a border is out of reach, an outline loses nothing: the one pass over
  the outline meets, for every polygon, the edges of the ring through the polygon, one for
  one. Edges with two equal ends are left out of an arc, but no ray meets them; and the
  edge that follows them begins, up to the signs of zeros, where the arc ends. So an arc
  goes on without a leap, and it comes back to its own beginning.

  Not-a-number is ruled out because it differs from itself: a vertex with it would not be
  found again at the end of its polygon.
-/

namespace Airspace

/-! ### Hits on blocks -/

/-- Whether an odd number of hits is spread over several parts depends on each part alone. -/
theorem odd_foldr_add {α : Type} (f : α → Nat) (xs : List α) :
    ((xs.map f).foldr (· + ·) 0 % 2 == 1) = (xs.map fun x => f x % 2 == 1).foldr xor false := by
  induction xs with
  | nil => rfl
  | cons x xs ih =>
    simp only [List.map_cons, List.foldr_cons]
    rw [odd_add, ih]

namespace Region

variable {q : Position}

/-- The hits on terminated blocks, one after the other, are counted block by block. -/
theorem sweep_flatten {blocks : List (List Position)} (h : ∀ b ∈ blocks, Terminated b) :
    sweep q none blocks.flatten = (blocks.map (sweep q none)).foldr (· + ·) 0 := by
  induction blocks with
  | nil => rfl
  | cons b blocks ih =>
    have hhead := h b List.mem_cons_self
    have htail := ih fun c hc => h c (List.mem_cons_of_mem _ hc)
    simp only [List.flatten_cons, List.map_cons, List.foldr_cons]
    rw [sweep_terminated hhead, htail]

end Region

namespace Border

/-! ### Chains of edges -/

/-- Some edges go on from a vertex as a chain: each begins where the one before it ends. -/
def Chained : Position → List Edge → Prop
  | _, [] => True
  | last, e :: es => (last == e.1) = true ∧ Chained e.2 es

/-- An arc over a chain has the ends of its edges as vertices and nothing else. -/
theorem arcAfter_of_chained {last : Position} {es : List Edge} (h : Chained last es) :
    arcAfter (some last) es = es.map Prod.snd := by
  induction es generalizing last with
  | nil => rfl
  | cons e es ih =>
    obtain ⟨hgo, hrest⟩ := h
    simp only [arcAfter, Option.any_some, hgo, ↓reduceIte, List.map_cons]
    rw [ih hrest]
    rfl

/-- The path along a chain is met where its edges are. -/
theorem countP_path_of_chained (q : Position) {last : Position} {es : List Edge}
    (h : Chained last es) :
    (path (last :: es.map Prod.snd)).countP (fun e => q.meets e.1 e.2) =
      es.countP fun e => q.meets e.1 e.2 := by
  induction es generalizing last with
  | nil => rfl
  | cons e es ih =>
    obtain ⟨hgo, hrest⟩ := h
    -- the path begins at the vertex before, the edge at one that is equal to it
    have hedge : q.meets last e.2 = q.meets e.1 e.2 :=
      Point.meets_same (Point.same_of_beq hgo) (.refl e.2)
    show ((last, e.2) :: path (e.2 :: es.map Prod.snd)).countP _ = _
    rw [List.countP_cons, List.countP_cons, ih hrest]
    simp only [hedge]

/-! ### Polygons without not-a-number -/

/-- A vertex without not-a-number is equal to itself. -/
theorem beq_self_of_not_nan {v : Position} (h : v.lat.isNaN = false ∧ v.lon.isNaN = false) :
    (v == v) = true := by
  have hself : ∀ x : Float, x.isNaN = false → (x == x) = true := by
    intro x hx
    by_contra hne
    have hnan := Double.eq_notANumber fun heq => hne (Double.beq_iff_compare.mpr heq)
    change x.toModel.unpack.isNaN = false at hx
    rw [hnan] at hx
    cases hx
  exact Bool.and_eq_true_iff.mpr ⟨hself v.lat h.1, hself v.lon h.2⟩

/-- Vertices that are the same up to the signs of zeros compare as equal, unless they are
    not equal to themselves. -/
theorem beq_of_same {a b : Position} (h : Point.Same a b) (hb : (b == b) = true) :
    (a == b) = true := by
  obtain ⟨hlat, hlon⟩ := Bool.and_eq_true_iff.mp hb
  have hlat' := h.lat.beq_eq (.refl b.lat)
  have hlon' := h.lon.beq_eq (.refl b.lon)
  exact Bool.and_eq_true_iff.mpr ⟨hlat'.trans hlat, hlon'.trans hlon⟩

theorem beq_trans {a b c : Position} (h : (a == b) = true) (h' : (b == c) = true) :
    (a == c) = true := by
  have hsame := Point.same_of_beq h
  obtain ⟨hlat, hlon⟩ := Bool.and_eq_true_iff.mp h'
  have hlat' := hsame.lat.beq_eq (.refl c.lat)
  have hlon' := hsame.lon.beq_eq (.refl c.lon)
  exact Bool.and_eq_true_iff.mpr ⟨hlat'.trans hlat, hlon'.trans hlon⟩

/-- The edges of a path, without some of those that have two equal ends, are a chain. -/
theorem chained_filter_path {f : Edge → Bool} {last w : Position} {ws : List Position}
    (hstart : (last == w) = true) (hself : ∀ v ∈ ws, (v == v) = true)
    (hidle : ∀ e ∈ path (w :: ws), f e = false → (e.1 == e.2) = true) :
    Chained last ((path (w :: ws)).filter f) := by
  induction ws generalizing last w with
  | nil => trivial
  | cons x ws ih =>
    have hself' : ∀ v ∈ ws, (v == v) = true := fun v hv => hself v (List.mem_cons_of_mem x hv)
    have hidle' : ∀ e ∈ path (x :: ws), f e = false → (e.1 == e.2) = true :=
      fun e he => hidle e (List.mem_cons_of_mem (w, x) he)
    show Chained last (((w, x) :: path (x :: ws)).filter f)
    by_cases hkeep : f (w, x) = true
    · rw [List.filter_cons_of_pos hkeep]
      exact ⟨hstart, ih (hself x List.mem_cons_self) hself' hidle'⟩
    · -- the path stays where it is
      rw [List.filter_cons_of_neg hkeep]
      have hstay := hidle (w, x) List.mem_cons_self (Bool.eq_false_iff.mpr hkeep)
      exact ih (beq_trans hstart hstay) hself' hidle'

/-- The boundary of a polygon is the path that leads once around it: it begins at the first
    vertex and ends at one that is equal to it. -/
theorem exists_route {vs : List Position} {first last : Position}
    (hends : endpoints vs = some (first, last)) (hself : ∀ v ∈ vs, (v == v) = true) :
    ∃ ws z, boundary vs = path (first :: ws) ∧ endpoints (first :: ws) = some (first, z) ∧
      (first == z) = true ∧ ∀ v ∈ first :: ws, (v == v) = true := by
  obtain ⟨ws, rfl⟩ : ∃ ws, vs = first :: ws := by
    cases vs with
    | nil => cases hends
    | cons v ws =>
      obtain ⟨rfl, -⟩ := Prod.mk.inj (Option.some.inj hends)
      exact ⟨ws, rfl⟩
  by_cases hback : (first == last) = true
  · refine ⟨ws, last, ?_, hends, hback, hself⟩
    simp [boundary, closing?, hends, bne, hback]
  · have hfirst := hself first List.mem_cons_self
    refine ⟨ws ++ [first], first, ?_, ?_, hfirst, ?_⟩
    · rw [← List.cons_append, path_concat hends]
      simp [boundary, closing?, hends, bne, hback]
    · exact endpoints_concat hends first
    · intro v hv
      rcases List.mem_append.mp (List.cons_append ▸ hv : v ∈ (first :: ws) ++ [first]) with h | h
      · exact hself v h
      · rw [List.mem_singleton.mp h]
        exact hfirst

/-- Of the boundary of a polygon a ray meets as many edges as of the ring through it. -/
theorem countP_boundary (vs : List Position) (q : Position) :
    (boundary vs).countP (fun e => q.meets e.1 e.2) = Ring.hits q vs := by
  rcases empty_or_endpoints vs with rfl | ⟨first, last, hends⟩
  · rfl
  · rw [Ring.hits, Ring.edges_eq hends, boundary, List.countP_append, List.countP_append]
    congr 1
    by_cases hback : (first == last) = true
    · have hmiss : q.meets last first = false := Point.meets_of_beq (Point.beq_symm hback)
      simp [closing?, hends, bne, hback, hmiss]
    · simp [closing?, hends, bne, hback]

/-! ### One polygon -/

namespace Plan

variable {p : Plan} {vs : List Position}

/-- Of a polygon every edge is kept, except for edges with two equal ends. -/
def KeepsAll (p : Plan) (vs : List Position) : Prop :=
  ∀ e ∈ boundary vs, p.keeps e = false → (e.1 == e.2) = true

/-- An edge is left out only for its two equal ends if no other edge is out of reach. -/
theorem keepsAll_of_within_reach
    (h : ∀ e ∈ boundary vs, (e.1 == e.2) = false →
      ¬ p.reach ≤ p.globe.distanceToSegment p.origin e.1 e.2) : p.KeepsAll vs := by
  intro e he hdrop
  by_contra hne
  have hnear := h e he (Bool.eq_false_iff.mpr hne)
  simp [keeps, hne, hnear] at hdrop

/-- The edges left out are not met. -/
theorem countP_kept (h : p.KeepsAll vs) (q : Position) :
    (p.kept vs).countP (fun e => q.meets e.1 e.2) = Ring.hits q vs := by
  rw [← countP_boundary, kept, List.countP_filter]
  apply List.countP_congr
  intro e he
  by_cases hkeep : p.keeps e = true
  · simp [hkeep]
  · have hmiss : q.meets e.1 e.2 = false :=
      Point.meets_of_beq (h e he (Bool.eq_false_iff.mpr hkeep))
    simp [hkeep, hmiss]

/-- What is kept of such a polygon is a chain that comes back to where it begins. -/
theorem kept_chained (h : p.KeepsAll vs) (hself : ∀ v ∈ vs, (v == v) = true)
    (hkept : p.kept vs ≠ []) :
    ∃ e es z, p.kept vs = e :: es ∧ Chained e.2 es ∧ arcEnds (p.kept vs) = some (e.1, z) ∧
      (e.1 == z) = true := by
  obtain ⟨first, last, hends⟩ : ∃ first last, endpoints vs = some (first, last) := by
    rcases empty_or_endpoints vs with rfl | hsome
    · exact absurd rfl hkept
    · exact hsome
  obtain ⟨ws, target, hroute, hwends, hback, hwself⟩ := exists_route hends hself
  have hidle : ∀ e ∈ path (first :: ws), p.keeps e = false → (e.1 == e.2) = true := by
    rw [← hroute]
    exact h
  have hfirst := hwself first List.mem_cons_self
  have hchain : Chained first (p.kept vs) := by
    rw [kept, hroute]
    exact chained_filter_path hfirst (fun v hv => hwself v (List.mem_cons_of_mem first hv)) hidle
  obtain ⟨a, z, harc⟩ := (empty_or_arcEnds (p.kept vs)).resolve_left hkept
  -- the last edge ends where the route does, and that is where the first edge begins
  have hlast : Point.Same z target := by
    refine (leaps_of_idle p.origin hidle hwends).2 a z ?_
    rw [← hroute]
    exact harc
  have hend : (target == target) = true := hwself target (mem_of_endpoints hwends).2
  cases hshape : p.kept vs with
  | nil => exact absurd hshape hkept
  | cons e es =>
    rw [hshape] at hchain harc
    obtain ⟨hgo, hrest⟩ := hchain
    have ha : a = e.1 := (Prod.mk.inj (Option.some.inj harc)).1.symm
    rw [ha] at harc
    have hz : (target == z) = true := Point.beq_symm (beq_of_same hlast hend)
    exact ⟨e, es, z, rfl, hrest, harc, beq_trans (Point.beq_symm hgo) (beq_trans hback hz)⟩

/-- Such a polygon needs no detour. -/
theorem not_detours_of_keepsAll (h : p.KeepsAll vs) (hself : ∀ v ∈ vs, (v == v) = true) :
    p.detours vs = false := by
  by_cases hkept : p.kept vs = []
  · exact (block_of_not_retains hkept false).2.2.1
  · obtain ⟨e, es, z, -, -, harc, hback⟩ := kept_chained h hself hkept
    simp [detours, harc, bne, hback]

/-- The pass over the block of such a polygon meets as many edges as there are to be met on
    the ring through the polygon, wherever the ray begins. -/
theorem sweep_block (h : p.KeepsAll vs) (hself : ∀ v ∈ vs, (v == v) = true)
    (hnull : ∀ v ∈ vs, v.isNull = false) (expected : Bool) (q : Position) :
    Region.sweep q none (p.block expected vs) = Ring.hits q vs := by
  rw [← countP_kept h q]
  by_cases hkept : p.kept vs = []
  · rw [(block_of_not_retains hkept expected).1, hkept]
    rfl
  · obtain ⟨e, es, z, hshape, hchain, harc, hback⟩ := kept_chained h hself hkept
    have hclosed : (e.1 != z) = false := by simp [bne, hback]
    have hvertices : p.arc vs = e.1 :: e.2 :: es.map Prod.snd := by
      rw [arc, hshape]
      show [e.1, e.2] ++ arcAfter (some e.2) es = _
      rw [arcAfter_of_chained hchain]
      rfl
    have hends : endpoints (p.arc vs) = some (e.1, z) := by
      rw [arc, endpoints_arcAfter, harc]
    have hmiss : q.meets z e.1 = false := Point.meets_of_beq (Point.beq_symm hback)
    have hnull' : ∀ v ∈ p.arc vs, v.isNull = false := fun v hv => hnull v (mem_of_mem_arc hv)
    rw [hvertices] at hnull'
    rw [(block_of_closed harc hclosed expected).1, hvertices,
      Region.sweep_ring (by decide +kernel) hnull', ← hvertices, Ring.hits, Ring.edges_eq hends,
      List.countP_append, List.countP_singleton, hmiss, hvertices, hshape]
    -- the first edge is the beginning of the path, and the others follow it
    show ((e.1, e.2) :: path (e.2 :: es.map Prod.snd)).countP _ + 0 = _
    rw [Nat.add_zero, List.countP_cons, List.countP_cons, countP_path_of_chained q hchain]

end Plan

/-! ### Whole borders -/

namespace Drawing

variable {p : Plan} {records : List BorderRecord} {b : Buffer Position} {s : Summary} {o : Outline}

/-- Where no edge is out of reach, no polygon is closed by a detour, and the outline is met
    exactly where the rings through the polygons are: from any position the ray has as many
    hits on the one as on all of the others together. So a position lies in the outline if
    an odd number of polygons contains it. -/
theorem contains_of_within_reach
    (hnull : ∀ vs ∈ polygons records, ∀ v ∈ vs, v.isNull = false)
    (hnan : ∀ vs ∈ polygons records, ∀ v ∈ vs, v.lat.isNaN = false ∧ v.lon.isNaN = false)
    (hreach : ∀ vs ∈ polygons records, ∀ e ∈ boundary vs, (e.1 == e.2) = false →
      ¬ p.reach ≤ p.globe.distanceToSegment p.origin e.1 e.2)
    (hempty : b.toList = []) (hrun : run p records (.new b) = .ok s o) :
    s.closed = 0 ∧ ∀ q : Position,
      Region.sweep q none o.buffer.toList = ((polygons records).map (Ring.hits q)).foldr (· + ·) 0 ∧
      Region.contains o.buffer.toList q 0 =
        ((polygons records).map (Ring.contains · q)).foldr xor false := by
  obtain ⟨hitems, rfl⟩ := run_new hrun
  rw [hempty, List.nil_append] at hitems
  have hself : ∀ vs ∈ polygons records, ∀ v ∈ vs, (v == v) = true :=
    fun vs hvs v hv => beq_self_of_not_nan (hnan vs hvs v hv)
  have hall : ∀ vs ∈ polygons records, p.KeepsAll vs :=
    fun vs hvs => Plan.keepsAll_of_within_reach (hreach vs hvs)
  have hterminated : ∀ block ∈ ((polygons records).zipIdx 1).map
      (fun n => p.block (p.reference == n.2) n.1), Region.Terminated block := by
    intro block hmem
    obtain ⟨n, -, rfl⟩ := List.mem_map.mp hmem
    exact Plan.terminated_block p _ n.1
  -- block by block, the numbers of the polygons do not matter
  have hhits : ∀ q : Position, Region.sweep q none (p.blocks (polygons records)) =
      ((polygons records).map (Ring.hits q)).foldr (· + ·) 0 := by
    intro q
    have hblock : ∀ n ∈ (polygons records).zipIdx 1,
        Region.sweep q none (p.block (p.reference == n.2) n.1) = Ring.hits q n.1 := by
      intro n hn
      have hvs := List.fst_mem_of_mem_zipIdx hn
      exact Plan.sweep_block (hall n.1 hvs) (hself n.1 hvs) (hnull n.1 hvs) _ q
    rw [Plan.blocks, List.flatMap_def, Region.sweep_flatten hterminated, List.map_map]
    show (((polygons records).zipIdx 1).map
      fun n => Region.sweep q none (p.block (p.reference == n.2) n.1)).foldr (· + ·) 0 = _
    rw [List.map_congr_left hblock]
    conv_rhs => rw [← List.zipIdx_map_fst 1 (polygons records), List.map_map]
    rfl
  refine ⟨?_, fun q => ?_⟩
  · show (polygons records).countP p.detours = 0
    rw [List.countP_eq_zero]
    intro vs hvs
    rw [Plan.not_detours_of_keepsAll (hall vs hvs) (hself vs hvs)]
    exact Bool.false_ne_true
  · rw [hitems]
    refine ⟨hhits q, ?_⟩
    have hparity : Region.contains (p.blocks (polygons records)) q 0 =
        (Region.sweep q none (p.blocks (polygons records)) % 2 == 1) := by
      by_cases hnil : p.blocks (polygons records) = []
      · rw [hnil]
        rfl
      · exact Region.contains_eq (Plan.three_le_length_blocks hnil) q
    rw [hparity, hhits q, odd_foldr_add]
    rfl

/-- A border around (10, 10) whose list repeats a vertex, one of a single place, one of two,
    and delimiters with nothing between them. The first polygon leads back to its first
    vertex by itself, the others do not. -/
def hamlets : List BorderRecord :=
  [.delimiter, .vertex ⟨9.9, 9.9⟩, .vertex ⟨9.9, 9.9⟩, .vertex ⟨9.9, 10.1⟩, .vertex ⟨10.1, 10.1⟩,
    .vertex ⟨10.1, 9.9⟩, .vertex ⟨9.9, 9.9⟩, .delimiter, .delimiter, .vertex ⟨10.2, 10.0⟩,
    .delimiter, .vertex ⟨10.0, 9.8⟩, .vertex ⟨10.3, 10.2⟩, .delimiter, .vertex ⟨10.0, 9.8⟩,
    .vertex ⟨10.3, 9.8⟩, .vertex ⟨10.3, 10.2⟩, .vertex ⟨10.0, 10.2⟩]

/-- The position lies in the first hamlet and in the last one, and so not in the outline. -/
theorem contains_of_within_reach_hamlets :
    ∃ s o, run (.flat ⟨10.0, 10.0⟩ 1) hamlets (.new (.new 16 100)) = .ok s o ∧ s.closed = 0 ∧
      (polygons hamlets).map (Ring.contains · ⟨10.05, 10.0⟩) = [true, false, false, true] ∧
      Region.contains o.buffer.toList ⟨10.05, 10.0⟩ 0 = false := by
  obtain ⟨s, o, hrun⟩ : ∃ s o, run (.flat ⟨10.0, 10.0⟩ 1) hamlets (.new (.new 16 100)) =
      .ok s o := exists_of_succeeds (by decide +kernel)
  obtain ⟨hclosed, hcontains⟩ := contains_of_within_reach (by decide +kernel) (by decide +kernel)
    (by decide +kernel) (Buffer.toList_new 16 100) hrun
  have hrings : (polygons hamlets).map (Ring.contains · ⟨10.05, 10.0⟩) =
      [true, false, false, true] := by decide +kernel
  refine ⟨s, o, hrun, hclosed, hrings, ?_⟩
  rw [(hcontains ⟨10.05, 10.0⟩).2, hrings]
  rfl

end Drawing

end Border

end Airspace

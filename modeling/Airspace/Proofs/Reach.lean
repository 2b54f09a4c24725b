import Airspace.Proofs.Atomicity
import Airspace.Proofs.Order

/-! # What is within reach

  Of airports and prisons a load keeps those whose distance is below the reach. Of border edges
  it drops those whose distance is not: as far as distances are ordered, the two rules say
  the same. But a table may list not-a-number for a place, and the reach may be not-a-number
  itself. Then an airport or a prison is not kept, and a border edge is.
-/

namespace Airspace

open Border

/-! ### What cannot be compared -/

namespace Double

variable {a b : Float}

/-- Not-a-number alone has no place in the order. -/
theorem isNaN_iff_rank : a.isNaN = true ↔ rank? a.toModel.unpack = none := by
  show a.toModel.unpack.isNaN = true ↔ _
  cases a.toModel.unpack with
  | notANumber => exact iff_of_true rfl rfl
  | zero s => exact iff_of_false Bool.false_ne_true (Option.some_ne_none _)
  | infinity s => cases s <;> exact iff_of_false Bool.false_ne_true (Option.some_ne_none _)
  | finite s m e h => cases s <;> exact iff_of_false Bool.false_ne_true (Option.some_ne_none _)

/-- Nothing is below not-a-number. -/
theorem not_lt_nan (h : b.isNaN = true) : ¬ a < b := by
  rw [lt_iff_rank, isNaN_iff_rank.mp h]
  rintro ⟨x, y, -, hy, -⟩
  cases hy

/-- Of two doubles that are not in order one is not-a-number. -/
theorem not_le_iff : ¬ a ≤ b ↔ b < a ∨ a.isNaN = true ∨ b.isNaN = true := by
  rw [le_iff_rank, lt_iff_rank, isNaN_iff_rank, isNaN_iff_rank]
  cases rank? a.toModel.unpack with
  | none => simp
  | some x =>
    cases rank? b.toModel.unpack with
    | none => simp
    | some y => simp

end Double

namespace Border.Plan

variable {p : Plan} {ps qs : List (List Position)} {vs : List Position} {e : Edge} {v : Position}

/-! ### Edges -/

/-- How far away an edge is. -/
def distanceTo (p : Plan) (e : Edge) : Float := p.globe.distanceToSegment p.origin e.1 e.2

/-- An edge between different ends is kept if its distance is below the reach, and also if the
    two cannot be compared. -/
theorem keeps_iff : p.keeps e = true ↔ (e.1 == e.2) = false ∧
    (p.distanceTo e < p.reach ∨ (p.distanceTo e).isNaN = true ∨ p.reach.isNaN = true) := by
  have hkeeps : p.keeps e = true ↔ (e.1 == e.2) = false ∧ ¬ p.reach ≤ p.distanceTo e := by
    simp [keeps, distanceTo]
  rw [hkeeps, Double.not_le_iff, or_comm (a := p.reach.isNaN = true)]

/-! ### Vertices -/

/-- A vertex that a plan may show of polygons: a separator, an end of an edge that is kept, or
    a place of the detour that closes an arc between two such ends. -/
def Shows (p : Plan) (ps : List (List Position)) (v : Position) : Prop :=
  v = .null ∨ ∃ vs ∈ ps, ∃ e ∈ p.kept vs, v = e.1 ∨ v = e.2 ∨ ∃ e' ∈ p.kept vs,
    let d := p.detourFor e.1 e'.2
    v = d.beyondFirst ∨ v = d.beyondLast ∨ v = d.pivot ∨ v = d.opposite

theorem Shows.mono (h : p.Shows ps v) (hsub : ∀ vs ∈ ps, vs ∈ qs) : p.Shows qs v := by
  rcases h with hnull | ⟨vs, hvs, hrest⟩
  · exact .inl hnull
  · exact .inr ⟨vs, hsub vs hvs, hrest⟩

theorem shows_of_mem_arc {last : Option Position} {es : List Edge} (hsub : ∀ e ∈ es, e ∈ p.kept vs)
    (hvs : vs ∈ ps) (h : v ∈ arcAfter last es) : p.Shows ps v := by
  obtain ⟨e, he, hend⟩ := mem_arcAfter h
  refine .inr ⟨vs, hvs, e, hsub e he, ?_⟩
  rcases hend with hfirst | hlast
  · exact .inl hfirst
  · exact .inr (.inl hlast)

/-- An arc begins with one kept edge and ends with one. -/
theorem exists_edges_of_arcEnds {first last : Position}
    (h : arcEnds (p.kept vs) = some (first, last)) :
    ∃ e ∈ p.kept vs, ∃ e' ∈ p.kept vs, first = e.1 ∧ last = e'.2 := by
  obtain ⟨⟨e, e'⟩, hends, heq⟩ := Option.map_eq_some_iff.mp h
  obtain ⟨rfl, rfl⟩ := Prod.mk.inj heq
  obtain ⟨he, he'⟩ := mem_of_endpoints hends
  exact ⟨e, he, e', he', rfl, rfl⟩

/-- What closes an arc is shown, on whichever side the pivot is. -/
theorem shows_of_mem_closing {first last : Position} (hvs : vs ∈ ps)
    (hends : arcEnds (p.kept vs) = some (first, last))
    (h : v ∈ (p.detourFor first last).closing first ∨
      v ∈ (p.detourFor first last).turned.closing first) : p.Shows ps v := by
  obtain ⟨e, he, e', he', rfl, rfl⟩ := exists_edges_of_arcEnds hends
  simp only [Detour.closing, Detour.turned, List.mem_cons, List.not_mem_nil, or_false] at h
  by_cases hnull : v = .null
  · exact .inl hnull
  · by_cases hfirst : v = e.1
    · exact .inr ⟨vs, hvs, e, he, .inl hfirst⟩
    · refine .inr ⟨vs, hvs, e, he, .inr (.inr ⟨e', he', ?_⟩)⟩
      simp only [hnull, hfirst, or_false] at h
      show v = _ ∨ v = _ ∨ v = _ ∨ v = _
      tauto

/-- A block shows nothing but what its polygon gives. -/
theorem shows_of_mem_block {expected : Bool} (hvs : vs ∈ ps) (h : v ∈ p.block expected vs) :
    p.Shows ps v := by
  have harc : v ∈ p.arc vs → p.Shows ps v := shows_of_mem_arc (fun _ he => he) hvs
  rcases p.kinds vs with hkept | ⟨first, last, hends, hclosed⟩ | ⟨first, last, hends, hopen⟩
  · rw [(block_of_not_retains hkept expected).1] at h
    cases h
  · rw [(block_of_closed hends hclosed expected).1] at h
    rcases List.mem_append.mp h with hin | hnull
    · exact harc hin
    · exact .inl (List.mem_singleton.mp hnull)
  · rw [(block_of_open hends hopen expected).1] at h
    split at h
    · rcases List.mem_append.mp h with hin | hclosing
      · exact harc hin
      · exact shows_of_mem_closing hvs hends (.inr hclosing)
    · rcases List.mem_append.mp h with hin | hclosing
      · exact harc hin
      · exact shows_of_mem_closing hvs hends (.inl hclosing)

theorem shows_of_mem_blocks (h : v ∈ p.blocks ps) : p.Shows ps v := by
  obtain ⟨⟨vs, k⟩, hmem, hv⟩ := List.mem_flatMap.mp h
  exact shows_of_mem_block (List.fst_mem_of_mem_zipIdx hmem) hv

/-- An outline that is cut off shows nothing but what a whole one may. -/
theorem shows_of_cut {left : List Position} (hcut : Drawing.Cut p ps left) (h : v ∈ left) :
    p.Shows ps v := by
  obtain ⟨done, rest, es, rfl, hprefix, rfl⟩ := hcut
  rcases List.mem_append.mp h with hdone | harc
  · exact (shows_of_mem_blocks hdone).mono fun vs hvs => List.mem_append_left rest hvs
  · cases rest with
    | nil =>
      -- without a polygon in progress there are no edges
      obtain rfl : es = [] := List.prefix_nil.mp hprefix
      cases harc
    | cons ws rest =>
      exact shows_of_mem_arc (fun e he => hprefix.subset he)
        (List.mem_append_right done List.mem_cons_self) harc

end Border.Plan

/-! ### Tables -/

namespace Load.Basis

variable {b : Basis} {h h' : Holdings} {t : Table} {fault : LoadFault}

/-- A load comes to a table if it is checked and no table before it is at fault. -/
def ComesTo (b : Basis) (t : Table) : Prop :=
  b.config.checks t = true ∧ ∀ u, u.rank < t.rank → b.config.checks u = true → b.fault? u = none

/-- What is kept of a table is within reach: airports and prisons themselves, and of borders the
    edges whose ends are shown. -/
def Within (b : Basis) (h : Holdings) : Table → Prop
  | .airports => ∀ a ∈ h.airports.toList,
      b.globe.distance b.origin a.position < b.config.reach
  | .countries => ∀ v ∈ h.countries.toList, b.borderPlan.Shows (polygons b.volume.border) v
  | .prisons => ∀ p ∈ h.prisons.toList, b.globe.distance b.origin p < b.config.reach

theorem reached_of_mem_airports {a : Airport} (ha : a ∈ b.airports) :
    b.globe.distance b.origin a.position < b.config.reach := by
  obtain ⟨line, -, hrecord⟩ := List.mem_filterMap.mp ha
  exact of_decide_eq_true (Option.filter_eq_some_iff.mp hrecord).2

theorem reached_of_mem_prisons {p : Position} (hp : p ∈ b.prisons) :
    b.globe.distance b.origin p < b.config.reach := by
  obtain ⟨line, -, hrecord⟩ := List.mem_filterMap.mp hp
  exact of_decide_eq_true (Option.filter_eq_some_iff.mp hrecord).2

theorem Loaded.within (hloaded : b.Loaded h t) : b.Within h t := by
  cases t with
  | airports =>
    intro a ha
    rw [show h.airports.toList = _ from hloaded] at ha
    exact reached_of_mem_airports ha
  | countries =>
    intro v hv
    rw [hloaded.1] at hv
    exact Plan.shows_of_mem_blocks hv
  | prisons =>
    intro p hp
    rw [show h.prisons.toList = _ from hloaded] at hp
    exact reached_of_mem_prisons hp

theorem Begun.within (hbegun : b.Begun h t) : b.Within h t := by
  cases t with
  | airports =>
    intro a ha
    rw [show h.airports.toList = _ from hbegun] at ha
    exact reached_of_mem_airports (List.mem_of_mem_take ha)
  | countries => exact fun v hv => Plan.shows_of_cut hbegun hv
  | prisons =>
    intro p hp
    rw [show h.prisons.toList = _ from hbegun] at hp
    exact reached_of_mem_prisons (List.mem_of_mem_take hp)

/-- A table that a load is done with is within reach if the load has come to it, and has not
    changed otherwise. -/
theorem Settled.within (hsettled : b.Settled h h' t)
    (hbefore : ∀ u, u.rank < t.rank → b.Settled h h' u) :
    (b.ComesTo t → b.Within h' t) ∧ (¬ b.ComesTo t → h.SameOf h' t) := by
  unfold Settled at hsettled
  constructor
  · rintro ⟨hchecked, -⟩
    rw [if_pos hchecked] at hsettled
    exact hsettled.2.within
  · intro hnot
    -- no table before this one is at fault, so this one is not checked
    have hunchecked : ¬ b.config.checks t = true := by
      refine fun hchecked => hnot ⟨hchecked, fun u hrank hu => ?_⟩
      have hdone := hbefore u hrank
      rw [Settled, if_pos hu] at hdone
      exact hdone.1
    rwa [if_neg hunchecked] at hsettled

/-- A load that has come to its end. -/
theorem Reached.within (hreached : b.Reached 3 h h') (t : Table) :
    (b.ComesTo t → b.Within h' t) ∧ (¬ b.ComesTo t → h.SameOf h' t) := by
  have hall : ∀ u, b.Settled h h' u := fun u => hreached.settled u (by cases u <;> decide)
  exact (hall t).within fun u _ => hall u

/-- A load that was stopped: what the table at fault has let in is within reach as well. -/
theorem Stopped.within (hstopped : b.Stopped t h h' fault) (u : Table) :
    (b.ComesTo u → b.Within h' u) ∧ (¬ b.ComesTo u → h.SameOf h' u) := by
  have hbefore : ∀ w, w.rank < t.rank → b.config.checks w = true → b.fault? w = none := by
    intro w hrank hw
    have hdone := hstopped.settled w hrank
    rw [Settled, if_pos hw] at hdone
    exact hdone.1
  rcases Nat.lt_trichotomy u.rank t.rank with hlt | heq | hgt
  · exact (hstopped.settled u hlt).within fun w hw => hstopped.settled w (Nat.lt_trans hw hlt)
  · obtain rfl := Table.eq_of_rank_eq heq
    exact ⟨fun _ => hstopped.begun.within, fun hnot => absurd ⟨hstopped.checked, hbefore⟩ hnot⟩
  · refine ⟨fun hcomes => ?_, fun _ => hstopped.same u hgt⟩
    -- the table at fault stands before this one
    have hnone := hcomes.2 t hgt hstopped.checked
    rw [hstopped.fault_eq] at hnone
    cases hnone

end Load.Basis

namespace Guard

/-- What an ingestion keeps, whatever the guard was told before and whether it succeeds or
    fails. Of a table that it comes to, all airports and prisons are nearer than the reach, and
    all vertices belong to border edges that are kept; other tables do not change. An edge is
    kept if its ends differ and it is nearer than the reach, and also if its distance or the
    reach is not-a-number. -/
theorem ingest_within_reach (globe : Globe) (c : Config) (run : List (Volume × Command))
    (v : Volume) :
    let g := (new globe c).after run
    let b : Load.Basis := ⟨globe, c, v, g.position⟩
    let h := (g.ingest v).1.holdings
    (∀ t, (b.ComesTo t → b.Within h t) ∧ (¬ b.ComesTo t → g.holdings.SameOf h t)) ∧
      ∀ vs e, e ∈ b.borderPlan.kept vs ↔ e ∈ boundary vs ∧ (e.1 == e.2) = false ∧
        (b.borderPlan.distanceTo e < c.reach ∨ (b.borderPlan.distanceTo e).isNaN = true ∨
          c.reach.isNaN = true) := by
  intro g b h
  have hfit : g.Fit c := (fit_new globe c).after run
  have hbasis : g.basis v = b := basis_after globe c run v
  constructor
  · rcases ingestion_outcome (v := v) hfit.sound_config with
      ⟨report, -, hreached, -⟩ | ⟨fault, t, -, hstopped⟩
    · rw [hbasis] at hreached
      exact hreached.within
    · rw [hbasis] at hstopped
      exact hstopped.within
  · intro vs e
    show e ∈ (boundary vs).filter _ ↔ _
    rw [List.mem_filter, Plan.keeps_iff]
    rfl

/-- The airports are left alone where they are not checked. Of the square all edges are kept,
    since the reach is not-a-number. Where airports and prisons are checked and the reach is a
    number, two airports and a prison are kept, all of them within reach, and one of each is
    not. -/
theorem ingest_within_reach_square :
    let g := (new .sphere (cramped 6)).after arrival
    let b : Load.Basis := ⟨.sphere, cramped 6, square, g.position⟩
    let h := (g.ingest square).1.holdings
    let g' := (new .flat fieldConfig).after landing
    let b' : Load.Basis := ⟨.flat, fieldConfig, threeFields, g'.position⟩
    let h' := (g'.ingest threeFields).1.holdings
    (h.airports = g.holdings.airports ∧ b.Within h .countries ∧
        b.borderPlan.kept [⟨1.0, 1.0⟩, ⟨5.0, 1.0⟩] = boundary [⟨1.0, 1.0⟩, ⟨5.0, 1.0⟩]) ∧
      b'.Within h' .airports ∧ b'.Within h' .prisons ∧ h'.countries = g'.holdings.countries ∧
        h'.airports.toList.map Airport.category = [.smallAirport, .largeAirport] ∧
        h'.prisons.toList.map Point.lat = [10.005] := by
  intro g b h g' b' h'
  obtain ⟨htables, hedges⟩ := ingest_within_reach .sphere (cramped 6) arrival square
  obtain ⟨htables', -⟩ := ingest_within_reach .flat fieldConfig landing threeFields
  have hairports : b'.ComesTo .airports := by
    refine ⟨rfl, fun u hrank _ => ?_⟩
    cases u <;> exact absurd hrank (by decide)
  have hprisons : b'.ComesTo .prisons := by
    refine ⟨rfl, fun u hrank hchecked => ?_⟩
    cases u with
    | airports => decide +kernel
    | countries => cases hchecked
    | prisons => exact absurd hrank (Nat.lt_irrefl _)
  refine ⟨⟨(htables .airports).2 fun hcomes => absurd hcomes.1 (by decide),
    (htables .countries).1 ⟨by decide, ?_⟩, ?_⟩, (htables' .airports).1 hairports,
    (htables' .prisons).1 hprisons,
    ((htables' .countries).2 fun hcomes => absurd hcomes.1 (by decide)).1, ?_, ?_⟩
  · intro u hrank hchecked
    cases u with
    | airports => cases hchecked
    | countries => exact absurd hrank (Nat.lt_irrefl _)
    | prisons => exact absurd hrank (by decide)
  · refine List.filter_eq_self.mpr fun e he => ?_
    have hends : ∀ e ∈ boundary [⟨1.0, 1.0⟩, ⟨5.0, 1.0⟩], (e.1 == e.2) = false := by
      decide +kernel
    have hkept := (hedges _ e).mpr ⟨he, hends e he, .inr (.inr (by decide +kernel))⟩
    exact (List.mem_filter.mp hkept).2
  · decide +kernel
  · decide +kernel

/-- With a reach that is not-a-number nothing is nearer than the reach, and the square is
    kept whole nevertheless. -/
theorem ingest_keeps_incomparable :
    let g := (new .sphere (cramped 6)).after arrival
    let b := g.basis square
    let corners : List Position := [⟨1.0, 1.0⟩, ⟨5.0, 1.0⟩, ⟨5.0, 5.0⟩, ⟨1.0, 5.0⟩]
    (∀ p, b.reaches p = false) ∧
      (∀ e ∈ b.borderPlan.kept corners, ¬ b.borderPlan.distanceTo e < b.config.reach) ∧
      (polygons square.border == [corners]) = true ∧ (b.borderPlan.kept corners).length = 4 ∧
      ((g.ingest square).1.holdings.countries.toList ==
        [⟨1.0, 1.0⟩, ⟨5.0, 1.0⟩, ⟨5.0, 5.0⟩, ⟨1.0, 5.0⟩, ⟨1.0, 1.0⟩, .null]) = true := by
  intro g b corners
  have hnan : b.config.reach.isNaN = true := by decide +kernel
  refine ⟨fun p => decide_eq_false (Double.not_lt_nan hnan), fun e _ => Double.not_lt_nan hnan,
    ?_, ?_, ?_⟩ <;> decide +kernel

end Guard

end Airspace

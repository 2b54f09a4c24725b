import Mathlib.Data.List.Induction
import Airspace.Border.Outline
import Airspace.Proofs.Stream
import Airspace.Proofs.Sweep

/-! # Blocks

  What an outline keeps of one polygon is a block of vertices: the arc over the edges
  within reach, and what closes it. A block depends on the polygon, on the plan, and on
  whether the polygon is expected to contain the position, but on nothing else: not on
  the other polygons, not on what is in the buffer, and not on the number of the
  reference. So it can be written out by its vertices alone.
-/

namespace Airspace.Border

/-! ### Arcs -/

/-- The vertices of an arc that goes on from `last` over some edges: the end of each, and
    its beginning before it unless the arc ends there already. -/
def arcAfter : Option Position → List Edge → List Position
  | _, [] => []
  | last, e :: es =>
    (if last.any (· == e.1) then [e.2] else [e.1, e.2]) ++ arcAfter (some e.2) es

/-- Where an arc over some edges begins and ends. -/
def arcEnds (es : List Edge) : Option (Position × Position) :=
  (endpoints es).map fun q => (q.1.1, q.2.2)

@[simp] theorem arcEnds_nil : arcEnds [] = none := rfl

/-- An arc has two ends unless it is empty. -/
theorem empty_or_arcEnds (es : List Edge) :
    es = [] ∨ ∃ first last, arcEnds es = some (first, last) := by
  rcases empty_or_endpoints es with rfl | ⟨d, d', hends⟩
  · exact .inl rfl
  · refine .inr ⟨d.1, d'.2, ?_⟩
    rw [arcEnds, hends]
    rfl

theorem ne_nil_of_arcEnds {es : List Edge} {ends : Position × Position}
    (h : arcEnds es = some ends) : es ≠ [] := by
  intro hnil
  rw [hnil] at h
  cases h

/-- One more edge is where an arc ends. -/
theorem arcEnds_concat {es : List Edge} {first last : Position}
    (h : arcEnds es = some (first, last)) (e : Edge) :
    arcEnds (es ++ [e]) = some (first, e.2) := by
  obtain ⟨⟨d, d'⟩, hends, heq⟩ := Option.map_eq_some_iff.mp h
  obtain ⟨rfl, -⟩ := Prod.mk.inj heq
  rw [arcEnds, endpoints_concat hends]
  rfl

/-- An arc over one edge more, which may go on where the arc ends. -/
theorem arcAfter_concat (es : List Edge) (e : Edge) :
    arcAfter none (es ++ [e]) = arcAfter none es ++
      (if (arcEnds es).any (·.2 == e.1) then [e.2] else [e.1, e.2]) := by
  -- the induction takes edges from the beginning, so the arc goes on from anywhere
  have hafter : ∀ (d : Edge) (es : List Edge), arcAfter (some d.2) (es ++ [e]) =
      arcAfter (some d.2) es ++
        (if (arcEnds (d :: es)).any (·.2 == e.1) then [e.2] else [e.1, e.2]) := by
    intro d es
    induction es generalizing d with
    | nil =>
      show (if (some d.2).any (· == e.1) then [e.2] else [e.1, e.2]) ++ [] = _
      rw [List.append_nil]
      rfl
    | cons c es ih =>
      have hlast : (arcEnds (d :: c :: es)).any (·.2 == e.1) =
          (arcEnds (c :: es)).any (·.2 == e.1) := by
        rw [arcEnds, endpoints_cons_cons]
        rfl
      rw [List.cons_append, arcAfter, arcAfter, ih c, hlast, List.append_assoc]
  cases es with
  | nil => rfl
  | cons d es =>
    rw [List.cons_append, arcAfter, arcAfter, hafter, List.append_assoc]

/-- An arc begins and ends with its edges. -/
theorem endpoints_arcAfter (es : List Edge) : endpoints (arcAfter none es) = arcEnds es := by
  induction es using List.reverseRecOn with
  | nil => rfl
  | append_singleton es e ih =>
    rw [arcAfter_concat]
    rcases empty_or_arcEnds es with rfl | ⟨first, last, hends⟩
    · rfl
    · rw [hends] at ih
      rw [arcEnds_concat hends, hends, Option.any_some]
      by_cases hgo : (last == e.1) = true
      · rw [if_pos hgo, endpoints_concat ih]
      · -- the arc leaps to the beginning of the edge and goes on to its end
        have hstep := endpoints_concat ih e.1
        rw [if_neg hgo, List.append_cons, endpoints_concat hstep]

/-- The vertices of an arc are ends of its edges. -/
theorem mem_arcAfter {last : Option Position} {es : List Edge} {v : Position}
    (h : v ∈ arcAfter last es) : ∃ e ∈ es, v = e.1 ∨ v = e.2 := by
  induction es generalizing last with
  | nil => cases h
  | cons e es ih =>
    rcases List.mem_append.mp h with hhead | htail
    · refine ⟨e, List.mem_cons_self, ?_⟩
      by_cases hgo : last.any (· == e.1) = true
      · rw [if_pos hgo] at hhead
        exact .inr (List.mem_singleton.mp hhead)
      · rw [if_neg hgo] at hhead
        simpa using hhead
    · obtain ⟨d, hd, hv⟩ := ih htail
      exact ⟨d, List.mem_cons_of_mem _ hd, hv⟩

/-- An arc over at least one edge has at least two vertices. -/
theorem two_le_length_arcAfter {es : List Edge} (h : es ≠ []) :
    2 ≤ (arcAfter none es).length := by
  cases es with
  | nil => exact absurd rfl h
  | cons e es =>
    show 2 ≤ ([e.1, e.2] ++ arcAfter (some e.2) es).length
    rw [List.length_append]
    exact Nat.le_add_right 2 _

/-! ### Detours -/

/-- The detour on the opposite side. -/
def Detour.turned (d : Detour) : Detour := { d with pivot := d.opposite }

/-- The pivot of a detour is the second vertex after the arc that it closes. -/
theorem Detour.pivot_index (d : Detour) (arc : List Position) (first : Position) :
    (arc ++ d.closing first).length - pivotFromEnd = arc.length + 1 := by
  rw [List.length_append]
  show arc.length + 5 - 4 = arc.length + 1
  omega

/-- The pivot of a detour on the opposite side is the only vertex of it that moves. -/
theorem Detour.set_pivot (d : Detour) (arc : List Position) (first : Position) :
    (arc ++ d.closing first).set ((arc ++ d.closing first).length - pivotFromEnd) d.opposite =
      arc ++ d.turned.closing first := by
  rw [pivot_index, List.set_append_right _ _ (Nat.le_add_right _ 1), Nat.add_sub_cancel_left]
  rfl

/-- Where the pivot of a detour stands in an arc that it closes. -/
theorem Detour.getElem?_pivot (d : Detour) (arc : List Position) (first : Position) :
    (arc ++ d.closing first)[(arc ++ d.closing first).length - pivotFromEnd]? = some d.pivot := by
  rw [pivot_index, List.getElem?_append_right (Nat.le_add_right _ 1), Nat.add_sub_cancel_left]
  rfl

/-! ### One polygon -/

namespace Plan

/-- The edges of a polygon within reach. -/
def kept (p : Plan) (vs : List Position) : List Edge := (boundary vs).filter p.keeps

/-- The edges of a polygon out of reach, or with two equal ends. -/
def dropped (p : Plan) (vs : List Position) : List Edge :=
  (boundary vs).filter fun e => !p.keeps e

/-- The arc over the kept edges of a polygon. -/
def arc (p : Plan) (vs : List Position) : List Position := arcAfter none (p.kept vs)

/-- Whether an edge of a polygon is kept. -/
def retains (p : Plan) (vs : List Position) : Bool := !(p.kept vs).isEmpty

/-- Whether what is kept of a polygon has to be closed by a detour. -/
def detours (p : Plan) (vs : List Position) : Bool :=
  (arcEnds (p.kept vs)).any fun ends => ends.1 != ends.2

/-- The arc of a polygon closed by the detour over a pivot on the first side. -/
def forward (p : Plan) (vs : List Position) (first last : Position) : List Position :=
  p.arc vs ++ (p.detourFor first last).closing first

/-- The arc of a polygon closed by the detour over the opposite pivot. -/
def backward (p : Plan) (vs : List Position) (first last : Position) : List Position :=
  p.arc vs ++ (p.detourFor first last).turned.closing first

/-- Whether the detour of a polygon has to be turned, since the arc that it closes on the
    first side is not as expected about containing the position. -/
def turns (p : Plan) (expected : Bool) (vs : List Position) : Bool :=
  (arcEnds (p.kept vs)).any fun ends =>
    ends.1 != ends.2 && Region.contains (p.forward vs ends.1 ends.2) p.origin 0 != expected

/-- What an outline keeps of a polygon that is `expected`, or not, to contain the
    position. -/
def block (p : Plan) (expected : Bool) (vs : List Position) : List Position :=
  match arcEnds (p.kept vs) with
  | none => []
  | some (first, last) =>
    if first != last then
      if p.turns expected vs then p.backward vs first last else p.forward vs first last
    else p.arc vs ++ [.null]

/-- Whether a polygon is not as expected although its detour was turned. -/
def misses (p : Plan) (expected : Bool) (vs : List Position) : Bool :=
  p.turns expected vs && Region.contains (p.block expected vs) p.origin 0 != expected

variable {p : Plan} {vs : List Position} {first last : Position}

/-! ### The three kinds of blocks -/

/-- Nothing is kept of a polygon, or an arc that leads back to its beginning, or one that
    does not. -/
theorem kinds (p : Plan) (vs : List Position) : p.kept vs = [] ∨
    (∃ first last, arcEnds (p.kept vs) = some (first, last) ∧ (first != last) = false) ∨
    ∃ first last, arcEnds (p.kept vs) = some (first, last) ∧ (first != last) = true := by
  rcases empty_or_arcEnds (p.kept vs) with hkept | ⟨first, last, hends⟩
  · exact .inl hkept
  · by_cases hopen : (first != last) = true
    · exact .inr (.inr ⟨first, last, hends, hopen⟩)
    · exact .inr (.inl ⟨first, last, hends, Bool.eq_false_iff.mpr hopen⟩)

theorem retains_iff : p.retains vs = true ↔ p.kept vs ≠ [] := by
  rw [retains, Bool.not_eq_true', List.isEmpty_eq_false_iff]

/-- Where no edge is kept, there is no block. -/
theorem block_of_not_retains (h : p.kept vs = []) (expected : Bool) :
    p.block expected vs = [] ∧ p.retains vs = false ∧ p.detours vs = false ∧
      p.turns expected vs = false := by
  simp [block, retains, detours, turns, h]

/-- Where the arc leads back to its beginning, a separator ends it. -/
theorem block_of_closed (hends : arcEnds (p.kept vs) = some (first, last))
    (h : (first != last) = false) (expected : Bool) :
    p.block expected vs = p.arc vs ++ [.null] ∧ p.retains vs = true ∧ p.detours vs = false ∧
      p.turns expected vs = false := by
  have hkept : p.kept vs ≠ [] := ne_nil_of_arcEnds hends
  refine ⟨?_, retains_iff.mpr hkept, ?_, ?_⟩ <;> simp [block, detours, turns, hends, h]

/-- Any other arc is closed by a detour, on the opposite side if it turns. -/
theorem block_of_open (hends : arcEnds (p.kept vs) = some (first, last))
    (h : (first != last) = true) (expected : Bool) :
    p.block expected vs =
        (if p.turns expected vs then p.backward vs first last else p.forward vs first last) ∧
      p.retains vs = true ∧ p.detours vs = true ∧
      p.turns expected vs = (Region.contains (p.forward vs first last) p.origin 0 != expected) := by
  have hkept : p.kept vs ≠ [] := ne_nil_of_arcEnds hends
  refine ⟨?_, retains_iff.mpr hkept, ?_, ?_⟩
  · simp only [block, hends, h, ↓reduceIte]
  · simp only [detours, hends, Option.any_some, h]
  · simp only [turns, hends, Option.any_some, h, Bool.true_and]

/-- A polygon closed by a detour is one whose arc has two different ends. -/
theorem detours_iff : p.detours vs = true ↔
    ∃ first last, arcEnds (p.kept vs) = some (first, last) ∧ (first != last) = true := by
  rw [detours, Option.any_eq_true_iff_get]
  constructor
  · rintro ⟨hsome, hne⟩
    exact ⟨_, _, (Option.some_get hsome).symm, hne⟩
  · rintro ⟨first, last, hends, hne⟩
    refine ⟨by rw [hends]; rfl, ?_⟩
    simp only [hends, Option.get_some]
    exact hne

/-- Any other polygon of which an edge is kept is one whose arc leads back to its
    beginning. -/
theorem exists_closed (h : p.retains vs = true) (h' : ¬ p.detours vs = true) :
    ∃ first last, arcEnds (p.kept vs) = some (first, last) ∧ (first != last) = false := by
  rcases p.kinds vs with hkept | ⟨first, last, hends, hclosed⟩ | ⟨first, last, hends, hopen⟩
  · exact absurd hkept (retains_iff.mp h)
  · exact ⟨first, last, hends, hclosed⟩
  · exact absurd (detours_iff.mpr ⟨first, last, hends, hopen⟩) h'

/-- Only a polygon that is closed by a detour can turn it. -/
theorem detours_of_turns {expected : Bool} (h : p.turns expected vs = true) :
    p.detours vs = true := by
  rw [turns, Option.any_eq_true_iff_get] at h
  obtain ⟨hsome, hboth⟩ := h
  rw [Bool.and_eq_true] at hboth
  rw [detours, Option.any_eq_true_iff_get]
  exact ⟨hsome, hboth.1⟩

/-- Only a polygon of which an edge is kept can be closed by a detour. -/
theorem retains_of_detours (h : p.detours vs = true) : p.retains vs = true := by
  obtain ⟨first, last, hends, hne⟩ := detours_iff.mp h
  exact (block_of_open hends hne false).2.1

/-- A polygon that is closed by a detour is as expected unless its detour was turned in
    vain. -/
theorem detours_and_disagrees (expected : Bool) :
    (p.detours vs && Region.contains (p.block expected vs) p.origin 0 != expected) =
      p.misses expected vs := by
  rw [misses]
  by_cases hturns : p.turns expected vs = true
  · rw [hturns, detours_of_turns hturns]
  · -- an arc whose detour stays is as expected already
    rw [Bool.not_eq_true] at hturns
    rw [hturns, Bool.false_and]
    by_cases hdetours : p.detours vs = true
    · obtain ⟨first, last, hends, hne⟩ := detours_iff.mp hdetours
      obtain ⟨hblock, -, -, hagrees⟩ := block_of_open hends hne expected
      rw [hturns, if_neg Bool.false_ne_true] at hblock
      rw [hturns] at hagrees
      rw [hblock, ← hagrees, Bool.and_false]
    · rw [Bool.not_eq_true] at hdetours
      rw [hdetours, Bool.false_and]

/-- In the block of a polygon closed by a detour the pivot is on the first side, unless
    the detour had to be turned. -/
theorem block_pivot (hends : arcEnds (p.kept vs) = some (first, last))
    (h : (first != last) = true) (expected : Bool) :
    (p.block expected vs)[(p.block expected vs).length - pivotFromEnd]? =
      some (if p.turns expected vs then (p.detourFor first last).opposite
        else (p.detourFor first last).pivot) := by
  rw [(block_of_open hends h expected).1]
  split
  · exact Detour.getElem?_pivot (p.detourFor first last).turned (p.arc vs) first
  · exact Detour.getElem?_pivot (p.detourFor first last) (p.arc vs) first

/-- A block that is not empty begins with the arc and ends with a separator. -/
theorem block_of_retains (h : p.retains vs = true) (expected : Bool) :
    ∃ detour, p.block expected vs = p.arc vs ++ detour ++ [.null] := by
  rcases p.kinds vs with hkept | ⟨first, last, hends, hclosed⟩ | ⟨first, last, hends, hopen⟩
  · exact absurd hkept (retains_iff.mp h)
  · refine ⟨[], ?_⟩
    rw [(block_of_closed hends hclosed expected).1, List.append_nil]
  · rw [(block_of_open hends hopen expected).1]
    split
    · refine ⟨((p.detourFor first last).turned.closing first).dropLast, ?_⟩
      rw [List.append_assoc]
      rfl
    · refine ⟨((p.detourFor first last).closing first).dropLast, ?_⟩
      rw [List.append_assoc]
      rfl

/-- A block that is not empty has at least three vertices. -/
theorem three_le_length_block (h : p.retains vs = true) (expected : Bool) :
    3 ≤ (p.block expected vs).length := by
  obtain ⟨detour, hblock⟩ := block_of_retains h expected
  have harc : 2 ≤ (p.arc vs).length := two_le_length_arcAfter (retains_iff.mp h)
  rw [hblock, List.length_append, List.length_append, List.length_singleton]
  omega

/-- Blocks are separated from what follows them. -/
theorem terminated_block (p : Plan) (expected : Bool) (vs : List Position) :
    Region.Terminated (p.block expected vs) := by
  by_cases h : p.kept vs = []
  · exact .inl (block_of_not_retains h expected).1
  · obtain ⟨detour, hblock⟩ := block_of_retains (retains_iff.mpr h) expected
    exact .inr ⟨_, .null, by decide +kernel, hblock⟩

end Plan

/-! ### Blocks by their vertices -/

/-- The edges of a polygon within reach of a position. An edge between equal vertices is not
    one of them, nor is one whose distance is at least `reach`; a distance that cannot be
    compared does not drop an edge. -/
def edgesWithin (globe : Globe) (origin : Position) (reach : Float) (vs : List Position) :
    List Edge :=
  (boundary vs).filter fun e =>
    e.1 != e.2 && !decide (reach ≤ globe.distanceToSegment origin e.1 e.2)

/-- The vertices of some edges, edge by edge. The beginning of an edge is left out exactly if
    the edge before it ends there. -/
def edgeVertices (es : List Edge) : List Position :=
  ((none :: es.map some).zip es).flatMap fun (before?, e) =>
    if before?.any (·.2 == e.1) then [e.2] else [e.1, e.2]

/-- What is kept of a polygon, from nothing but its vertices, the globe, the position, the two
    distances, and whether the polygon is `expected` to contain the position. If the vertices
    kept lead back to the first of them, a separator follows. Otherwise they are closed over a
    pivot that lies on the bearing of the middle between the places beyond the two ends, or
    behind the position if the block over that pivot is not as expected. -/
def blockOf (globe : Globe) (origin : Position) (reach detour : Float) (expected : Bool)
    (vs : List Position) : List Position :=
  let arc := edgeVertices (edgesWithin globe origin reach vs)
  match endpoints arc with
  | none => []
  | some (first, last) =>
    if first == last then arc ++ [.null]
    else
      let beyond (v : Position) := globe.destination v detour (globe.bearing origin v)
      let middle : Position :=
        ⟨((beyond first).lat + (beyond last).lat) / 2.0,
          ((beyond first).lon + (beyond last).lon) / 2.0⟩
      let course := globe.bearing origin middle
      let via (pivot : Position) := arc ++ [beyond last, pivot, beyond first, first, .null]
      let block := via (globe.destination origin detour course)
      if Region.contains block origin 0 == expected then block
      else via (globe.destination origin (-detour) course)

/-- An arc consists of the vertices of its edges. -/
theorem arcAfter_none (es : List Edge) : arcAfter none es = edgeVertices es := by
  -- the induction takes edges from the beginning, so the arc goes on from anywhere
  have hafter : ∀ (before? : Option Edge) (es : List Edge),
      arcAfter (before?.map Prod.snd) es =
        ((before? :: es.map some).zip es).flatMap fun q =>
          if q.1.any (·.2 == q.2.1) then [q.2.2] else [q.2.1, q.2.2] := by
    intro before? es
    induction es generalizing before? with
    | nil => rfl
    | cons e es ih =>
      have hrest := ih (some e)
      rw [Option.map_some] at hrest
      rw [arcAfter, hrest, Option.any_map]
      rfl
  exact hafter none es

namespace Plan

variable {p : Plan} {vs : List Position}

theorem kept_eq (p : Plan) (vs : List Position) :
    p.kept vs = edgesWithin p.globe p.origin p.reach vs := by
  apply List.filter_congr
  intro e _
  rw [keeps, Bool.not_or]
  rfl

theorem arc_eq (p : Plan) (vs : List Position) :
    p.arc vs = edgeVertices (edgesWithin p.globe p.origin p.reach vs) := by
  rw [arc, arcAfter_none, kept_eq]

/-- What an outline keeps of a polygon, by its vertices. -/
theorem block_eq (p : Plan) (expected : Bool) (vs : List Position) :
    p.block expected vs = blockOf p.globe p.origin p.reach p.detour expected vs := by
  have hends : endpoints (p.arc vs) = arcEnds (p.kept vs) := endpoints_arcAfter (p.kept vs)
  rw [blockOf, ← arc_eq]
  rcases p.kinds vs with hkept | ⟨first, last, harc, hclosed⟩ | ⟨first, last, harc, hopen⟩
  · -- nothing is kept, so the arc is empty
    rw [hkept] at hends
    rw [hends, (block_of_not_retains hkept expected).1]
    rfl
  · -- the arc leads back to its beginning
    have hsame : (first == last) = true := by rwa [bne, Bool.not_eq_false'] at hclosed
    rw [harc] at hends
    rw [hends, (block_of_closed harc hclosed expected).1]
    simp only [hsame, ↓reduceIte]
  · -- the arc is open, so there is a pivot to be chosen
    have hother : (first == last) = false := by rwa [bne, Bool.not_eq_true'] at hopen
    obtain ⟨hblock, -, -, hturns⟩ := block_of_open harc hopen expected
    rw [harc] at hends
    rw [hends, hblock, hturns]
    simp only [hother, Bool.false_eq_true, ↓reduceIte]
    show (if Region.contains (p.forward vs first last) p.origin 0 != expected then
        p.backward vs first last else p.forward vs first last) =
      if Region.contains (p.forward vs first last) p.origin 0 == expected then
        p.forward vs first last else p.backward vs first last
    cases hagrees : Region.contains (p.forward vs first last) p.origin 0 == expected with
    | true => rw [bne, hagrees, Bool.not_true, if_neg Bool.false_ne_true, if_pos rfl]
    | false => rw [bne, hagrees, Bool.not_false, if_pos rfl, if_neg Bool.false_ne_true]

end Plan

end Airspace.Border

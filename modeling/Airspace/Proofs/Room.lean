import Airspace.Proofs.Drawing

/-! # Room for an outline

  Drawing asks for room before it adds a vertex: for both ends of an edge even where one of
  them is there already, and for a whole detour at once. This is never in vain. After every
  kept edge at least a separator is to follow, so what has been asked for midway does not
  exceed what the blocks of all polygons take.
-/

namespace Airspace

namespace Border

/-! ### Room for an arc -/

/-- The room that drawing an arc asks for, beginning with the arc: at its last edge there
    has to be room for both ends. -/
def arcRoom (es : List Edge) : Nat :=
  if es = [] then 0 else (arcAfter none es.dropLast).length + 2

theorem arcRoom_concat (es : List Edge) (e : Edge) :
    arcRoom (es ++ [e]) = (arcAfter none es).length + 2 := by
  rw [arcRoom, if_neg (List.concat_ne_nil e es), List.dropLast_concat]

/-- An edge is at least one vertex more. -/
theorem length_arcAfter_concat (es : List Edge) (e : Edge) :
    (arcAfter none es).length + 1 ≤ (arcAfter none (es ++ [e])).length := by
  rw [arcAfter_concat, List.length_append]
  split <;> simp

/-- The vertices of an arc stay where they are when the arc goes on. -/
theorem length_arcAfter_mono {es fs : List Edge} (h : es <+: fs) :
    (arcAfter none es).length ≤ (arcAfter none fs).length := by
  obtain ⟨more, rfl⟩ := h
  induction more using List.reverseRecOn with
  | nil => exact Nat.le_of_eq (by rw [List.append_nil])
  | append_singleton more e ih =>
    have hstep := length_arcAfter_concat (es ++ more) e
    rw [List.append_assoc] at hstep
    omega

/-- With a separator behind it an arc takes all the room that was asked for. -/
theorem arcRoom_le {es fs : List Edge} (h : es <+: fs) :
    arcRoom es ≤ (arcAfter none fs).length + 1 := by
  rcases List.eq_nil_or_concat es with rfl | ⟨init, e, hes⟩
  · exact Nat.zero_le _
  · rw [List.concat_eq_append] at hes
    subst hes
    have hlast := length_arcAfter_concat init e
    have hmono := length_arcAfter_mono h
    rw [arcRoom_concat]
    omega

namespace Plan

variable {p : Plan}

/-- The room that a drawing has asked for when some polygons have ended and some vertices
    of the next one have been seen. -/
def room (p : Plan) (ps : List (List Position)) (seen : List Position) : Nat :=
  (p.blocks ps).length + arcRoom ((path seen).filter p.keeps)

/-- What is kept of the path walked so far is kept of the whole polygon. -/
theorem kept_prefix (p : Plan) (seen more : List Position) :
    (path seen).filter p.keeps <+: p.kept (seen ++ more) := by
  have hpath : path seen <+: path (seen ++ more) := by
    induction more using List.reverseRecOn with
    | nil => simp
    | append_singleton more v ih =>
      rw [← List.append_assoc]
      rcases empty_or_endpoints (seen ++ more) with hnil | ⟨first, last, hends⟩
      · obtain ⟨rfl, rfl⟩ := List.append_eq_nil_iff.mp hnil
        exact List.nil_prefix
      · rw [path_concat hends]
        exact ih.trans (List.prefix_append _ _)
  rw [kept, boundary, List.filter_append]
  exact (hpath.filter p.keeps).trans (List.prefix_append _ _)

/-- A block has room for the arc and for what ends it. -/
theorem length_block (p : Plan) (expected : Bool) (vs : List Position) :
    (p.block expected vs).length = (p.arc vs).length +
      if p.detours vs then closingSize else if p.retains vs then 1 else 0 := by
  rcases p.kinds vs with hkept | ⟨first, last, hends, hclosed⟩ | ⟨first, last, hends, hopen⟩
  · obtain ⟨hblock, hretains, hdetours, -⟩ := block_of_not_retains hkept expected
    rw [hblock, hretains, hdetours, arc, hkept]
    rfl
  · obtain ⟨hblock, hretains, hdetours, -⟩ := block_of_closed hends hclosed expected
    rw [hblock, hretains, hdetours, List.length_append]
    rfl
  · obtain ⟨hblock, hretains, hdetours, -⟩ := block_of_open hends hopen expected
    rw [hblock, hdetours]
    split <;> exact List.length_append

/-- At least a separator ends an arc. -/
theorem length_arc_lt_block {vs : List Position} (h : p.retains vs = true) (expected : Bool) :
    (p.arc vs).length < (p.block expected vs).length := by
  obtain ⟨detour, hblock⟩ := block_of_retains h expected
  rw [hblock, List.length_append, List.length_append, List.length_singleton]
  omega

/-- The end of a polygon asks for no less room than what was kept of it before. -/
theorem room_le_concat (p : Plan) (ps : List (List Position)) (seen more : List Position) :
    p.room ps seen ≤ (p.blocks (ps ++ [seen ++ more])).length := by
  rw [blocks_concat, List.length_append, room]
  have hstart := kept_prefix p seen more
  by_cases hkept : p.kept (seen ++ more) = []
  · rw [hkept, List.prefix_nil] at hstart
    rw [hstart]
    exact Nat.le_add_right _ _
  · -- the separator is the one vertex more that the last edge may have asked for
    have harc : arcRoom ((path seen).filter p.keeps) ≤ (p.arc (seen ++ more)).length + 1 :=
      arcRoom_le hstart
    have hend := length_arc_lt_block (retains_iff.mpr hkept) (p.reference == ps.length + 1)
    omega

end Plan

/-! ### Where a walk stands -/

/-- Some polygons have ended and some vertices of the next one have been seen; one more
    record. -/
def stand : List (List Position) × List Position → BorderRecord →
    List (List Position) × List Position
  | (ps, seen), .vertex v => (ps, seen ++ [v])
  | (ps, seen), .delimiter => if seen = [] then (ps, []) else (ps ++ [seen], [])

/-- The polygons that have ended are the first polygons of the border, and the one in
    progress is the next. -/
theorem polygons_stand (place : List (List Position) × List Position) (r : BorderRecord)
    (rest : List BorderRecord) :
    place.1 ++ polygonsFrom place.2 (r :: rest) =
      (stand place r).1 ++ polygonsFrom (stand place r).2 rest := by
  obtain ⟨ps, seen⟩ := place
  cases r with
  | vertex v =>
    rw [polygonsFrom_vertex]
    rfl
  | delimiter =>
    by_cases hseen : seen = []
    · subst hseen
      rfl
    · rw [polygonsFrom_delimiter hseen, stand, if_neg hseen, List.append_cons]
      rfl

theorem polygons_foldl_stand (rest : List BorderRecord)
    (place : List (List Position) × List Position) :
    place.1 ++ polygonsFrom place.2 rest = (rest.foldl stand place).1 ++
      polygonsFrom (rest.foldl stand place).2 [] := by
  induction rest generalizing place with
  | nil => rfl
  | cons r rest ih => rw [polygons_stand, List.foldl_cons, ih]

/-- The polygon in progress goes on with what is left. -/
theorem polygonsFrom_cons {seen : List Position} (h : seen ≠ []) (rest : List BorderRecord) :
    ∃ more others, polygonsFrom seen rest = (seen ++ more) :: others := by
  induction rest generalizing seen with
  | nil => exact ⟨[], [], by rw [polygonsFrom_end h, List.append_nil]⟩
  | cons r rest ih =>
    cases r with
    | delimiter => exact ⟨[], polygons rest, by rw [polygonsFrom_delimiter h, List.append_nil]⟩
    | vertex v =>
      have hnext : seen ++ [v] ≠ [] :=
        List.append_ne_nil_of_right_ne_nil seen (List.cons_ne_nil v [])
      obtain ⟨more, others, hmore⟩ := ih hnext
      refine ⟨v :: more, others, ?_⟩
      rw [polygonsFrom_vertex, hmore, List.append_assoc]
      rfl

theorem Plan.room_le_stand (p : Plan) (place : List (List Position) × List Position)
    (r : BorderRecord) : p.room place.1 place.2 ≤ p.room (stand place r).1 (stand place r).2 := by
  obtain ⟨ps, seen⟩ := place
  cases r with
  | delimiter =>
    by_cases hseen : seen = []
    · simp only [stand, hseen, ↓reduceIte]
      exact Nat.le_refl _
    · have hend := room_le_concat p ps seen []
      rw [List.append_nil] at hend
      simp only [stand, hseen, ↓reduceIte]
      exact Nat.le_add_right_of_le hend
  | vertex v =>
    simp only [stand, room]
    apply Nat.add_le_add_left
    -- the first vertex of a polygon asks for nothing, a later one for the edge to it
    rcases empty_or_endpoints seen with rfl | ⟨first, last, hends⟩
    · exact Nat.zero_le _
    · rw [path_concat hends, List.filter_append]
      by_cases hkeep : p.keeps (last, v) = true
      · rw [List.filter_cons_of_pos hkeep, List.filter_nil, arcRoom_concat]
        have hlast := arcRoom_le (List.prefix_refl ((path seen).filter p.keeps))
        omega
      · have hsame : (path seen).filter p.keeps ++ [(last, v)].filter p.keeps =
            (path seen).filter p.keeps := by
          rw [List.filter_cons_of_neg hkeep, List.filter_nil, List.append_nil]
        exact Nat.le_of_eq (congrArg arcRoom hsame.symm)

/-- The blocks of all polygons take all the room that was asked for. -/
theorem Plan.room_le_polygons (p : Plan) (place : List (List Position) × List Position) :
    p.room place.1 place.2 ≤ (p.blocks (place.1 ++ polygonsFrom place.2 [])).length := by
  obtain ⟨ps, seen⟩ := place
  by_cases hseen : seen = []
  · subst hseen
    rw [polygonsFrom_nil]
    show (p.blocks ps).length + 0 ≤ (p.blocks (ps ++ [])).length
    rw [List.append_nil]
    exact Nat.le_refl _
  · have hend := room_le_concat p ps seen []
    rw [List.append_nil] at hend
    rw [polygonsFrom_end hseen]
    exact hend

theorem Plan.room_le_foldl_stand (p : Plan) (rest : List BorderRecord)
    (place : List (List Position) × List Position) :
    p.room place.1 place.2 ≤ p.room (rest.foldl stand place).1 (rest.foldl stand place).2 := by
  induction rest generalizing place with
  | nil => exact Nat.le_refl _
  | cons r rest ih => exact Nat.le_trans (p.room_le_stand place r) (ih (stand place r))

end Border

end Airspace

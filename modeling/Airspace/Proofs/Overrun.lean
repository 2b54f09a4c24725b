import Airspace.Proofs.Endings
import Airspace.Proofs.Room

/-! # Drawings that run out of room

  A drawing fails for one reason only: its vertices do not fit into the limit of the
  buffer. It is exact about this, record by record, and a whole border can be drawn if and
  only if its blocks fit.

  A drawing that fails leaves the blocks of the polygons before the one in progress, and of
  that one an arc over the first of its kept edges, without anything that ends it.
-/

namespace Airspace

namespace Border

namespace Drawing

variable {p : Plan} {o : Outline} {first limit : Nat}

/-! ### One step -/

/-- A fault for want of room for `n` more vertices. It leaves the outline as it is. -/
def Refused (limit : Nat) (o : Outline) (n : Nat) (fault : BufferFault) (o' : Outline) : Prop :=
  fault = .limitReached limit ∧ limit < o.buffer.size + n ∧ o' = o

theorem room_ensures (hs : o.buffer.Sound first limit) (n : Nat) :
    Ensures (room n) o (fun _ o' => o'.buffer.Sound first limit ∧ o.buffer.size + n ≤ limit ∧
      o'.buffer.size = o.buffer.size) (Refused limit o n) := by
  unfold Ensures room
  cases hroom : o.buffer.reserve n with
  | ok b => exact hs.of_reserve hroom
  | error fault =>
    obtain ⟨htight, rfl⟩ := Buffer.reserve_eq_error hroom
    rw [hs.limit_eq] at htight ⊢
    exact ⟨rfl, htight, rfl⟩

theorem append_ensures (hs : o.buffer.Sound first limit) (v : Position) :
    Ensures (append v) o (fun _ o' => o'.buffer.Sound first limit ∧
      o'.buffer.size = o.buffer.size + 1) (Refused limit o 1) := by
  unfold Ensures append
  cases hpush : o.buffer.push v with
  | ok b => exact hs.of_push hpush
  | error fault =>
    obtain ⟨rfl, htight⟩ := hs.of_push_error hpush
    exact ⟨rfl, htight, rfl⟩

/-- Where room was made, vertices are added without a fault. -/
theorem appendAll_ensures (hs : o.buffer.Sound first limit) {vs : List Position}
    (hroom : o.buffer.size + vs.length ≤ limit) :
    Ensures (appendAll vs) o (fun _ o' => o'.buffer.Sound first limit) fun _ _ => False := by
  induction vs generalizing o with
  | nil => exact hs
  | cons v vs ih =>
    rw [List.length_cons] at hroom
    have hhead : Ensures (append v) o (fun _ o' => o'.buffer.Sound first limit ∧
        o'.buffer.size = o.buffer.size + 1) fun _ _ => False := by
      refine (append_ensures hs v).mono_error ?_
      rintro fault o' ⟨-, htight, -⟩
      omega
    -- there is still room for the rest
    refine hhead.bind ?_
    rintro _ o' ⟨hs', hsize⟩
    exact ih hs' (by omega)

theorem keepEdge_ensures (hs : o.buffer.Sound first limit) (e : Edge) :
    Ensures (keepEdge e) o (fun _ o' => o'.buffer.Sound first limit ∧ o.buffer.size + 2 ≤ limit)
      (Refused limit o 2) := by
  refine (room_ensures hs 2).bind ?_
  rintro _ o₁ ⟨hs₁, hroom, hsize⟩
  refine Ensures.bind_of_ok rfl ?_
  -- an edge is one vertex or two, and room was made for two
  have hlength : (if o₁.endsAt e.1 then [e.2] else [e.1, e.2]).length ≤ 2 := by split <;> simp
  refine (appendAll_ensures hs₁ (by omega)).seq ?_ ?_
  · exact fun _ _ h => h.elim
  · intro _ o₂ hs₂
    show (o₂.extendArc e).buffer.Sound first limit ∧ _
    unfold Outline.extendArc
    split <;> exact ⟨hs₂, hroom⟩

theorem takeEdge_ensures (hs : o.buffer.Sound first limit) (e : Edge) :
    Ensures (takeEdge p e) o
      (fun _ o' => o'.buffer.Sound first limit ∧
        (p.keeps e = true → o.buffer.size + 2 ≤ limit))
      (fun fault o' => p.keeps e = true ∧ Refused limit o 2 fault o') := by
  unfold takeEdge
  by_cases hkeep : p.keeps e = true
  · rw [if_pos hkeep]
    refine (keepEdge_ensures hs e).mono ?_ ?_
    · rintro _ o' ⟨hs', hroom⟩
      exact ⟨hs', fun _ => hroom⟩
    · intro fault o' hrefused
      exact ⟨hkeep, hrefused⟩
  · rw [if_neg hkeep]
    exact ⟨hs, fun h => absurd h hkeep⟩

theorem takeClosing_ensures (hs : o.buffer.Sound first limit) (closing : Option Edge) :
    Ensures (takeClosing p closing) o (fun _ o' => o'.buffer.Sound first limit)
      (fun fault o' => ∃ e, closing = some e ∧ p.keeps e = true ∧ Refused limit o 2 fault o') := by
  cases closing with
  | none => exact hs
  | some e =>
    refine (takeEdge_ensures hs e).mono (fun _ _ h => h.1) ?_
    intro fault o' hrefused
    exact ⟨e, rfl, hrefused⟩

theorem settle_sound (hs : o.buffer.Sound first limit) (opposite : Position) :
    (o.settle p opposite).buffer.Sound first limit := by
  unfold Outline.settle
  split
  · exact hs
  · dsimp only
    split <;> exact hs.replace _ _

theorem closeArc_ensures (hs : o.buffer.Sound first limit) (a z : Position) :
    Ensures (closeArc p a z) o (fun _ o' => o'.buffer.Sound first limit)
      (Refused limit o closingSize) := by
  refine (room_ensures hs closingSize).bind ?_
  rintro _ o₁ ⟨hs₁, hroom, hsize⟩
  have hclosing : ((p.detourFor a z).closing a).length = closingSize := rfl
  refine (appendAll_ensures hs₁ (by omega)).seq ?_ ?_
  · exact fun _ _ h => h.elim
  · intro _ o₂ hs₂
    exact settle_sound hs₂ _

/-- What ends the arc of a polygon asks for the rest of its block. -/
theorem endArc_ensures (hs : o.buffer.Sound first limit) (vs : List Position) :
    Ensures (endArc p (arcEnds (p.kept vs))) o (fun _ o' => o'.buffer.Sound first limit)
      (fun fault o' => fault = .limitReached limit ∧ o' = o ∧
        ∀ expected, limit + (p.arc vs).length < o.buffer.size + (p.block expected vs).length) := by
  -- nothing ends an arc without edges, a separator a closed one, a detour an open one
  rcases p.kinds vs with hkept | ⟨a, z, hends, hclosed⟩ | ⟨a, z, hends, hopen⟩
  · rw [hkept]
    exact hs
  · obtain ⟨-, hretains, hdetours, -⟩ := Plan.block_of_closed hends hclosed false
    rw [hends]
    simp only [endArc, hclosed, Bool.false_eq_true, ↓reduceIte]
    refine (append_ensures hs .null).seq ?_ ?_
    · rintro fault o' ⟨rfl, htight, rfl⟩
      refine ⟨rfl, rfl, fun expected => ?_⟩
      rw [Plan.length_block, hdetours, hretains]
      simp only [Bool.false_eq_true, ↓reduceIte]
      omega
    · rintro _ o₁ ⟨hs₁, -⟩
      exact hs₁
  · obtain ⟨-, -, hdetours, -⟩ := Plan.block_of_open hends hopen false
    rw [hends]
    simp only [endArc, hopen, ↓reduceIte]
    refine (closeArc_ensures hs a z).seq ?_ ?_
    · rintro fault o' ⟨rfl, htight, rfl⟩
      refine ⟨rfl, rfl, fun expected => ?_⟩
      rw [Plan.length_block, hdetours]
      simp only [↓reduceIte]
      omega
    · intro _ o₁ hs₁
      exact hs₁

/-! ### What a failed drawing leaves -/

variable {before : List Position} {ps : List (List Position)} {seen : List Position}

/-- The end of a polygon asks for the rest of its block. Where it fails, an arc over some of
    the kept edges is left, without what ends it. -/
theorem endPolygon_ensures (ho : Drawn p before ps seen o) (hs : o.buffer.Sound first limit) :
    Ensures (endPolygon p (closing? seen)) { o with walk := .midway (latest ps seen) [] }
      (fun _ o' => o'.buffer.Sound first limit)
      (fun fault o' => fault = .limitReached limit ∧ o'.buffer.Sound first limit ∧
        limit < before.length + (p.blocks (ps ++ [seen])).length ∧
        ∃ es, es <+: p.kept seen ∧
          o'.buffer.toList = before ++ p.blocks ps ++ arcAfter none es) := by
  set o₀ : Outline := { o with walk := .midway (latest ps seen) [] } with ho₀
  have hold : Holding (before ++ p.blocks ps) ((path seen).filter p.keeps) o₀ := ho.holding.walk _
  have hkept : (path seen).filter p.keeps ++ (closing? seen).toList.filter p.keeps =
      p.kept seen := by
    rw [← List.filter_append]
    rfl
  have hstart := p.kept_prefix seen []
  rw [List.append_nil] at hstart
  have hsize : o.buffer.size = before.length + (p.blocks ps).length +
      (arcAfter none ((path seen).filter p.keeps)).length := by
    rw [← Buffer.length_toList, ho.holding.items, List.length_append, List.length_append]
  have hblocks := congrArg List.length (p.blocks_concat ps seen)
  rw [List.length_append] at hblocks
  -- first the closing edge, then the arc with it
  have hclose : Ensures (takeClosing p (closing? seen)) o₀
      (fun _ o₁ => o₁.buffer.Sound first limit ∧ Holding (before ++ p.blocks ps) (p.kept seen) o₁)
      (fun fault o' => fault = .limitReached limit ∧ o'.buffer.Sound first limit ∧
        limit < before.length + (p.blocks (ps ++ [seen])).length ∧
        ∃ es, es <+: p.kept seen ∧
          o'.buffer.toList = before ++ p.blocks ps ++ arcAfter none es) := by
    refine ((takeClosing_ensures (o := o₀) hs (closing? seen)).and_ok
      fun _ o₁ hok => (takeClosing_ok hold hok).1).mono ?_ ?_
    · rw [hkept]
      exact fun _ _ h => h
    · rintro fault o₁ ⟨e, hclosing, hkeep, rfl, htight, rfl⟩
      refine ⟨rfl, hs, ?_, (path seen).filter p.keeps, hstart, hold.items⟩
      -- the closing edge would have made the block longer than what is there by two
      rw [hclosing, Option.toList_some, List.filter_cons_of_pos hkeep, List.filter_nil] at hkept
      have hlast := length_arcAfter_concat ((path seen).filter p.keeps) e
      have hretains : p.retains seen = true := by
        rw [Plan.retains_iff, ← hkept]
        exact List.append_ne_nil_of_right_ne_nil _ (List.cons_ne_nil e [])
      have hend := Plan.length_arc_lt_block hretains (p.reference == ps.length + 1)
      rw [Plan.arc, ← hkept] at hend
      have htight' : limit < o.buffer.size + 2 := htight
      omega
  refine hclose.bind ?_
  rintro _ o₁ ⟨hs₁, hold₁⟩
  refine Ensures.bind_of_ok rfl ?_
  rw [hold₁.arc]
  refine (endArc_ensures (o := { o₁ with arc := none }) hs₁ seen).seq ?_ ?_
  · rintro fault o₂ ⟨rfl, rfl, htight⟩
    refine ⟨rfl, hs₁, ?_, p.kept seen, List.prefix_refl _, hold₁.items⟩
    have hsize₁ : o₁.buffer.size = before.length + (p.blocks ps).length +
        (p.arc seen).length := by
      rw [← Buffer.length_toList, hold₁.items, List.length_append, List.length_append]
      rfl
    have htight' := htight (p.reference == ps.length + 1)
    have hsame : ({ o₁ with arc := none } : Outline).buffer.size = o₁.buffer.size := rfl
    omega
  · intro _ o₂ hs₂
    exact hs₂

/-- A drawing that is cut off: the blocks of the first polygons are there, and of the next
    one an arc over the first of its kept edges. -/
def Cut (p : Plan) (ps : List (List Position)) (left : List Position) : Prop :=
  ∃ done rest es, ps = done ++ rest ∧ es <+: p.kept (rest.headD []) ∧
    left = p.blocks done ++ arcAfter none es

/-- How a drawing goes wrong that should have needed some room: it has run into the limit,
    and it is cut off. -/
structure Fails (p : Plan) (before : List Position) (first limit room : Nat)
    (ps : List (List Position)) (fault : BufferFault) (o : Outline) : Prop where
  fault_eq : fault = .limitReached limit
  sound : o.buffer.Sound first limit
  tight : limit < before.length + room
  cut : ∃ left, o.buffer.toList = before ++ left ∧ Cut p ps left

/-- How a drawing goes on that has needed some room. -/
structure Goes (p : Plan) (before : List Position) (first limit : Nat)
    (place : List (List Position) × List Position) (o : Outline) : Prop where
  drawn : Drawn p before place.1 place.2 o
  sound : o.buffer.Sound first limit
  roomy : before.length + p.room place.1 place.2 ≤ limit

/-- A drawing begins with what is in the buffer. -/
theorem goes_new (p : Plan) {b : Buffer Position} (hb : b.Sound first limit) :
    Goes p b.toList first limit ([], []) (.new b) := by
  refine ⟨drawn_new p b, hb, ?_⟩
  rw [Buffer.length_toList]
  exact hb.size_le

variable {place : List (List Position) × List Position}

/-- Where the walk is between two polygons, the drawing has all the room that it needs. -/
theorem Goes.of_drawn (ho : Drawn p before ps [] o) (hs : o.buffer.Sound first limit) :
    Goes p before first limit (ps, []) o := by
  refine ⟨ho, hs, ?_⟩
  have hitems := congrArg List.length ho.holding.items
  rw [Buffer.length_toList, List.length_append, List.length_append] at hitems
  have hsize := hs.size_le
  exact Nat.le_trans (Nat.le_trans (Nat.le_add_right _ _) (Nat.le_of_eq hitems.symm)) hsize

/-- Midway through a polygon a drawing is cut off there, wherever the polygon leads. -/
theorem cut_midway (p : Plan) (ps : List (List Position)) (seen more : List Position)
    (rest : List BorderRecord) :
    Cut p (ps ++ polygonsFrom (seen ++ more) rest)
      (p.blocks ps ++ arcAfter none ((path seen).filter p.keeps)) := by
  -- a polygon is in progress unless no vertex of it is there
  by_cases hnone : seen ++ more = []
  · obtain ⟨rfl, rfl⟩ := List.append_eq_nil_iff.mp hnone
    exact ⟨ps, polygonsFrom [] rest, [], rfl, List.nil_prefix, rfl⟩
  · obtain ⟨end', others, hfrom⟩ := polygonsFrom_cons hnone rest
    refine ⟨ps, polygonsFrom (seen ++ more) rest, (path seen).filter p.keeps, rfl, ?_, rfl⟩
    rw [hfrom, List.headD_cons, List.append_assoc]
    exact p.kept_prefix seen (more ++ end')

/-- A vertex asks for the room of the edge that ends at it. -/
theorem push_vertex_ensures (ho : Goes p before first limit (ps, seen) o) (v : Position)
    (rest : List BorderRecord) :
    Ensures (push p (.vertex v)) o (fun _ o' => Goes p before first limit (ps, seen ++ [v]) o')
      (Fails p before first limit (p.room ps (seen ++ [v]))
        (ps ++ polygonsFrom (seen ++ [v]) rest)) := by
  have hdraw : Ensures (push p (.vertex v)) o
      (fun _ o' => o'.buffer.Sound first limit ∧
        before.length + p.room ps (seen ++ [v]) ≤ limit)
      (Fails p before first limit (p.room ps (seen ++ [v]))
        (ps ++ polygonsFrom (seen ++ [v]) rest)) := by
    have hitems := ho.drawn.holding.items
    have hsize : o.buffer.size = before.length + (p.blocks ps).length +
        (arcAfter none ((path seen).filter p.keeps)).length := by
      rw [← Buffer.length_toList, hitems, List.length_append, List.length_append]
    refine Ensures.bind_of_ok (a := (o.walk.advance (.vertex v)).1)
      (t := { o with walk := (o.walk.advance (.vertex v)).2 }) rfl ?_
    rw [ho.drawn.walk]
    rcases empty_or_endpoints seen with rfl | ⟨a, z, hends⟩
    · -- the first vertex of a polygon is the end of no edge
      rw [Walk.advance_first]
      exact ⟨ho.sound, ho.roomy⟩
    · rw [Walk.advance_vertex hends]
      refine (takeEdge_ensures (p := p)
        (o := { o with walk := .midway (latest ps seen) (seen ++ [v]) })
        ho.sound (z, v)).mono ?_ ?_
      · rintro _ o₂ ⟨hs₂, hroom⟩
        refine ⟨hs₂, ?_⟩
        have hroomy := ho.roomy
        simp only [Plan.room] at hroomy ⊢
        rw [path_concat hends, List.filter_append]
        -- an edge that is kept has asked for two vertices, another one for nothing
        by_cases hkeep : p.keeps (z, v) = true
        · have hfits : o.buffer.size + 2 ≤ limit := hroom hkeep
          rw [List.filter_cons_of_pos hkeep, List.filter_nil, arcRoom_concat]
          omega
        · rw [List.filter_cons_of_neg hkeep, List.filter_nil, List.append_nil]
          exact hroomy
      · rintro fault o₂ ⟨hkeep, rfl, htight, rfl⟩
        refine ⟨rfl, ho.sound, ?_, _, ?_, cut_midway p ps seen [v] rest⟩
        · have htight' : limit < o.buffer.size + 2 := htight
          rw [Plan.room, path_concat hends, List.filter_append, List.filter_cons_of_pos hkeep,
            List.filter_nil, arcRoom_concat]
          omega
        · show o.buffer.toList = _
          rw [hitems, List.append_assoc]
  refine (hdraw.and_ok fun _ o' hok => push_vertex_ok ho.drawn hok).mono_ok ?_
  rintro _ o' ⟨⟨hs', hroom⟩, hdrawn⟩
  exact ⟨hdrawn, hs', hroom⟩

/-- The end of a polygon asks for its block. -/
theorem end_ensures (ho : Goes p before first limit (ps, seen) o) (rest : List (List Position)) :
    Ensures (endPolygon p (closing? seen)) { o with walk := .midway (latest ps seen) [] }
      (fun _ o' => o'.buffer.Sound first limit)
      (Fails p before first limit (p.blocks (ps ++ [seen])).length (ps ++ seen :: rest)) := by
  refine (endPolygon_ensures ho.drawn ho.sound).mono_error ?_
  rintro fault o' ⟨hfault, hs', htight, es, hes, hitems⟩
  refine ⟨hfault, hs', htight, p.blocks ps ++ arcAfter none es, ?_,
    ps, seen :: rest, es, rfl, hes, rfl⟩
  rw [hitems, List.append_assoc]

/-- A delimiter asks for the block of the polygon that it ends. -/
theorem push_delimiter_ensures (ho : Goes p before first limit (ps, seen) o)
    (rest : List BorderRecord) :
    Ensures (push p .delimiter) o
      (fun _ o' => Goes p before first limit (stand (ps, seen) .delimiter) o')
      (Fails p before first limit
        (p.room (stand (ps, seen) .delimiter).1 (stand (ps, seen) .delimiter).2)
        (ps ++ polygonsFrom seen (.delimiter :: rest))) := by
  by_cases hseen : seen = []
  · subst hseen
    have hidle : Ensures (push p .delimiter) o (fun _ o' => o'.buffer.Sound first limit)
        (Fails p before first limit (p.room ps [])
          (ps ++ polygonsFrom [] (.delimiter :: rest))) := by
      refine Ensures.bind_of_ok (a := o.walk.close.1)
        (t := { o with walk := o.walk.close.2 }) rfl ?_
      rw [ho.drawn.walk, Walk.close_idle]
      exact ho.sound
    refine (hidle.and_ok fun _ o' hok => push_delimiter_idle ho.drawn hok).mono_ok ?_
    rintro _ o' ⟨hs', hdrawn⟩
    exact .of_drawn hdrawn hs'
  · have hroom : p.room (ps ++ [seen]) [] = (p.blocks (ps ++ [seen])).length := Nat.add_zero _
    simp only [stand, hseen, ↓reduceIte, hroom]
    rw [polygonsFrom_delimiter hseen]
    have hend : Ensures (push p .delimiter) o (fun _ o' => o'.buffer.Sound first limit)
        (Fails p before first limit (p.blocks (ps ++ [seen])).length
          (ps ++ seen :: polygons rest)) := by
      refine Ensures.bind_of_ok (a := o.walk.close.1)
        (t := { o with walk := o.walk.close.2 }) rfl ?_
      rw [ho.drawn.walk, Walk.close_midway hseen]
      exact end_ensures ho (polygons rest)
    refine (hend.and_ok fun _ o' hok => push_delimiter_ok ho.drawn hseen hok).mono_ok ?_
    rintro _ o' ⟨hs', hdrawn⟩
    exact .of_drawn hdrawn hs'

/-! ### Whole borders -/

/-- Takes some records without ending the border. -/
def feed (p : Plan) (records : List BorderRecord) : Drawing Unit := records.forM (push p)

/-- A border is drawn by taking its records and ending it. -/
theorem run_eq_feed (p : Plan) (records : List BorderRecord) :
    run p records = feed p records >>= fun _ => finish p := by
  induction records with
  | nil => rfl
  | cons r rest ih =>
    show (push p r >>= fun _ => run p rest) =
      (push p r >>= fun _ => feed p rest) >>= fun _ => finish p
    rw [ih, bind_assoc]

/-- Records are taken as long as there is the room that they ask for. -/
theorem feed_ensures (ho : Goes p before first limit place o) (rest : List BorderRecord) :
    Ensures (feed p rest) o (fun _ o' => Goes p before first limit (rest.foldl stand place) o')
      (Fails p before first limit
        (p.room (rest.foldl stand place).1 (rest.foldl stand place).2)
        (place.1 ++ polygonsFrom place.2 rest)) := by
  -- by induction on the records, from any place that the drawing has come to
  induction rest generalizing place o with
  | nil => exact ho
  | cons r rest ih =>
    rw [polygons_stand, List.foldl_cons]
    -- what is asked for at one record is asked for at all later ones too
    have hmono := p.room_le_foldl_stand rest (stand place r)
    have hpush : Ensures (push p r) o (fun _ o' => Goes p before first limit (stand place r) o')
        (Fails p before first limit (p.room (stand place r).1 (stand place r).2)
          ((stand place r).1 ++ polygonsFrom (stand place r).2 rest)) := by
      rw [← polygons_stand]
      cases r with
      | vertex v =>
        rw [polygonsFrom_vertex]
        exact push_vertex_ensures ho v rest
      | delimiter => exact push_delimiter_ensures ho rest
    refine hpush.seq ?_ fun _ o' ho' => ih ho'
    rintro fault o' ⟨hfault, hs', htight, hcut⟩
    exact ⟨hfault, hs', by omega, hcut⟩

/-- The end of the border asks for the blocks of all polygons. -/
theorem finish_ensures (ho : Goes p before first limit place o) :
    Ensures (finish p) o
      (fun _ o' => o'.buffer.Sound first limit ∧
        before.length + (p.blocks (place.1 ++ polygonsFrom place.2 [])).length ≤ limit)
      (Fails p before first limit (p.blocks (place.1 ++ polygonsFrom place.2 [])).length
        (place.1 ++ polygonsFrom place.2 [])) := by
  obtain ⟨ps, seen⟩ := place
  have hend : Ensures (finish p) o (fun _ o' => o'.buffer.Sound first limit)
      (Fails p before first limit (p.blocks (ps ++ polygonsFrom seen [])).length
        (ps ++ polygonsFrom seen [])) := by
    refine Ensures.bind_of_ok (a := o.walk.close.1) (t := { o with walk := o.walk.close.2 }) rfl ?_
    rw [ho.drawn.walk]
    by_cases hseen : seen = []
    · subst hseen
      exact ho.sound
    · rw [Walk.close_midway hseen, polygonsFrom_end hseen]
      refine (end_ensures ho []).bind ?_
      intro _ o₂ hs₂
      exact hs₂
  refine (hend.and_ok fun _ o' hok => (finish_ok ho.drawn hok).1).mono_ok ?_
  rintro _ o' ⟨hs', hdrawn⟩
  exact ⟨hs', (Goes.of_drawn hdrawn hs').roomy⟩

/-- The drawing of a whole border succeeds if its blocks fit, and fails if they do not. -/
theorem run_ensures {b : Buffer Position} (hb : b.Sound first limit)
    (records : List BorderRecord) :
    Ensures (run p records) (.new b)
      (fun _ o' => o'.buffer.Sound first limit ∧
        b.size + (p.blocks (polygons records)).length ≤ limit)
      (Fails p b.toList first limit (p.blocks (polygons records)).length (polygons records)) := by
  have hall : (records.foldl stand ([], [])).1 ++
      polygonsFrom (records.foldl stand ([], [])).2 [] = polygons records :=
    (polygons_foldl_stand records ([], [])).symm
  have hroom := p.room_le_polygons (records.foldl stand ([], []))
  rw [hall] at hroom
  rw [run_eq_feed, ← Buffer.length_toList]
  refine (feed_ensures (goes_new p hb) records).seq ?_ ?_
  · -- what did not fit midway does not fit in the end
    rintro fault o' ⟨hfault, hs', htight, hcut⟩
    exact ⟨hfault, hs', by omega, hcut⟩
  · intro _ o' ho'
    have hend := finish_ensures ho'
    rw [hall] at hend
    exact hend

end Drawing

end Border

end Airspace

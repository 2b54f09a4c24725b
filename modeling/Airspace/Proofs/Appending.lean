import Airspace.Proofs.Overrun

/-! # Whole units

  A drawing only ever adds to its buffer, and it adds whole units: the vertices of one edge, a
  separator, or a detour with all its vertices. This does not depend on how the drawing went
  before. Where calls have failed and the drawing goes on nevertheless, the arc may be that of
  an earlier polygon and the start may lie too far back, but each call makes room for a unit
  before it adds the first vertex of it.

  So what follows is said of any outline whatever. The one vertex that is ever overwritten is
  the pivot of a detour, in the call that drew the detour.
-/

namespace Airspace

/-! ### More vertices -/

/-- A buffer holds some items more than before, at its end. -/
def Buffer.Gains {α : Type} (b : Buffer α) (vs : List α) (b' : Buffer α) : Prop :=
  b'.toList = b.toList ++ vs

namespace Buffer

variable {α : Type} {b b' b'' : Buffer α} {vs ws : List α}

theorem Gains.refl (b : Buffer α) : b.Gains [] b := (List.append_nil _).symm

theorem Gains.trans (h : b.Gains vs b') (h' : b'.Gains ws b'') : b.Gains (vs ++ ws) b'' := by
  unfold Gains at h h' ⊢
  rw [h', h, List.append_assoc]

theorem Gains.size_eq (h : b.Gains vs b') : b'.size = b.size + vs.length := by
  rw [← length_toList, h, List.length_append, length_toList]

end Buffer

namespace Border

/-- A detour with all its vertices is drawn behind some others, and then its pivot may be moved.
    The place of the pivot is counted from the end of the buffer, which is long enough for
    this, and nothing that was in the buffer before is at that place. -/
structure Plan.Detours (p : Plan) (first last : Position) (b : Buffer Position)
    (vs : List Position) (b' : Buffer Position) : Prop where
  settled : ∃ drawn : Outline, b.Gains (vs ++ (p.detourFor first last).closing first) drawn.buffer ∧
    b' = (drawn.settle p (p.detourFor first last).opposite).buffer ∧
    pivotFromEnd ≤ drawn.buffer.size ∧ b.size ≤ drawn.buffer.size - pivotFromEnd
  gains : b.Gains (vs ++ (p.detourFor first last).closing first) b' ∨
    b.Gains (vs ++ (p.detourFor first last).turned.closing first) b'

/-- An arc is ended behind some vertices: by nothing if there is none, by a separator if it
    leads back to its beginning, and by a detour if it does not. -/
def Plan.EndsArc (p : Plan) (arc : Option (Position × Position)) (b : Buffer Position)
    (vs : List Position) (b' : Buffer Position) : Prop :=
  match arc with
  | none => b.Gains vs b'
  | some (first, last) =>
    if first != last then p.Detours first last b vs b' else b.Gains (vs ++ [.null]) b'

namespace Plan

variable {p : Plan} {b b' b'' : Buffer Position} {vs : List Position}

/-- The pivot is behind the vertices that are added before it, too. -/
theorem Detours.after {first last : Position} (h : b.Gains vs b')
    (h' : p.Detours first last b' [] b'') : p.Detours first last b vs b'' := by
  obtain ⟨⟨drawn, hdrawn, hsettled, hlong, hbehind⟩, hgains⟩ := h'
  have hsize := h.size_eq
  exact ⟨⟨drawn, h.trans hdrawn, hsettled, hlong, by omega⟩, hgains.imp h.trans h.trans⟩

theorem EndsArc.after {arc : Option (Position × Position)} (h : b.Gains vs b')
    (h' : p.EndsArc arc b' [] b'') : p.EndsArc arc b vs b'' := by
  unfold EndsArc at h' ⊢
  cases arc with
  | none =>
    have hboth := h.trans h'
    rwa [List.append_nil] at hboth
  | some ends =>
    by_cases hopen : (ends.1 != ends.2) = true
    · simp only [hopen, ↓reduceIte] at h' ⊢
      exact h'.after h
    · simp only [hopen, Bool.false_eq_true, ↓reduceIte] at h' ⊢
      exact h.trans h'

theorem EndsArc.exists_gains {arc : Option (Position × Position)} (h : p.EndsArc arc b vs b') :
    ∃ ws, b.Gains ws b' := by
  unfold EndsArc at h
  split at h
  · exact ⟨_, h⟩
  · split at h
    · rcases h.gains with hstays | hmoves
      · exact ⟨_, hstays⟩
      · exact ⟨_, hmoves⟩
    · exact ⟨_, h⟩

end Plan

/-! ### What a call takes -/

/-- The edge that a vertex ends, if a polygon is in progress. -/
def Walk.edgeTo (w : Walk) (v : Position) : Option Edge := w.ends.map fun ends => (ends.2, v)

/-- The edge that closes the polygon in progress, if its last vertex is not the first. -/
def Walk.closing (w : Walk) : Option Edge :=
  w.ends.bind fun ends => if ends.1 != ends.2 then some (ends.2, ends.1) else none

namespace Outline

/-- The vertices that an edge adds to an outline: none if it is not kept, else its end, and its
    beginning before it unless the arc ends there already. -/
def strokes (p : Plan) (o : Outline) : Option Edge → List Position
  | none => []
  | some e => if p.keeps e then if o.endsAt e.1 then [e.2] else [e.1, e.2] else []

/-- The ends of the arc after an edge. -/
def arcWith (p : Plan) (o : Outline) : Option Edge → Option (Position × Position)
  | none => o.arc
  | some e => if p.keeps e then (o.extendArc e).arc else o.arc

/-- The end of a polygon adds its closing edge and what ends the arc. Between two polygons it
    adds nothing, even if the arc of an earlier polygon has been left open. -/
def EndsPolygon (p : Plan) (o : Outline) (b : Buffer Position) : Prop :=
  p.EndsArc (if o.walk.ends.isSome then o.arcWith p o.walk.closing else none) o.buffer
    (o.strokes p o.walk.closing) b

/-- Where the end of a polygon fails, it has added nothing or the closing edge. -/
def BreaksOff (p : Plan) (o : Outline) (b : Buffer Position) : Prop :=
  o.buffer.Gains [] b ∨ o.buffer.Gains (o.strokes p o.walk.closing) b

variable {p : Plan} {o : Outline}

theorem Adds.gains {vs : List Position} {o' : Outline} (h : o.Adds vs o') :
    o.buffer.Gains vs o'.buffer := by
  obtain ⟨b, hb, rfl⟩ := h
  exact hb

/-- How far the border has been walked plays no part in what an edge adds. -/
@[simp] theorem strokes_walk (w : Walk) (e : Option Edge) :
    strokes p { o with walk := w } e = o.strokes p e := by
  cases e <;> rfl

@[simp] theorem arcWith_walk (w : Walk) (e : Option Edge) :
    arcWith p { o with walk := w } e = o.arcWith p e := by
  cases e with
  | none => rfl
  | some e =>
    unfold arcWith extendArc
    cases o.arc <;> rfl

end Outline

namespace Drawing

variable {o : Outline}

/-! ### Edges -/

/-- Room for more vertices is made without adding any. -/
theorem room_adds (n : Nat) (o : Outline) :
    Ensures (room n) o
      (fun _ o' => o.Adds [] o' ∧ o'.buffer.Sound o'.buffer.initialCapacity o'.buffer.limit ∧
        o'.buffer.size + n ≤ o'.buffer.limit)
      (fun _ o' => o' = o) := by
  apply Ensures.intro
  · intro _ o' hok
    have hadds := room_ok hok
    unfold room at hok
    split at hok
    · next b hroom =>
      obtain ⟨hfits, rfl⟩ := Buffer.reserve_eq_ok hroom
      cases hok
      exact ⟨hadds, ⟨rfl, rfl, Nat.le_of_add_right_le hfits⟩, hfits⟩
    · cases hok
  · intro fault o' herror
    unfold room at herror
    split at herror <;> cases herror
    rfl

/-- One vertex is added or none. -/
theorem append_adds (v : Position) (o : Outline) :
    Ensures (append v) o (fun _ o' => o.Adds [v] o') (fun _ o' => o' = o) := by
  apply Ensures.intro
  · intro _ o' hok
    exact append_ok hok
  · intro fault o' herror
    unfold append at herror
    split at herror <;> cases herror
    rfl

/-- Vertices for which there is room are added. -/
theorem appendAll_adds {vs : List Position}
    (hs : o.buffer.Sound o.buffer.initialCapacity o.buffer.limit)
    (hroom : o.buffer.size + vs.length ≤ o.buffer.limit) :
    Ensures (appendAll vs) o (fun _ o' => o.Adds vs o') fun _ _ => False :=
  ((appendAll_ensures hs hroom).and_ok fun _ _ hok => appendAll_ok hok).mono_ok
    fun _ _ h => h.2

/-- An edge is added whole or not at all. -/
theorem takeEdge_adds (p : Plan) (e : Edge) (o : Outline) :
    Ensures (takeEdge p e) o
      (fun _ o' => o.buffer.Gains (o.strokes p (some e)) o'.buffer ∧
        o'.arc = o.arcWith p (some e))
      (fun _ o' => o' = o) := by
  unfold takeEdge Outline.strokes Outline.arcWith
  by_cases hkeep : p.keeps e = true
  · rw [if_pos hkeep]
    simp only [if_pos hkeep]
    set vs := if o.endsAt e.1 then [e.2] else [e.1, e.2] with hvs
    refine (room_adds 2 o).bind ?_
    rintro _ o₁ ⟨⟨b, hb, rfl⟩, hs, hroom⟩
    refine Ensures.bind_of_ok rfl ?_
    -- an edge is one vertex or two, and room was made for two
    have hlength : vs.length ≤ 2 := by rw [hvs]; split <;> simp
    have hadd := appendAll_adds hs (Nat.le_trans (Nat.add_le_add_left hlength _) hroom)
    refine hadd.seq (fun _ _ h => h.elim) ?_
    rintro _ _ ⟨c, hc, rfl⟩
    have hgains : o.buffer.Gains vs c := by
      rw [List.append_nil] at hb
      rw [Buffer.Gains, hc, ← hb]
    show o.buffer.Gains vs (Outline.extendArc e { o with buffer := c }).buffer ∧
      (Outline.extendArc e { o with buffer := c }).arc = (o.extendArc e).arc
    unfold Outline.extendArc
    cases o.arc <;> exact ⟨hgains, rfl⟩
  · rw [if_neg hkeep]
    simp only [if_neg hkeep]
    exact ⟨.refl _, rfl⟩

theorem takeClosing_adds (p : Plan) (closing : Option Edge) (o : Outline) :
    Ensures (takeClosing p closing) o
      (fun _ o' => o.buffer.Gains (o.strokes p closing) o'.buffer ∧
        o'.arc = o.arcWith p closing)
      (fun _ o' => o' = o) := by
  cases closing with
  | none => exact ⟨.refl _, rfl⟩
  | some e => exact takeEdge_adds p e o

/-! ### Ends of polygons -/

/-- The pivot is moved or stays, and no other vertex changes. -/
theorem settle_buffer (p : Plan) (opposite : Position) (o : Outline) :
    (o.settle p opposite).buffer = o.buffer ∨
      (o.settle p opposite).buffer =
        o.buffer.replace (o.buffer.size - pivotFromEnd) opposite := by
  unfold Outline.settle
  split
  · exact .inl rfl
  · dsimp only
    split <;> exact .inr rfl

/-- A detour is added whole or not at all. -/
theorem closeArc_adds (p : Plan) (first last : Position) (o : Outline) :
    Ensures (closeArc p first last) o (fun _ o' => p.Detours first last o.buffer [] o'.buffer)
      (fun _ o' => o' = o) := by
  set d := p.detourFor first last with hd
  refine (room_adds closingSize o).bind ?_
  rintro _ o₁ ⟨hadds, hs, hroom⟩
  have hfits : o₁.buffer.size + (d.closing first).length ≤ o₁.buffer.limit := hroom
  refine (appendAll_adds hs hfits).seq (fun _ _ h => h.elim) ?_
  intro _ drawn hclosing
  have hdrawn : o.buffer.Gains (d.closing first) drawn.buffer :=
    hadds.gains.trans hclosing.gains
  have hsize : drawn.buffer.size = o.buffer.size + 5 := hdrawn.size_eq
  refine ⟨⟨drawn, hdrawn, rfl, ?_, ?_⟩, ?_⟩
  · show 4 ≤ drawn.buffer.size
    omega
  · show o.buffer.size ≤ drawn.buffer.size - 4
    omega
  · rcases settle_buffer p d.opposite drawn with hstays | hmoves
    · left
      show o.buffer.Gains (d.closing first) (drawn.settle p d.opposite).buffer
      rw [hstays]
      exact hdrawn
    · right
      show (drawn.settle p d.opposite).buffer.toList = o.buffer.toList ++ d.turned.closing first
      rw [hmoves, Buffer.toList_replace, ← Buffer.length_toList, hdrawn]
      exact d.set_pivot o.buffer.toList first

theorem endArc_adds (p : Plan) (arc : Option (Position × Position)) (o : Outline) :
    Ensures (endArc p arc) o (fun _ o' => p.EndsArc arc o.buffer [] o'.buffer)
      (fun _ o' => o' = o) := by
  match arc with
  | none => exact .refl _
  | some (first, last) =>
    unfold Plan.EndsArc endArc
    by_cases hopen : (first != last) = true
    · simp only [hopen, ↓reduceIte]
      exact (closeArc_adds p first last o).bind fun _ _ h => h
    · simp only [hopen, Bool.false_eq_true, ↓reduceIte]
      exact (append_adds .null o).bind fun _ _ h => h.gains

/-- The end of a polygon adds its closing edge, or fails before, and then adds what ends the
    arc, or fails between the two. -/
theorem endPolygon_adds (p : Plan) (closing : Option Edge) (o : Outline) :
    Ensures (endPolygon p closing) o
      (fun _ o' => p.EndsArc (o.arcWith p closing) o.buffer (o.strokes p closing) o'.buffer)
      (fun _ o' => o.buffer.Gains [] o'.buffer ∨
        o.buffer.Gains (o.strokes p closing) o'.buffer) := by
  refine (takeClosing_adds p closing o).seq ?_ ?_
  · rintro _ _ rfl
    exact .inl (.refl _)
  · rintro _ o₁ ⟨hgains, harc⟩
    refine Ensures.bind_of_ok rfl ?_
    rw [← harc]
    refine (endArc_adds p o₁.arc { o₁ with arc := none }).seq ?_ ?_
    · rintro _ _ rfl
      exact .inr hgains
    · intro _ o₂ hends
      exact hends.after hgains

/-! ### Calls -/

theorem push_vertex_adds (p : Plan) (v : Position) (o : Outline) :
    Ensures (push p (.vertex v)) o
      (fun _ o' => o.buffer.Gains (o.strokes p (o.walk.edgeTo v)) o'.buffer)
      (fun _ o' => o.buffer.Gains [] o'.buffer) := by
  refine Ensures.bind_of_ok (a := (o.walk.advance (.vertex v)).1)
    (t := { o with walk := (o.walk.advance (.vertex v)).2 }) rfl ?_
  unfold Walk.edgeTo Walk.advance
  cases hends : o.walk.ends with
  | none => exact .refl _
  | some ends =>
    refine (takeEdge_adds p (ends.2, v) _).mono (fun _ _ h => h.1) ?_
    rintro _ _ rfl
    exact .refl _

/-- The polygon in progress is ended, and between two polygons nothing is. -/
theorem draw_close_adds (p : Plan) (o : Outline) :
    Ensures (draw p o.walk.close.1) { o with walk := o.walk.close.2 }
      (fun _ o' => o.EndsPolygon p o'.buffer) (fun _ o' => o.BreaksOff p o'.buffer) := by
  unfold Outline.EndsPolygon Outline.BreaksOff Walk.closing Walk.close
  cases hends : o.walk.ends with
  | none => exact .refl _
  | some ends =>
    have hend := endPolygon_adds p (if ends.1 != ends.2 then some (ends.2, ends.1) else none)
      { o with walk := { o.walk with ends := none } }
    rw [Outline.strokes_walk, Outline.arcWith_walk] at hend
    exact hend

theorem push_delimiter_adds (p : Plan) (o : Outline) :
    Ensures (push p .delimiter) o (fun _ o' => o.EndsPolygon p o'.buffer)
      (fun _ o' => o.BreaksOff p o'.buffer) :=
  Ensures.bind_of_ok (a := o.walk.close.1) (t := { o with walk := o.walk.close.2 }) rfl
    (draw_close_adds p o)

theorem finish_adds (p : Plan) (o : Outline) :
    Ensures (finish p) o (fun _ o' => o.EndsPolygon p o'.buffer)
      (fun _ o' => o.BreaksOff p o'.buffer) := by
  refine Ensures.bind_of_ok (a := o.walk.close.1) (t := { o with walk := o.walk.close.2 }) rfl ?_
  exact (draw_close_adds p o).bind fun _ _ h => h

/-! ### Drawings that go on after faults -/

/-- The outline that a call leaves, whichever way it ends. -/
def left {α : Type} (x : Drawing α) (o : Outline) : Outline :=
  match x o with
  | .ok _ o' => o'
  | .error _ o' => o'

/-- The outline after some records, each of them taken whether those before it could be taken
    or not. -/
def goOn (p : Plan) (records : List BorderRecord) (o : Outline) : Outline :=
  records.foldl (fun o r => (push p r).left o) o

theorem left_gains {α : Type} {x : Drawing α}
    (h : Ensures x o (fun _ o' => ∃ vs, o.buffer.Gains vs o'.buffer)
      (fun _ o' => ∃ vs, o.buffer.Gains vs o'.buffer)) :
    ∃ vs, o.buffer.Gains vs (x.left o).buffer := by
  unfold left
  cases hx : x o with
  | ok a o' => exact h.of_ok hx
  | error fault o' => exact h.of_error hx

/-- A record adds to the buffer. -/
theorem push_gains (p : Plan) (r : BorderRecord) (o : Outline) :
    ∃ vs, o.buffer.Gains vs ((push p r).left o).buffer := by
  apply left_gains
  cases r with
  | vertex v => exact (push_vertex_adds p v o).mono (fun _ _ h => ⟨_, h⟩) fun _ _ h => ⟨_, h⟩
  | delimiter =>
    refine (push_delimiter_adds p o).mono (fun _ _ h => h.exists_gains) ?_
    intro _ o' hbroken
    rcases hbroken with hnothing | hclosing
    · exact ⟨_, hnothing⟩
    · exact ⟨_, hclosing⟩

theorem goOn_gains (p : Plan) (records : List BorderRecord) (o : Outline) :
    ∃ vs, o.buffer.Gains vs (goOn p records o).buffer := by
  induction records generalizing o with
  | nil => exact ⟨[], .refl _⟩
  | cons r rest ih =>
    obtain ⟨vs, hfirst⟩ := push_gains p r o
    obtain ⟨ws, hrest⟩ := ih ((push p r).left o)
    exact ⟨vs ++ ws, hfirst.trans hrest⟩

/-- Whatever records were taken, and whichever of them failed, what was in the buffer stays
    there, and the next call adds whole units behind it. A vertex adds the edge that it ends,
    and nothing if it fails. A delimiter, or the end of the border, adds the closing edge of the
    polygon in progress and what ends its arc; if it fails, it has added the closing edge or
    nothing. -/
theorem goOn_adds_units (p : Plan) (begun : Outline) (records : List BorderRecord) :
    let o := goOn p records begun
    (∃ vs, begun.buffer.Gains vs o.buffer) ∧
      (∀ v, Ensures (push p (.vertex v)) o
        (fun _ o' => o.buffer.Gains (o.strokes p (o.walk.edgeTo v)) o'.buffer)
        (fun _ o' => o.buffer.Gains [] o'.buffer)) ∧
      Ensures (push p .delimiter) o (fun _ o' => o.EndsPolygon p o'.buffer)
        (fun _ o' => o.BreaksOff p o'.buffer) ∧
      Ensures (finish p) o (fun _ o' => o.EndsPolygon p o'.buffer)
        (fun _ o' => o.BreaksOff p o'.buffer) := by
  intro o
  exact ⟨goOn_gains p records begun, fun v => push_vertex_adds p v o, push_delimiter_adds p o,
    finish_adds p o⟩

end Drawing

end Border

end Airspace

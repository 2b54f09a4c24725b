import Airspace.Proofs.Block

/-! # Drawings

  A drawing that succeeds puts the blocks of all polygons into the buffer, in their order
  and after what was there before. The invariant that carries this through a run says of
  an outline that it holds the blocks of the polygons that have ended, and after them the
  arc of the polygon in progress; a record takes it from one such outline to the next.

  Numbers drift nowhere: the polygon that a walk is in has the number one above those
  that have ended, and this is the number the reference is compared with.
-/

namespace Airspace

/-- A computation in two parts succeeds only if both parts do. -/
theorem bind_eq_ok {ε σ α β : Type} {x : EStateM ε σ α} {f : α → EStateM ε σ β} {s s' : σ} {b : β}
    (h : (x >>= f) s = .ok b s') : ∃ a s₁, x s = .ok a s₁ ∧ f a s₁ = .ok b s' := by
  change EStateM.bind x f s = .ok b s' at h
  unfold EStateM.bind at h
  split at h
  · next a s₁ hx => exact ⟨a, s₁, hx, h⟩
  · cases h

/-- Where the first part gives a value, the second one decides. -/
theorem bind_of_ok {ε σ α β : Type} {x : EStateM ε σ α} {f : α → EStateM ε σ β} {s s₁ : σ} {a : α}
    (hx : x s = .ok a s₁) : (x >>= f) s = f a s₁ := by
  show EStateM.bind x f s = _
  simp only [EStateM.bind, hx]

/-- A fault in the first part ends the computation. -/
theorem bind_of_error {ε σ α β : Type} {x : EStateM ε σ α} {f : α → EStateM ε σ β} {s s₁ : σ}
    {e : ε} (hx : x s = .error e s₁) : (x >>= f) s = .error e s₁ := by
  show EStateM.bind x f s = _
  simp only [EStateM.bind, hx]

namespace Border

/-! ### All polygons -/

namespace Plan

/-- The blocks of polygons, of which the first has the number 1. -/
def blocks (p : Plan) (ps : List (List Position)) : List Position :=
  (ps.zipIdx 1).flatMap fun q => p.block (p.reference == q.2) q.1

/-- The counts over polygons, of which the first has the number 1. -/
def tally (p : Plan) (ps : List (List Position)) : Summary where
  seen := ps.length
  retained := ps.countP p.retains
  closed := ps.countP p.detours
  flipped := (ps.zipIdx 1).countP fun q => p.turns (p.reference == q.2) q.1
  unresolved := (ps.zipIdx 1).countP fun q => p.misses (p.reference == q.2) q.1

/-- The counts with one polygon more; the polygons seen are counted at the end. -/
def count (p : Plan) (expected : Bool) (vs : List Position) (s : Summary) : Summary where
  seen := s.seen
  retained := s.retained + (p.retains vs).toNat
  closed := s.closed + (p.detours vs).toNat
  flipped := s.flipped + (p.turns expected vs).toNat
  unresolved := s.unresolved + (p.misses expected vs).toNat

/-- What does not depend on the numbers can be counted without them. -/
theorem countP_zipIdx {α : Type} (f : α → Bool) (xs : List α) :
    (xs.zipIdx 1).countP (fun q => f q.1) = xs.countP f := by
  have hmap : ((xs.zipIdx 1).map Prod.fst).countP f = xs.countP f := by
    rw [List.zipIdx_map_fst]
  rw [← hmap, List.countP_map]
  rfl

theorem zipIdx_concat {α : Type} (xs : List α) (x : α) :
    (xs ++ [x]).zipIdx 1 = xs.zipIdx 1 ++ [(x, xs.length + 1)] := by
  rw [List.zipIdx_append, Nat.add_comm]
  rfl

theorem blocks_singleton (p : Plan) (vs : List Position) :
    p.blocks [vs] = p.block (p.reference == 1) vs := List.append_nil _

/-- One polygon more is one block more. -/
theorem blocks_concat (p : Plan) (ps : List (List Position)) (vs : List Position) :
    p.blocks (ps ++ [vs]) = p.blocks ps ++ p.block (p.reference == ps.length + 1) vs := by
  rw [blocks, zipIdx_concat, List.flatMap_append, List.flatMap_singleton]
  rfl

/-- As soon as something is kept of a polygon, the blocks have at least three vertices. -/
theorem three_le_length_blocks {p : Plan} {ps : List (List Position)} (h : p.blocks ps ≠ []) :
    3 ≤ (p.blocks ps).length := by
  obtain ⟨q, hq, hsome⟩ : ∃ q ∈ ps.zipIdx 1, p.block (p.reference == q.2) q.1 ≠ [] := by
    by_contra hnone
    apply h
    rw [blocks, List.flatMap_eq_nil_iff]
    intro q hq
    by_contra hsome
    exact hnone ⟨q, hq, hsome⟩
  have hretains : p.retains q.1 = true := by
    by_contra hno
    have hkept : p.kept q.1 = [] := by
      by_contra hne
      exact hno (retains_iff.mpr hne)
    exact hsome (block_of_not_retains hkept _).1
  have hsub : (p.block (p.reference == q.2) q.1).Sublist (p.blocks ps) := by
    rw [blocks, List.flatMap_def]
    exact List.sublist_flatten_of_mem (List.mem_map.mpr ⟨q, hq, rfl⟩)
  exact Nat.le_trans (three_le_length_block hretains _) hsub.length_le

/-- One polygon more is counted once in each of the counts it belongs to. -/
theorem tally_concat (p : Plan) (ps : List (List Position)) (vs : List Position) :
    p.tally (ps ++ [vs]) = { p.count (p.reference == ps.length + 1) vs (p.tally ps) with
      seen := ps.length + 1 } := by
  have hone : ∀ {α : Type} (f : α → Bool) (x : α), [x].countP f = (f x).toNat := by
    intro α f x
    rw [List.countP_singleton]
    cases f x <;> rfl
  unfold tally count
  simp only [zipIdx_concat, List.countP_append, hone, List.length_append, List.length_singleton]

end Plan

/-! ### More vertices -/

/-- An outline with more vertices at the end of its buffer, which may have grown. -/
def Outline.Adds (o : Outline) (vs : List Position) (o' : Outline) : Prop :=
  ∃ b : Buffer Position, b.toList = o.buffer.toList ++ vs ∧ o' = { o with buffer := b }

/-- Nothing is added where nothing changes. -/
theorem Outline.Adds.refl (o : Outline) : o.Adds [] o :=
  ⟨o.buffer, (List.append_nil _).symm, rfl⟩

/-- What is added in two steps. -/
theorem Outline.Adds.trans {o o' o'' : Outline} {vs ws : List Position} (h : o.Adds vs o')
    (h' : o'.Adds ws o'') : o.Adds (vs ++ ws) o'' := by
  obtain ⟨b, hb, rfl⟩ := h
  obtain ⟨c, hc, rfl⟩ := h'
  refine ⟨c, ?_, rfl⟩
  rw [hc]
  show b.toList ++ ws = _
  rw [hb, List.append_assoc]

namespace Drawing

variable {p : Plan} {o o' : Outline}

theorem room_ok {n : Nat} (h : room n o = .ok () o') : o.Adds [] o' := by
  unfold room at h
  split at h
  · next b hroom =>
    obtain ⟨-, rfl⟩ := Buffer.reserve_eq_ok hroom
    cases h
    refine ⟨_, ?_, rfl⟩
    exact (List.append_nil o.buffer.toList).symm
  · cases h

theorem append_ok {v : Position} (h : append v o = .ok () o') : o.Adds [v] o' := by
  unfold append at h
  split at h
  · next b hpush =>
    cases h
    exact ⟨b, Buffer.toList_of_push hpush, rfl⟩
  · cases h

theorem appendAll_ok {vs : List Position} (h : appendAll vs o = .ok () o') : o.Adds vs o' := by
  induction vs generalizing o with
  | nil =>
    cases h
    exact .refl _
  | cons v vs ih =>
    obtain ⟨_, o₁, hv, hvs⟩ := bind_eq_ok h
    exact (append_ok hv).trans (ih hvs)

/-! ### Edges -/

/-- An outline that holds the arc over some edges after what was there before. -/
structure Holding (before : List Position) (es : List Edge) (o : Outline) : Prop where
  /-- The arc begins where the polygon does. -/
  start : o.start = before.length
  /-- Its ends are remembered. -/
  arc : o.arc = arcEnds es
  /-- It stands in the buffer. -/
  items : o.buffer.toList = before ++ arcAfter none es

variable {before : List Position} {es : List Edge}

/-- How far the border has been walked plays no part. -/
theorem Holding.walk (ho : Holding before es o) (w : Walk) :
    Holding before es { o with walk := w } :=
  ⟨ho.start, ho.arc, ho.items⟩

/-- A kept edge goes on with the arc. -/
theorem keepEdge_ok {e : Edge} (ho : Holding before es o) (h : keepEdge e o = .ok () o') :
    Holding before (es ++ [e]) o' ∧ o'.walk = o.walk ∧ o'.summary = o.summary := by
  obtain ⟨_, o₁, hroom, h⟩ := bind_eq_ok h
  obtain ⟨_, _, hget, h⟩ := bind_eq_ok h
  cases hget
  obtain ⟨_, o₂, hadd, h⟩ := bind_eq_ok h
  cases h
  obtain ⟨b, hb, rfl⟩ := room_ok hroom
  obtain ⟨c, hc, rfl⟩ := appendAll_ok hadd
  have hends : ({ o with buffer := b } : Outline).endsAt e.1 =
      (arcEnds es).any (·.2 == e.1) := by
    rw [← ho.arc]
    unfold Outline.endsAt
    cases o.arc <;> rfl
  have hitems : c.toList = before ++ arcAfter none (es ++ [e]) := by
    rw [hc, hends]
    show b.toList ++ _ = _
    rw [hb, List.append_nil, ho.items, List.append_assoc, ← arcAfter_concat]
  unfold Outline.extendArc
  rcases empty_or_arcEnds es with rfl | ⟨first, last, harc⟩
  · have hnone : o.arc = none := ho.arc
    rw [hnone]
    exact ⟨⟨ho.start, rfl, hitems⟩, rfl, rfl⟩
  · have hsome : o.arc = some (first, last) := ho.arc.trans harc
    rw [hsome]
    exact ⟨⟨ho.start, (arcEnds_concat harc e).symm, hitems⟩, rfl, rfl⟩

/-- An edge goes on with the arc if it is within reach. -/
theorem takeEdge_ok {e : Edge} (ho : Holding before es o) (h : takeEdge p e o = .ok () o') :
    Holding before (es ++ [e].filter p.keeps) o' ∧ o'.walk = o.walk ∧ o'.summary = o.summary := by
  unfold takeEdge at h
  by_cases hkeep : p.keeps e = true
  · rw [if_pos hkeep] at h
    rw [List.filter_cons_of_pos hkeep]
    exact keepEdge_ok ho h
  · rw [if_neg hkeep] at h
    rw [List.filter_cons_of_neg hkeep, List.filter_nil, List.append_nil]
    cases h
    exact ⟨ho, rfl, rfl⟩

theorem takeClosing_ok {closing : Option Edge} (ho : Holding before es o)
    (h : takeClosing p closing o = .ok () o') :
    Holding before (es ++ closing.toList.filter p.keeps) o' ∧ o'.walk = o.walk ∧
      o'.summary = o.summary := by
  cases closing with
  | none =>
    rw [Option.toList_none, List.filter_nil, List.append_nil]
    cases h
    exact ⟨ho, rfl, rfl⟩
  | some e => exact takeEdge_ok ho h

/-! ### Ends of arcs -/

variable {vs : List Position} {first last : Position}

/-- A block at the end of the buffer is tested as if nothing stood before it. -/
theorem agrees_eq {block : List Position} (hstart : o.start = before.length)
    (hitems : o.buffer.toList = before ++ block) (h : 3 ≤ block.length) :
    o.agrees p = (Region.contains block p.origin 0 == (p.reference == o.walk.polygon)) := by
  rw [Outline.agrees, hitems, hstart, Region.contains_block before h]

/-- The pivot ends up on the side that the block says. -/
theorem settle_eq (hstart : o.start = before.length)
    (hitems : o.buffer.toList = before ++ p.forward vs first last)
    (hends : arcEnds (p.kept vs) = some (first, last)) (hopen : (first != last) = true) :
    ∃ b : Buffer Position,
      b.toList = before ++ p.block (p.reference == o.walk.polygon) vs ∧
      o.settle p (p.detourFor first last).opposite = { o with
        buffer := b
        summary := { o.summary with
          flipped := o.summary.flipped + (p.turns (p.reference == o.walk.polygon) vs).toNat
          unresolved := o.summary.unresolved +
            (p.misses (p.reference == o.walk.polygon) vs).toNat } } := by
  set expected := p.reference == o.walk.polygon
  obtain ⟨hblock, hretains, -, hturns⟩ := Plan.block_of_open hends hopen expected
  have hlong : 3 ≤ (p.forward vs first last).length := by
    rw [Plan.forward, List.length_append]
    exact Nat.le_add_left_of_le (Nat.le_of_ble_eq_true rfl)
  have hagrees : o.agrees p = !p.turns expected vs := by
    rw [agrees_eq hstart hitems hlong, hturns, bne, Bool.not_not]
  cases hside : p.turns expected vs with
  | false =>
    rw [hside, if_neg Bool.false_ne_true] at hblock
    have hmisses : p.misses expected vs = false := by rw [Plan.misses, hside, Bool.false_and]
    rw [hside, Bool.not_false] at hagrees
    rw [hmisses, hblock, Outline.settle, if_pos hagrees]
    exact ⟨o.buffer, hitems, rfl⟩
  | true =>
    rw [hside, if_pos rfl] at hblock
    -- the detour is turned in the buffer, and the arc is tested once more
    set turned := o.buffer.replace (o.buffer.size - pivotFromEnd) (p.detourFor first last).opposite
      with hset
    have hturned : turned.toList = before ++ p.backward vs first last := by
      rw [hset, Buffer.toList_replace, ← Buffer.length_toList, hitems, Plan.forward,
        ← List.append_assoc, Detour.set_pivot, List.append_assoc, Plan.backward]
    have hmisses : p.misses expected vs =
        (Region.contains (p.backward vs first last) p.origin 0 != expected) := by
      rw [Plan.misses, hside, Bool.true_and, hblock]
    have hlong' : 3 ≤ (p.backward vs first last).length :=
      hblock ▸ Plan.three_le_length_block hretains expected
    -- the outline with the turned detour differs from this one in its buffer alone
    have hagain : ({ o with buffer := turned } : Outline).agrees p = !p.misses expected vs := by
      rw [agrees_eq (o := { o with buffer := turned }) hstart hturned hlong', hmisses, bne,
        Bool.not_not]
    rw [hside, Bool.not_true] at hagrees
    rw [hblock]
    refine ⟨turned, hturned, ?_⟩
    simp only [Outline.settle, hagrees, ← hset, hagain, Bool.false_eq_true, ↓reduceIte]
    cases p.misses expected vs <;> rfl

/-- A detour closes an arc on the side that its block says. -/
theorem closeArc_ok (hstart : o.start = before.length)
    (hitems : o.buffer.toList = before ++ p.arc vs)
    (hends : arcEnds (p.kept vs) = some (first, last)) (hopen : (first != last) = true)
    (h : closeArc p first last o = .ok () o') :
    ∃ b : Buffer Position,
      b.toList = before ++ p.block (p.reference == o.walk.polygon) vs ∧
      o' = { o with
        buffer := b
        summary := { o.summary with
          flipped := o.summary.flipped + (p.turns (p.reference == o.walk.polygon) vs).toNat
          unresolved := o.summary.unresolved +
            (p.misses (p.reference == o.walk.polygon) vs).toNat } } := by
  obtain ⟨_, o₁, hroom, h⟩ := bind_eq_ok h
  obtain ⟨_, o₂, hadd, h⟩ := bind_eq_ok h
  obtain ⟨b, hb, hadds⟩ := (room_ok hroom).trans (appendAll_ok hadd)
  cases h
  subst hadds
  rw [List.nil_append, hitems, List.append_assoc] at hb
  exact settle_eq (o := { o with buffer := b }) hstart hb hends hopen

/-- What is kept of a polygon ends as its block. -/
theorem endArc_ok (hstart : o.start = before.length)
    (hitems : o.buffer.toList = before ++ p.arc vs)
    (h : endArc p (arcEnds (p.kept vs)) o = .ok () o') :
    ∃ b : Buffer Position,
      b.toList = before ++ p.block (p.reference == o.walk.polygon) vs ∧
      o' = { o with
        buffer := b
        summary := p.count (p.reference == o.walk.polygon) vs o.summary } := by
  set expected := p.reference == o.walk.polygon with hexpected
  rcases p.kinds vs with hkept | ⟨first, last, hends, hclosed⟩ | ⟨first, last, hends, hopen⟩
  · -- nothing is kept
    obtain ⟨hblock, hretains, hdetours, hturns⟩ := Plan.block_of_not_retains hkept expected
    rw [hkept, arcEnds_nil] at h
    cases h
    refine ⟨o.buffer, ?_, ?_⟩
    · rw [hitems, hblock, Plan.arc, hkept]
      rfl
    · rw [Plan.count, Plan.misses, hretains, hdetours, hturns]
      rfl
  · -- a separator ends the arc
    obtain ⟨hblock, hretains, hdetours, hturns⟩ := Plan.block_of_closed hends hclosed expected
    rw [hends] at h
    simp only [endArc, hclosed, Bool.false_eq_true, ↓reduceIte] at h
    obtain ⟨_, o₁, hadd, hcount⟩ := bind_eq_ok h
    cases hcount
    obtain ⟨b, hb, rfl⟩ := append_ok hadd
    refine ⟨b, ?_, ?_⟩
    · rw [hb, hitems, hblock, List.append_assoc]
    · rw [Plan.count, Plan.misses, hretains, hdetours, hturns]
      rfl
  · -- a detour closes the arc
    obtain ⟨-, hretains, hdetours, -⟩ := Plan.block_of_open hends hopen expected
    rw [hends] at h
    simp only [endArc, hopen, ↓reduceIte] at h
    obtain ⟨_, o₁, hclose, hcount⟩ := bind_eq_ok h
    cases hcount
    obtain ⟨b, hb, rfl⟩ := closeArc_ok hstart hitems hends hopen hclose
    refine ⟨b, hb, ?_⟩
    rw [Plan.count, hretains, hdetours]
    rfl

/-! ### The invariant -/

/-- The number of the latest polygon after some polygons have ended and some vertices of
    the next one have been seen. -/
def latest (ps : List (List Position)) (seen : List Position) : Nat :=
  if seen = [] then ps.length else ps.length + 1

/-- An outline that holds what was there before, the blocks of the polygons that have
    ended, and the arc of the polygon in progress, of which some vertices have been
    seen. -/
structure Drawn (p : Plan) (before : List Position) (ps : List (List Position))
    (seen : List Position) (o : Outline) : Prop where
  /-- The walk is in the polygon in progress. -/
  walk : o.walk = .midway (latest ps seen) seen
  /-- The arc of that polygon stands after the blocks. -/
  holding : Holding (before ++ p.blocks ps) ((path seen).filter p.keeps) o
  /-- The polygons that have ended are counted. -/
  summary : { o.summary with seen := ps.length } = p.tally ps

variable {ps : List (List Position)} {seen : List Position}

/-- An outline begins with what is in the buffer. -/
theorem drawn_new (p : Plan) (b : Buffer Position) : Drawn p b.toList [] [] (.new b) := by
  have hnone : b.toList ++ p.blocks [] = b.toList := List.append_nil b.toList
  refine ⟨rfl, ⟨?_, rfl, ?_⟩, rfl⟩
  · show b.size = (b.toList ++ p.blocks []).length
    rw [hnone, Buffer.length_toList]
  · show b.toList = b.toList ++ p.blocks [] ++ []
    rw [hnone, List.append_nil]

/-- The end of a polygon turns its arc into its block. -/
theorem endPolygon_ok (ho : Drawn p before ps seen o) (hseen : seen ≠ [])
    (h : endPolygon p (closing? seen) { o with walk := .midway (latest ps seen) [] } = .ok () o') :
    Drawn p before (ps ++ [seen]) [] o' := by
  have hlatest : latest ps seen = ps.length + 1 := if_neg hseen
  rw [hlatest] at h
  set o₀ : Outline := { o with walk := .midway (ps.length + 1) [] } with ho₀
  have hold : Holding (before ++ p.blocks ps) ((path seen).filter p.keeps) o₀ := ho.holding.walk _
  -- the closing edge is taken, then the arc, and what closes it comes last
  obtain ⟨_, o₁, hclosing, h⟩ := bind_eq_ok h
  obtain ⟨arc, o₂, htake, h⟩ := bind_eq_ok h
  cases htake
  obtain ⟨_, o₃, hend, h⟩ := bind_eq_ok h
  cases h
  obtain ⟨hold₁, hwalk₁, hsummary₁⟩ := takeClosing_ok hold hclosing
  have hkept : (path seen).filter p.keeps ++ (closing? seen).toList.filter p.keeps =
      p.kept seen := by
    rw [← List.filter_append]
    rfl
  rw [hkept] at hold₁
  rw [hold₁.arc] at hend
  obtain ⟨b, hb, rfl⟩ := endArc_ok (o := { o₁ with arc := none }) hold₁.start hold₁.items hend
  have hnumber : o₁.walk.polygon = ps.length + 1 := by
    rw [hwalk₁]
    rfl
  have hitems : b.toList = before ++ p.blocks (ps ++ [seen]) := by
    rw [hb, Plan.blocks_concat, ← List.append_assoc]
    show _ ++ p.block (p.reference == o₁.walk.polygon) seen = _
    rw [hnumber]
  refine ⟨?_, ⟨?_, rfl, ?_⟩, ?_⟩
  · show o₁.walk = .midway (latest (ps ++ [seen]) []) []
    rw [hwalk₁, latest, if_pos rfl, List.length_append]
    rfl
  · show b.size = _
    rw [← Buffer.length_toList, hitems]
  · show b.toList = _ ++ []
    rw [hitems, List.append_nil]
  · rw [Plan.tally_concat, ← ho.summary, List.length_append]
    show ({ p.count (p.reference == o₁.walk.polygon) seen o₁.summary with seen := _ } : Summary) = _
    rw [hnumber, hsummary₁]
    rfl

/-- A vertex goes on with the polygon in progress. -/
theorem push_vertex_ok {v : Position} (ho : Drawn p before ps seen o)
    (h : push p (.vertex v) o = .ok () o') : Drawn p before ps (seen ++ [v]) o' := by
  have hlatest : latest ps (seen ++ [v]) = ps.length + 1 :=
    if_neg (List.append_ne_nil_of_right_ne_nil seen (List.cons_ne_nil v []))
  obtain ⟨step, o₁, hstep, h⟩ := bind_eq_ok h
  change EStateM.Result.ok (o.walk.advance (.vertex v)).1
    { o with walk := (o.walk.advance (.vertex v)).2 } = _ at hstep
  rw [ho.walk] at hstep
  by_cases hseen : seen = []
  · -- the first vertex of a polygon is the end of no edge
    subst hseen
    rw [Walk.advance_first] at hstep
    cases hstep
    cases h
    exact ⟨congrArg (Walk.midway · [v]) hlatest.symm, ho.holding.walk _, ho.summary⟩
  · have hnumber : latest ps seen = latest ps (seen ++ [v]) := by
      rw [hlatest, latest, if_neg hseen]
    obtain ⟨first, last, hends⟩ := (empty_or_endpoints seen).resolve_left hseen
    rw [Walk.advance_vertex hends] at hstep
    cases hstep
    obtain ⟨hold, hwalk, hsummary⟩ := takeEdge_ok (ho.holding.walk _) h
    refine ⟨?_, ?_, ?_⟩
    · rw [hwalk, ← hnumber]
    · rw [path_concat hends, List.filter_append]
      exact hold
    · rw [hsummary]
      exact ho.summary

/-- A delimiter ends the polygon in progress. -/
theorem push_delimiter_ok (ho : Drawn p before ps seen o) (hseen : seen ≠ [])
    (h : push p .delimiter o = .ok () o') : Drawn p before (ps ++ [seen]) [] o' := by
  obtain ⟨step, o₁, hstep, h⟩ := bind_eq_ok h
  change EStateM.Result.ok o.walk.close.1 { o with walk := o.walk.close.2 } = _ at hstep
  rw [ho.walk, Walk.close_midway hseen] at hstep
  cases hstep
  exact endPolygon_ok ho hseen h

/-- Where no polygon is in progress, a delimiter changes nothing. -/
theorem push_delimiter_idle (ho : Drawn p before ps [] o)
    (h : push p .delimiter o = .ok () o') : Drawn p before ps [] o' := by
  obtain ⟨step, o₁, hstep, h⟩ := bind_eq_ok h
  change EStateM.Result.ok o.walk.close.1 { o with walk := o.walk.close.2 } = _ at hstep
  rw [ho.walk, Walk.close_idle] at hstep
  cases hstep
  cases h
  exact ⟨rfl, ho.holding.walk _, ho.summary⟩

/-- The end of the border ends the polygon in progress. -/
theorem finish_ok {s : Summary} (ho : Drawn p before ps seen o) (h : finish p o = .ok s o') :
    Drawn p before (ps ++ polygonsFrom seen []) [] o' ∧
      s = p.tally (ps ++ polygonsFrom seen []) := by
  have hdone : ∀ {qs o₁}, Drawn p before qs [] o₁ →
      ({ o₁.summary with seen := o₁.walk.polygon } : Summary) = p.tally qs := by
    intro qs o₁ ho₁
    rw [ho₁.walk, ← ho₁.summary]
    rfl
  obtain ⟨step, o₁, hstep, h⟩ := bind_eq_ok h
  change EStateM.Result.ok o.walk.close.1 { o with walk := o.walk.close.2 } = _ at hstep
  obtain ⟨_, o₂, hdraw, h⟩ := bind_eq_ok h
  cases h
  by_cases hseen : seen = []
  · subst hseen
    rw [ho.walk, Walk.close_idle] at hstep
    cases hstep
    cases hdraw
    have hsame : Drawn p before ps [] { o with walk := .midway (latest ps []) [] } :=
      ⟨rfl, ho.holding.walk _, ho.summary⟩
    rw [polygonsFrom_nil]
    show Drawn p before (ps ++ []) [] _ ∧ _ = p.tally (ps ++ [])
    rw [List.append_nil]
    exact ⟨hsame, hdone hsame⟩
  · rw [ho.walk, Walk.close_midway hseen] at hstep
    cases hstep
    have hlast := endPolygon_ok ho hseen hdraw
    rw [polygonsFrom_end hseen]
    exact ⟨hlast, hdone hlast⟩

/-- From wherever it stands, a drawing goes on to the blocks and the counts of all
    polygons. -/
theorem run_ok {s : Summary} {rest : List BorderRecord} (ho : Drawn p before ps seen o)
    (h : run p rest o = .ok s o') :
    Drawn p before (ps ++ polygonsFrom seen rest) [] o' ∧
      s = p.tally (ps ++ polygonsFrom seen rest) := by
  induction rest generalizing ps seen o with
  | nil => exact finish_ok ho h
  | cons r rest ih =>
    -- the induction is on the records that are left; each takes the invariant on
    obtain ⟨_, o₁, hpush, hrun⟩ := bind_eq_ok h
    cases r with
    | vertex v =>
      rw [polygonsFrom_vertex]
      exact ih (push_vertex_ok ho hpush) hrun
    | delimiter =>
      by_cases hseen : seen = []
      · subst hseen
        exact ih (push_delimiter_idle ho hpush) hrun
      · have hrest := ih (push_delimiter_ok ho hseen hpush) hrun
        rw [List.append_assoc] at hrest
        rw [polygonsFrom_delimiter hseen]
        exact hrest

/-- A drawing that succeeds adds the blocks of all polygons to the buffer and counts
    them. -/
theorem run_new {records : List BorderRecord} {b : Buffer Position} {s : Summary}
    (h : run p records (.new b) = .ok s o') :
    o'.buffer.toList = b.toList ++ p.blocks (polygons records) ∧
      s = p.tally (polygons records) := by
  obtain ⟨hdrawn, hs⟩ := run_ok (drawn_new p b) h
  refine ⟨?_, hs⟩
  rw [hdrawn.holding.items]
  exact List.append_nil _

end Drawing

end Border

end Airspace

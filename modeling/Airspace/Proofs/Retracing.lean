import Airspace.Proofs.Finding
import Airspace.Proofs.Overrun
import Airspace.Proofs.Reference

/-! # Records that lead nowhere

  Three kinds of records change nothing about a border: a delimiter between two polygons or
  behind the last one, a vertex that repeats the one before it, and a vertex at the end of a
  polygon that repeats its first one. Between two polygons a delimiter leaves a walk where it
  was, and so does a repeated vertex. A repeated first vertex closes the polygon with an edge
  of its own, and then its end carries none; without it the end carries that very edge.

  A search and a drawing cannot tell the difference, whatever is left of the border: they find
  the same polygon, keep the same vertices in the same buffer and count the same, or fail for
  the same reason. Where a border breaks off, this is said of its records alone; where it ends,
  the end of its last polygon belongs to it.
-/

namespace Airspace

/-- What a computation comes to: its value or its fault, and what shows of the state that it
    leaves. -/
def outcome {ε σ τ α : Type} (view : σ → τ) : EStateM.Result ε σ α → Except ε α × τ
  | .ok a s => (.ok a, view s)
  | .error fault s => (.error fault, view s)

/-- What follows the same beginning may differ as long as it comes to the same wherever the
    beginning leads. -/
theorem outcome_bind_congr {ε σ τ α β : Type} {view : σ → τ} {x : EStateM ε σ α}
    {f f' : α → EStateM ε σ β} {s : σ}
    (h : ∀ a s₁, x s = .ok a s₁ → outcome view (f' a s₁) = outcome view (f a s₁)) :
    outcome view ((x >>= f') s) = outcome view ((x >>= f) s) := by
  cases hx : x s with
  | ok a s₁ =>
    rw [bind_of_ok hx, bind_of_ok hx]
    exact h a s₁ hx
  | error fault s₁ => rw [bind_of_error hx, bind_of_error hx]

namespace Border

/-! ### Borders that cannot be told apart -/

/-- Nothing tells two borders apart, which both end or both break off. -/
structure Retraces (broken : Bool) (border border' : List BorderRecord) : Prop where
  found : broken = true → ∀ origin, (border'.foldl Search.push (.start origin)).found =
    (border.foldl Search.push (.start origin)).found
  reference : ∀ origin, Search.run origin border' = Search.run origin border
  feed : broken = true → ∀ (p : Plan) (b : Buffer Position),
    outcome Outline.buffer (Drawing.feed p border' (.new b)) =
      outcome Outline.buffer (Drawing.feed p border (.new b))
  run : broken = false → ∀ (p : Plan) (b : Buffer Position),
    outcome Outline.buffer (Drawing.run p border' (.new b)) =
      outcome Outline.buffer (Drawing.run p border (.new b))

namespace Retraces

variable {broken : Bool} {border border' border'' : List BorderRecord}

theorem refl (broken : Bool) (border : List BorderRecord) : Retraces broken border border :=
  ⟨fun _ _ => rfl, fun _ => rfl, fun _ _ _ => rfl, fun _ _ _ => rfl⟩

theorem symm (h : Retraces broken border border') : Retraces broken border' border :=
  ⟨fun hbroken origin => (h.found hbroken origin).symm, fun origin => (h.reference origin).symm,
    fun hbroken p b => (h.feed hbroken p b).symm, fun hends p b => (h.run hends p b).symm⟩

theorem trans (h : Retraces broken border border') (h' : Retraces broken border' border'') :
    Retraces broken border border'' :=
  ⟨fun hbroken origin => (h'.found hbroken origin).trans (h.found hbroken origin),
    fun origin => (h'.reference origin).trans (h.reference origin),
    fun hbroken p b => (h'.feed hbroken p b).trans (h.feed hbroken p b),
    fun hends p b => (h'.run hends p b).trans (h.run hends p b)⟩

end Retraces

/-! ### The polygon in progress -/

/-- The vertices seen so far of the polygon that is in progress after some records. -/
def inProgress (border : List BorderRecord) : List Position := (border.foldl stand ([], [])).2

theorem inProgress_concat_vertex (border : List BorderRecord) (v : Position) :
    inProgress (border ++ [.vertex v]) = inProgress border ++ [v] :=
  congrArg Prod.snd (placeAfter_concat border (.vertex v))

theorem inProgress_concat_delimiter (border : List BorderRecord) :
    inProgress (border ++ [.delimiter]) = [] := by
  unfold inProgress
  rw [List.foldl_append, List.foldl_cons, List.foldl_nil, stand]
  split <;> rfl

/-- The vertices of the polygon in progress have been read. -/
theorem mem_of_mem_inProgress {border : List BorderRecord} {v : Position}
    (h : v ∈ inProgress border) : .vertex v ∈ border := by
  induction border using List.reverseRecOn with
  | nil => cases h
  | append_singleton border r ih =>
    cases r with
    | vertex u =>
      rw [inProgress_concat_vertex, List.mem_append, List.mem_singleton] at h
      rcases h with h | rfl
      · exact List.mem_append_left _ (ih h)
      · exact List.mem_append_right _ List.mem_cons_self
    | delimiter =>
      rw [inProgress_concat_delimiter] at h
      cases h

/-- A polygon in progress that begins with a vertex has two ends. -/
theorem endpoints_of_head? {vs : List Position} {v : Position} (h : vs.head? = some v) :
    ∃ last, endpoints vs = some (v, last) := by
  cases vs with
  | nil => cases h
  | cons u us =>
    obtain rfl := Option.some.inj h
    exact ⟨_, rfl⟩

theorem exists_endpoints_concat (seen : List Position) (v : Position) :
    ∃ first, endpoints (seen ++ [v]) = some (first, v) := by
  rcases empty_or_endpoints seen with rfl | ⟨first, last, hends⟩
  · exact ⟨v, rfl⟩
  · exact ⟨first, endpoints_concat hends v⟩

/-- A delimiter at the end makes no polygon more. -/
theorem polygons_concat_delimiter (border : List BorderRecord) :
    polygons (border ++ [.delimiter]) = polygons border := by
  have hall := polygons_foldl_stand border ([], [])
  have hmore := polygons_foldl_stand (border ++ [.delimiter]) ([], [])
  rw [List.foldl_append, List.foldl_cons, List.foldl_nil, stand] at hmore
  show [] ++ polygonsFrom [] (border ++ [.delimiter]) = [] ++ polygonsFrom [] border
  rw [hmore, hall]
  by_cases hseen : (border.foldl stand ([], [])).2 = []
  · rw [if_pos hseen, hseen]
  · rw [if_neg hseen, polygonsFrom_end hseen]
    exact List.append_nil _

/-! ### Searches -/

namespace Search

variable {origin : Position}

/-- A search has found its polygon, or it is midway through the polygon in progress. -/
theorem foldl_push_eq (origin : Position) (border : List BorderRecord) :
    (∃ k, (border.foldl push (start origin)).found = some k) ∨
      ∃ k, border.foldl push (start origin) = midway origin k (inProgress border) := by
  have hat := at_foldl_push origin border
  unfold At at hat
  cases hfound : numberAround? origin (placeAfter border).1 with
  | some k =>
    rw [hfound] at hat
    exact Or.inl ⟨k, hat⟩
  | none =>
    rw [hfound] at hat
    exact Or.inr ⟨_, hat⟩

/-- A repeated vertex leaves a search where it was. -/
theorem push_again {v : Position} (hv : (v == v) = true) (k : Nat) (seen : List Position) :
    (midway origin k (seen ++ [v])).push (.vertex v) = midway origin k (seen ++ [v]) := by
  obtain ⟨first, hends⟩ := exists_endpoints_concat seen v
  have hmiss : origin.meets v v = false := Point.meets_of_beq hv
  rw [push_vertex, nextNumber, if_neg (by simp), midway, midway, path_concat hends,
    Point.crosses_append, Point.crosses_singleton, hmiss, Bool.xor_false, Walk.midway,
    Walk.midway, endpoints_concat hends, hends]

/-- A polygon that repeats its first vertex at its end contains the same positions. -/
theorem contains_back {vs : List Position} {v : Position} (hv : (v == v) = true)
    (hhead : vs.head? = some v) (origin : Position) :
    Ring.contains (vs ++ [v]) origin = Ring.contains vs origin := by
  obtain ⟨last, hends⟩ := endpoints_of_head? hhead
  rw [← crosses_boundary, ← crosses_boundary, boundary, boundary, path_concat hends, closing?,
    closing?, endpoints_concat hends, hends, Point.crosses_append, Point.crosses_append,
    Point.crosses_append, Point.crosses_singleton]
  have hself : (v != v) = false := by simp [bne, hv]
  simp only [Option.bind_some, hself, Bool.false_eq_true, ↓reduceIte, Option.toList_none,
    Point.crosses_nil, Bool.xor_false]
  by_cases hback : (v != last) = true
  · rw [if_pos hback, Option.toList_some, Point.crosses_singleton]
  · have hsame : (v == last) = true := by simpa [bne] using hback
    rw [if_neg hback, Point.meets_of_beq (Point.beq_symm hsame)]
    rfl

/-- A repeated first vertex makes no difference at the end of a polygon. -/
theorem push_back {v : Position} (hv : (v == v) = true) {seen : List Position}
    (hhead : seen.head? = some v) (k : Nat) :
    ((midway origin k seen).push (.vertex v)).push .delimiter =
      (midway origin k seen).push .delimiter := by
  have hseen : seen ≠ [] := by
    intro hnil
    simp [hnil] at hhead
  rw [push_vertex, nextNumber, if_neg hseen, push_delimiter k (by simp), push_delimiter k hseen,
    contains_back hv hhead]

theorem finish_back {v : Position} (hv : (v == v) = true) {seen : List Position}
    (hhead : seen.head? = some v) (k : Nat) :
    ((midway origin k seen).push (.vertex v)).finish = (midway origin k seen).finish := by
  have hseen : seen ≠ [] := by
    intro hnil
    simp [hnil] at hhead
  rw [push_vertex, nextNumber, if_neg hseen, finish_midway k (by simp), finish_midway k hseen,
    contains_back hv hhead]

end Search

/-! ### Drawings -/

namespace Drawing

variable {p : Plan} {o o' : Outline}

/-- A computation that does not look at how far the border has been walked. -/
def IgnoresWalk {α : Type} (x : Drawing α) : Prop :=
  ∀ (o : Outline) (w : Walk), x { o with walk := w } = match x o with
    | .ok a o' => .ok a { o' with walk := w }
    | .error fault o' => .error fault { o' with walk := w }

theorem IgnoresWalk.bind {α β : Type} {x : Drawing α} {f : α → Drawing β} (hx : IgnoresWalk x)
    (hf : ∀ a, IgnoresWalk (f a)) : IgnoresWalk (x >>= f) := by
  intro o w
  show EStateM.bind x f { o with walk := w } = match EStateM.bind x f o with
    | .ok b o' => .ok b { o' with walk := w }
    | .error fault o' => .error fault { o' with walk := w }
  simp only [EStateM.bind, hx o w]
  cases x o with
  | ok a o' => exact hf a o' w
  | error fault o' => rfl

theorem ignoresWalk_room (n : Nat) : IgnoresWalk (room n) := by
  intro o w
  unfold room
  cases o.buffer.reserve n <;> simp

theorem ignoresWalk_append (v : Position) : IgnoresWalk (append v) := by
  intro o w
  unfold append
  cases o.buffer.push v <;> simp

theorem ignoresWalk_appendAll (vs : List Position) : IgnoresWalk (appendAll vs) := by
  induction vs with
  | nil => exact fun _ _ => rfl
  | cons v vs ih => exact (ignoresWalk_append v).bind fun _ => ih

theorem ignoresWalk_extendArc (e : Edge) :
    IgnoresWalk (modify (·.extendArc e) : Drawing Unit) := by
  intro o w
  have hextend : ({ o with walk := w } : Outline).extendArc e =
      { o.extendArc e with walk := w } := by
    unfold Outline.extendArc
    cases o.arc <;> rfl
  exact congrArg (EStateM.Result.ok ()) hextend

theorem ignoresWalk_takeEdge (p : Plan) (e : Edge) : IgnoresWalk (takeEdge p e) := by
  unfold takeEdge
  split
  · apply (ignoresWalk_room 2).bind
    intro _ o w
    -- which vertices are added depends on the arc alone
    exact ((ignoresWalk_appendAll (if o.endsAt e.1 then [e.2] else [e.1, e.2])).bind
      fun _ => ignoresWalk_extendArc e) o w
  · exact fun _ _ => rfl

/-- What has been drawn after some records, if nothing went wrong. -/
theorem feed_ok {before : List Position} {ps : List (List Position)} {seen : List Position}
    {records : List BorderRecord} (ho : Drawn p before ps seen o)
    (h : feed p records o = .ok () o') :
    Drawn p before (records.foldl stand (ps, seen)).1 (records.foldl stand (ps, seen)).2 o' := by
  induction records generalizing ps seen o with
  | nil =>
    cases h
    exact ho
  | cons r rest ih =>
    obtain ⟨_, o₁, hpush, hrest⟩ := bind_eq_ok h
    rw [List.foldl_cons]
    cases r with
    | vertex v => exact ih (push_vertex_ok ho hpush) hrest
    | delimiter =>
      by_cases hseen : seen = []
      · subst hseen
        exact ih (push_delimiter_idle ho hpush) hrest
      · rw [stand, if_neg hseen]
        exact ih (push_delimiter_ok ho hseen hpush) hrest

/-- The walk remembers the ends of the polygon in progress. -/
theorem walk_ends_of_feed {border : List BorderRecord} {b : Buffer Position}
    (h : feed p border (.new b) = .ok () o) : o.walk.ends = endpoints (inProgress border) := by
  rw [(feed_ok (drawn_new p b) h).walk]
  rfl

/-- Between two polygons a delimiter changes nothing at all. -/
theorem push_idle (hends : o.walk.ends = none) : push p .delimiter o = .ok () o := by
  obtain ⟨buffer, ⟨k, ends⟩, arc, start, summary⟩ := o
  obtain rfl : ends = none := hends
  rfl

/-- A repeated vertex changes nothing at all. -/
theorem push_again {v first : Position} (hv : (v == v) = true)
    (hends : o.walk.ends = some (first, v)) : push p (.vertex v) o = .ok () o := by
  obtain ⟨buffer, ⟨k, ends⟩, arc, start, summary⟩ := o
  obtain rfl : ends = some (first, v) := hends
  show takeEdge p (v, v) _ = _
  unfold takeEdge Plan.keeps
  simp only [hv, Bool.true_or, Bool.not_true, Bool.false_eq_true, ↓reduceIte]
  rfl

/-- The edge that closes a polygon is taken in any case if its ends are different. -/
theorem takeClosing_eq (p : Plan) (a z : Position) :
    takeClosing p (if a != z then some (z, a) else none) = takeEdge p (z, a) := by
  by_cases hback : (a != z) = true
  · rw [if_pos hback]
    rfl
  · have hsame : (z == a) = true := Point.beq_symm (by simpa [bne] using hback)
    rw [if_neg hback]
    unfold takeEdge Plan.keeps
    simp only [hsame, Bool.true_or, Bool.not_true, Bool.false_eq_true, ↓reduceIte]
    rfl

/-- A repeated first vertex is the end of the edge that the end of the polygon would have
    carried. If there is no room for that edge, the two drawings differ in how far they have
    walked, and in nothing else. -/
theorem push_back {v last : Position} (hv : (v == v) = true)
    (hends : o.walk.ends = some (v, last)) :
    Ensures (push p .delimiter) o
      (fun _ o' => (push p (.vertex v) >>= fun _ => push p .delimiter) o = .ok () o')
      (fun fault o' => ∃ w, (push p (.vertex v) >>= fun _ => push p .delimiter) o =
        .error fault { o' with walk := w }) := by
  obtain ⟨buffer, ⟨k, ends⟩, arc, start, summary⟩ := o
  obtain rfl : ends = some (v, last) := hends
  set ended : Outline := ⟨buffer, ⟨k, none⟩, arc, start, summary⟩ with hended
  set onward : Outline := ⟨buffer, ⟨k, some (v, v)⟩, arc, start, summary⟩ with honward
  -- the end of the polygon takes the closing edge first, and then it does the rest
  set rest : Drawing Unit := do
    let arc ← takeArc
    endArc p arc
    modify (·.nextPolygon) with hrest
  have hend : push p .delimiter ⟨buffer, ⟨k, some (v, last)⟩, arc, start, summary⟩ =
      (takeEdge p (last, v) >>= fun _ => rest) ended := by
    rw [← takeClosing_eq]
    rfl
  have hvertex : push p (.vertex v) ⟨buffer, ⟨k, some (v, last)⟩, arc, start, summary⟩ =
      takeEdge p (last, v) onward := rfl
  have hmoved := ignoresWalk_takeEdge p (last, v) ended ⟨k, some (v, v)⟩
  have hstays := ignoresWalk_takeEdge p (last, v) ended ⟨k, none⟩
  change takeEdge p (last, v) onward = _ at hmoved
  change takeEdge p (last, v) ended = _ at hstays
  cases hedge : takeEdge p (last, v) ended with
  | error fault o' =>
    rw [hedge] at hmoved
    refine Ensures.intro ?_ ?_
    · intro _ o₁ hok
      rw [hend, bind_of_error hedge] at hok
      cases hok
    · intro fault₁ o₁ herror
      rw [hend, bind_of_error hedge] at herror
      cases herror
      exact ⟨_, bind_of_error (hvertex.trans hmoved)⟩
  | ok _ o' =>
    rw [hedge] at hmoved hstays
    -- the edge has been taken, and both go on from there
    have hself : (v != v) = false := by simp [bne, hv]
    have hdelimiter : push p .delimiter ⟨buffer, ⟨k, some (v, last)⟩, arc, start, summary⟩ =
        rest o' := by
      rw [hend, bind_of_ok hedge]
    have hboth : (push p (.vertex v) >>= fun _ => push p .delimiter)
        ⟨buffer, ⟨k, some (v, last)⟩, arc, start, summary⟩ = rest o' := by
      rw [bind_of_ok (hvertex.trans hmoved)]
      show (takeClosing p (if v != v then some (v, v) else none) >>= fun _ => rest)
        { o' with walk := ⟨k, none⟩ } = _
      rw [hself, ← EStateM.Result.ok.inj hstays |>.2]
      rfl
    refine Ensures.intro ?_ ?_
    · intro _ o₁ hok
      rw [hboth, ← hdelimiter, hok]
    · intro fault o₁ herror
      refine ⟨o₁.walk, ?_⟩
      rw [hboth, ← hdelimiter, herror]

/-! ### Drawings in two parts -/

theorem feed_append (p : Plan) (first last : List BorderRecord) :
    feed p (first ++ last) = feed p first >>= fun _ => feed p last := by
  unfold feed
  induction first with
  | nil => rfl
  | cons r rest ih =>
    show (push p r >>= fun _ => (rest ++ last).forM (push p)) =
      (push p r >>= fun _ => rest.forM (push p)) >>= fun _ => last.forM (push p)
    rw [ih, bind_assoc]

theorem run_append (p : Plan) (first last : List BorderRecord) :
    run p (first ++ last) = feed p first >>= fun _ => run p last := by
  rw [run_eq_feed, run_eq_feed, feed_append, bind_assoc]

/-- A repeated first vertex makes no difference to what is drawn with and behind the end of its
    polygon. -/
theorem outcome_push_back {α : Type} {v last : Position} (hv : (v == v) = true)
    (hends : o.walk.ends = some (v, last)) (f : Unit → Drawing α) :
    outcome Outline.buffer ((push p (.vertex v) >>= fun _ => push p .delimiter >>= f) o) =
      outcome Outline.buffer ((push p .delimiter >>= f) o) := by
  have hback := push_back (p := p) hv hends
  rw [← bind_assoc]
  cases hend : push p .delimiter o with
  | ok _ o' => rw [bind_of_ok (hback.of_ok hend), bind_of_ok hend]
  | error fault o' =>
    obtain ⟨w, hboth⟩ := hback.of_error hend
    rw [bind_of_error hboth, bind_of_error hend]
    rfl

/-- The end of the border ends the polygon in progress as a delimiter does. -/
theorem finish_eq_delimiter (p : Plan) : finish p = push p .delimiter >>= fun _ => do
    let o ← get
    return { o.summary with seen := o.walk.polygon } := by
  unfold finish push
  rw [bind_assoc]
  rfl

end Drawing

/-! ### The three kinds of records -/

namespace Retraces

variable {broken : Bool} {before after : List BorderRecord} {v : Position}

/-- Records that leave every search and every drawing where they were. -/
theorem of_stays {r : BorderRecord}
    (hsearch : ∀ origin, (before.foldl Search.push (.start origin)).push r =
      before.foldl Search.push (.start origin))
    (hdraw : ∀ (p : Plan) (b : Buffer Position) (o : Outline),
      Drawing.feed p before (.new b) = .ok () o → Drawing.push p r o = .ok () o) :
    Retraces broken (before ++ after) (before ++ r :: after) := by
  have hfold : ∀ origin, (before ++ r :: after).foldl Search.push (.start origin) =
      (before ++ after).foldl Search.push (.start origin) := by
    intro origin
    rw [List.foldl_append, List.foldl_append, List.foldl_cons, hsearch]
  refine ⟨?_, ?_, ?_, ?_⟩
  · intro _ origin
    rw [hfold]
  · intro origin
    rw [Search.run, Search.run, hfold]
  · intro _ p b
    rw [Drawing.feed_append, Drawing.feed_append]
    apply outcome_bind_congr
    intro _ o hfeed
    exact congrArg (outcome Outline.buffer) (bind_of_ok (hdraw p b o hfeed))
  · intro _ p b
    rw [Drawing.run_append, Drawing.run_append]
    apply outcome_bind_congr
    intro _ o hfeed
    exact congrArg (outcome Outline.buffer) (bind_of_ok (hdraw p b o hfeed))

/-- A delimiter where no polygon is in progress. -/
theorem delimiter (hidle : inProgress before = []) (broken : Bool) (after : List BorderRecord) :
    Retraces broken (before ++ after) (before ++ .delimiter :: after) := by
  apply of_stays
  · intro origin
    rcases Search.foldl_push_eq origin before with ⟨k, hfound⟩ | ⟨k, hmidway⟩
    · exact Search.foldl_push_found hfound [.delimiter]
    · rw [hmidway, hidle]
      rfl
  · intro p b o hfeed
    apply Drawing.push_idle
    rw [Drawing.walk_ends_of_feed hfeed, hidle]
    rfl

/-- An immediate repetition of a vertex. -/
theorem again (hv : (v == v) = true) (broken : Bool) (before after : List BorderRecord) :
    Retraces broken (before ++ .vertex v :: after)
      (before ++ .vertex v :: .vertex v :: after) := by
  rw [List.append_cons, List.append_cons before _ (.vertex v :: after)]
  obtain ⟨first, hends⟩ := exists_endpoints_concat (inProgress before) v
  apply of_stays
  · intro origin
    rcases Search.foldl_push_eq origin (before ++ [.vertex v]) with ⟨k, hfound⟩ | ⟨k, hmidway⟩
    · exact Search.foldl_push_found hfound [.vertex v]
    · rw [hmidway, inProgress_concat_vertex]
      exact Search.push_again hv k _
  · intro p b o hfeed
    apply Drawing.push_again hv
    rw [Drawing.walk_ends_of_feed hfeed, inProgress_concat_vertex, hends]

/-- The first vertex of a polygon once more, before the delimiter that ends the polygon. -/
theorem back (hv : (v == v) = true) (hfirst : (inProgress before).head? = some v)
    (broken : Bool) (after : List BorderRecord) :
    Retraces broken (before ++ .delimiter :: after)
      (before ++ .vertex v :: .delimiter :: after) := by
  obtain ⟨last, hends⟩ := endpoints_of_head? hfirst
  have hfold : ∀ origin,
      (before ++ .vertex v :: .delimiter :: after).foldl Search.push (.start origin) =
        (before ++ .delimiter :: after).foldl Search.push (.start origin) := by
    intro origin
    rw [List.foldl_append, List.foldl_append, List.foldl_cons, List.foldl_cons, List.foldl_cons]
    rcases Search.foldl_push_eq origin before with ⟨k, hfound⟩ | ⟨k, hmidway⟩
    · have hstays := Search.foldl_push_found hfound [.vertex v]
      rw [List.foldl_cons, List.foldl_nil] at hstays
      rw [hstays]
    · rw [hmidway, Search.push_back hv hfirst]
  refine ⟨?_, ?_, ?_, ?_⟩
  · intro _ origin
    rw [hfold]
  · intro origin
    rw [Search.run, Search.run, hfold]
  · intro _ p b
    rw [Drawing.feed_append, Drawing.feed_append]
    apply outcome_bind_congr
    intro _ o hfeed
    apply Drawing.outcome_push_back hv
    rw [Drawing.walk_ends_of_feed hfeed, hends]
  · intro _ p b
    rw [Drawing.run_append, Drawing.run_append]
    apply outcome_bind_congr
    intro _ o hfeed
    apply Drawing.outcome_push_back hv
    rw [Drawing.walk_ends_of_feed hfeed, hends]

/-- The first vertex of the last polygon once more, at the end of the border. -/
theorem back_end (hv : (v == v) = true) (hfirst : (inProgress before).head? = some v) :
    Retraces false before (before ++ [.vertex v]) := by
  obtain ⟨last, hends⟩ := endpoints_of_head? hfirst
  refine ⟨nofun, ?_, nofun, ?_⟩
  · intro origin
    rw [Search.run, Search.run, List.foldl_append]
    rcases Search.foldl_push_eq origin before with ⟨k, hfound⟩ | ⟨k, hmidway⟩
    · rw [Search.foldl_push_found hfound]
    · rw [hmidway]
      exact Search.finish_back hv hfirst k
  · intro _ p b
    rw [Drawing.run_append, Drawing.run_eq_feed p before]
    apply outcome_bind_congr
    intro _ o hfeed
    show outcome Outline.buffer ((Drawing.push p (.vertex v) >>= fun _ => Drawing.finish p) o) = _
    rw [Drawing.finish_eq_delimiter]
    apply Drawing.outcome_push_back hv
    rw [Drawing.walk_ends_of_feed hfeed, hends]

/-- A delimiter at the end of the border ends the polygon that the border ends there. -/
theorem delimiter_end (before : List BorderRecord) :
    Retraces false before (before ++ [.delimiter]) := by
  refine ⟨nofun, ?_, nofun, ?_⟩
  · intro origin
    rw [Search.run_eq, Search.run_eq, polygons_concat_delimiter]
  · intro _ p b
    rw [Drawing.run_append, Drawing.run_eq_feed p before]
    apply outcome_bind_congr
    intro _ o hfeed
    show outcome Outline.buffer ((Drawing.push p .delimiter >>= fun _ => Drawing.finish p) o) = _
    rw [Drawing.finish_eq_delimiter]
    apply outcome_bind_congr
    intro _ o' hpush
    -- there is nothing left for a second delimiter to end
    have hboth : Drawing.feed p (before ++ [.delimiter]) (.new b) = .ok () o' := by
      rw [Drawing.feed_append, bind_of_ok hfeed]
      exact (bind_of_ok hpush).trans rfl
    have hidle : o'.walk.ends = none := by
      rw [Drawing.walk_ends_of_feed hboth, inProgress_concat_delimiter]
      rfl
    rw [bind_of_ok (Drawing.push_idle hidle)]

end Retraces

end Border

end Airspace

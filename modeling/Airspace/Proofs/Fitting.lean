import Airspace.Proofs.Outline
import Airspace.Proofs.Overrun

/-! # Borders that fit

  Drawing asks for room before it needs it, and for an edge it asks for both ends even where
  it puts one vertex into the buffer. Still it is never refused for nothing. A border is drawn
  if and only if the outline that comes of it without any limit fits into the limit, and what
  can be drawn of its beginning is decided by the room for that beginning alone. The first
  call that does not find its room ends the drawing, and the buffer is never over its limit.
-/

namespace Airspace

/-- The buffer with another limit. -/
def Buffer.limitedTo {α : Type} (limit : Nat) (b : Buffer α) : Buffer α :=
  { b with limit := limit }

namespace Border

namespace Drawing

variable {p : Plan} {records : List BorderRecord} {b : Buffer Position} {o o' : Outline}
  {fault : BufferFault} {first limit : Nat}

/-! ### The first call that fails -/

/-- A drawing ends with the first call that fails. The records before it have been taken, and
    the call takes the next record or, where there is none, ends the border. -/
def FailsFirst (p : Plan) (records : List BorderRecord) (o : Outline) (fault : BufferFault)
    (o' : Outline) : Prop :=
  ∃ done rest o₁, records = done ++ rest ∧ feed p done o = .ok () o₁ ∧
    match rest with
    | [] => finish p o₁ = .error fault o'
    | r :: _ => push p r o₁ = .error fault o'

theorem failsFirst_of_run (h : run p records o = .error fault o') :
    FailsFirst p records o fault o' := by
  induction records generalizing o with
  | nil => exact ⟨[], [], o, rfl, rfl, h⟩
  | cons r rest ih =>
    cases hpush : push p r o with
    | error fault₁ o₁ =>
      have hrun : run p (r :: rest) o = .error fault₁ o₁ := bind_of_error hpush
      rw [hrun] at h
      cases h
      exact ⟨[], r :: rest, o, rfl, rfl, hpush⟩
    | ok _ o₁ =>
      -- the call that fails is one of those behind the first record
      have hrun : run p (r :: rest) o = run p rest o₁ := bind_of_ok hpush
      rw [hrun] at h
      obtain ⟨done, left, o₂, hsplit, hfeed, hfails⟩ := ih h
      refine ⟨r :: done, left, o₂, by rw [hsplit, List.cons_append], ?_, hfails⟩
      exact (bind_of_ok hpush).trans hfeed

/-! ### Room for the records so far -/

/-- Records can be taken, from the first one on, as long as there is the room that has been
    asked for by then. -/
theorem feed_ok_iff (p : Plan) (hb : b.Sound first limit) (records : List BorderRecord) :
    let place := records.foldl stand ([], [])
    (∃ o, feed p records (.new b) = .ok () o) ↔ b.size + p.room place.1 place.2 ≤ limit := by
  intro place
  have hfeed : Ensures (feed p records) (.new b)
      (fun _ o => Goes p b.toList first limit place o)
      (Fails p b.toList first limit (p.room place.1 place.2) (polygons records)) :=
    feed_ensures (goes_new p hb) records
  rw [← Buffer.length_toList]
  constructor
  · intro h
    obtain ⟨o, hok⟩ := h
    exact (hfeed.of_ok hok).roomy
  · intro hfits
    cases hend : feed p records (.new b) with
    | ok _ o => exact ⟨o, rfl⟩
    | error fault o =>
      have htight := (hfeed.of_error hend).tight
      omega

/-- However far a drawing comes, the buffer is within its limit. -/
theorem feed_size_le (p : Plan) (hb : b.Sound first limit) (records : List BorderRecord) :
    Ensures (feed p records) (.new b) (fun _ o => o.buffer.size ≤ limit)
      (fun _ o => o.buffer.size ≤ limit) := by
  apply (feed_ensures (goes_new p hb) records).mono
  · intro _ o ho
    exact ho.sound.size_le
  · intro _ o ho
    exact ho.sound.size_le

theorem run_size_le (p : Plan) (hb : b.Sound first limit) (records : List BorderRecord) :
    Ensures (run p records) (.new b) (fun _ o => o.buffer.size ≤ limit)
      (fun _ o => o.buffer.size ≤ limit) := by
  apply (run_ensures (p := p) hb records).mono
  · intro _ o ho
    exact ho.1.size_le
  · intro _ o ho
    exact ho.sound.size_le

/-! ### Whole borders -/

/-- A border is drawn if its blocks fit behind what is in the buffer, and only then. -/
theorem run_ok_iff (p : Plan) (hb : b.Sound first limit) (records : List BorderRecord) :
    (∃ s o, run p records (.new b) = .ok s o) ↔
      b.size + (p.blocks (polygons records)).length ≤ limit := by
  have hrun := run_ensures (p := p) hb records
  constructor
  · intro h
    obtain ⟨s, o, hok⟩ := h
    exact (hrun.of_ok hok).2
  · intro hfits
    cases hend : run p records (.new b) with
    | ok s o => exact ⟨s, o, rfl⟩
    | error fault o =>
      have htight := (hrun.of_error hend).tight
      rw [Buffer.length_toList] at htight
      omega

/-- With a limit that is far enough away a border is always drawn, and what is added to the
    buffer does not depend on the limit. -/
theorem run_limitedTo (p : Plan) (hb : b.Sound first limit) (records : List BorderRecord)
    {roomy : Nat} (hroomy : b.size + (p.blocks (polygons records)).length ≤ roomy) :
    ∃ s o, run p records (.new (b.limitedTo roomy)) = .ok s o ∧
      o.buffer.toList = b.toList ++ p.blocks (polygons records) := by
  have hsound : (b.limitedTo roomy).Sound first roomy :=
    ⟨hb.initialCapacity_eq, rfl, Nat.le_trans (Nat.le_add_right _ _) hroomy⟩
  obtain ⟨s, o, hrun⟩ := (run_ok_iff p hsound records).mpr hroomy
  exact ⟨s, o, hrun, (run_new hrun).1⟩

/-- Whatever is in the buffer and wherever its limit is, a border is drawn if and only if the
    result fits, the result being what is added without a limit to speak of. If it does not
    fit, the first call that fails says where the limit is; the records before it are those
    for which there was the room asked for. The buffer never holds more than its limit, after
    no record and in either ending. -/
theorem run_ok_iff_fits (p : Plan) (hb : b.Sound first limit) (records : List BorderRecord) :
    let added := p.blocks (polygons records)
    (∀ roomy, b.size + added.length ≤ roomy →
        ∃ s o, run p records (.new (b.limitedTo roomy)) = .ok s o ∧
          o.buffer.toList = b.toList ++ added) ∧
      ((∃ s o, run p records (.new b) = .ok s o) ↔ b.size + added.length ≤ limit) ∧
      (¬ b.size + added.length ≤ limit →
        ∃ o, FailsFirst p records (.new b) (.limitReached limit) o) ∧
      (∀ n, let place := (records.take n).foldl stand ([], [])
        ((∃ o, feed p (records.take n) (.new b) = .ok () o) ↔
            b.size + p.room place.1 place.2 ≤ limit) ∧
          Ensures (feed p (records.take n)) (.new b) (fun _ o => o.buffer.size ≤ limit)
            (fun _ o => o.buffer.size ≤ limit)) ∧
      Ensures (run p records) (.new b) (fun _ o => o.buffer.size ≤ limit)
        (fun _ o => o.buffer.size ≤ limit) := by
  intro added
  refine ⟨?_, run_ok_iff p hb records, ?_, ?_, run_size_le p hb records⟩
  · intro roomy hroomy
    exact run_limitedTo p hb records hroomy
  · intro htight
    cases hend : run p records (.new b) with
    | ok s o => exact absurd ((run_ok_iff p hb records).mp ⟨s, o, hend⟩) htight
    | error fault o =>
      obtain rfl := ((run_ensures (p := p) hb records).of_error hend).fault_eq
      exact ⟨o, failsFirst_of_run hend⟩
  · intro n
    exact ⟨feed_ok_iff p hb (records.take n), feed_size_le p hb (records.take n)⟩

/-- The village takes six vertices behind the two that are there. With a limit of eight it is
    drawn. Its last edge asks for two vertices and puts one into the buffer, so that the
    separator finds room. With a limit of seven that edge is refused. -/
theorem run_ok_iff_fits_village :
    let p := Plan.flat ⟨10.0, 10.0⟩ 2
    let village := villageAndCountry.take 4
    (preloaded.limitedTo 8).Sound 4 8 ∧ (preloaded.limitedTo 7).Sound 4 7 ∧
      (p.blocks (polygons village)).length = 6 ∧
      (∃ s o, run p village (.new (preloaded.limitedTo 8)) = .ok s o) ∧
      ∃ o, FailsFirst p village (.new (preloaded.limitedTo 7)) (.limitReached 7) o := by
  intro p village
  have hsound : (preloaded.limitedTo 8).Sound 4 8 := ⟨rfl, rfl, by decide⟩
  have hsound' : (preloaded.limitedTo 7).Sound 4 7 := ⟨rfl, rfl, by decide⟩
  have hlength : (p.blocks (polygons village)).length = 6 := by decide +kernel
  obtain ⟨-, hiff, -, -, -⟩ := run_ok_iff_fits p hsound village
  obtain ⟨-, -, hfails, -, -⟩ := run_ok_iff_fits p hsound' village
  rw [hlength] at hiff hfails
  exact ⟨hsound, hsound', hlength, hiff.mpr (by decide), hfails (by decide)⟩

end Drawing

end Border

end Airspace

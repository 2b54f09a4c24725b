import Airspace.Proofs.Ingestion
import Airspace.Proofs.Overrun

/-! # Outcomes of loads

  What a load comes to is decided by the tables. A table is loaded if it can be read to its
  end and what is kept of it fits. Otherwise the load fails with the first fault: a table
  that cannot be opened, a line that is not text, or a record for which there is no room,
  whichever comes first in the order of reading. The border table is read twice, and the
  first pass ends at the polygon around the position, so a line that is not text is
  overlooked by it behind that polygon, and only then a lack of room can come before it.

  What was kept of a table before the fault stays in its buffer: only the caller of a load
  can drop it.
-/

namespace Airspace

open Border

/-! ### What there is to load -/

/-- The lines of a table up to the first fault; none if it cannot be opened. -/
def Volume.lines (v : Volume) (t : Table) : List String :=
  match v.read t with
  | .ok r => r.lines
  | .error _ => []

/-- Why a table cannot be read to its end, if it cannot. -/
def Volume.fault? (v : Volume) (t : Table) : Option StorageFault :=
  match v.read t with
  | .ok r => r.fault.map (.unreadable t)
  | .error fault => some fault

theorem Volume.of_read {v : Volume} {t : Table} {r : Reading} (h : v.read t = .ok r) :
    v.lines t = r.lines ∧ v.fault? t = r.fault.map (.unreadable t) := by
  unfold Volume.lines Volume.fault?
  rw [h]
  exact ⟨rfl, rfl⟩

theorem Volume.isSome_of_storage {v : Volume} {t : Table} {fault : LoadFault}
    (h : (v.fault? t).map .storage = some fault) : (v.fault? t).isSome = true := by
  rw [← Option.isSome_map, h]
  rfl

theorem Volume.border_eq_filterMap (v : Volume) :
    v.border = (v.lines .countries).filterMap fun line => Record.border? line.toList := by
  unfold border lines
  cases v.read .countries <;> rfl

/-- A table can be read to its end if it opens and all its lines are text. -/
theorem Volume.fault?_eq_none_iff {v : Volume} {t : Table} :
    v.fault? t = none ↔ ∃ r, v.read t = .ok r ∧ r.fault = none := by
  unfold fault?
  cases v.read t with
  | error fault => simp
  | ok r => simp

/-- Whether the records of a table are checked, and so loaded. -/
def Config.checks (c : Config) : Table → Bool
  | .airports => c.airportEnabled
  | .countries => c.countryEnabled
  | .prisons => c.prisonEnabled

theorem Config.everythingBypassed_iff {c : Config} :
    c.everythingBypassed = true ↔ ∀ t, c.checks t = false := by
  simp only [everythingBypassed, Bool.and_eq_true, Bool.not_eq_true']
  constructor
  · rintro ⟨⟨hairport, hcountry⟩, hprison⟩ t
    cases t <;> assumption
  · intro h
    exact ⟨⟨h .airports, h .countries⟩, h .prisons⟩

/-- The first capacity of the buffers. -/
def Config.firstCapacity (c : Config) : Nat :=
  max 1 (min c.initialCapacity (max c.recordLimit 1))

/-- Why `n` records of a table are not loaded, if they are not: there is no room for them, or
    the table cannot be read to its end. -/
def Load.refusal (limit : Nat) (t : Table) (n : Nat) (storage : Option StorageFault) :
    Option LoadFault :=
  if limit < n then some (.buffer t (.limitReached limit)) else storage.map .storage

theorem Load.refusal_eq_none_iff {limit n : Nat} {t : Table} {storage : Option StorageFault} :
    refusal limit t n storage = none ↔ n ≤ limit ∧ storage = none := by
  unfold refusal
  split
  · next tight =>
    simp only [reduceCtorEq, false_iff]
    omega
  · next fits => simp [Nat.le_of_not_lt fits]

namespace Load.Basis

/-- The airport of a line, if there is one within reach. -/
def airportIn (b : Basis) (line : String) : Option Airport :=
  (Record.airport? line.toList).filter fun a => b.reaches a.position

/-- The prison of a line, if there is one within reach. -/
def prisonIn (b : Basis) (line : String) : Option Position :=
  (Record.prison? line.toList).filter b.reaches

/-- The airports within reach, in the order of their lines. -/
def airports (b : Basis) : List Airport := (b.volume.lines .airports).filterMap b.airportIn

/-- The prisons within reach, in the order of their lines. -/
def prisons (b : Basis) : List Position := (b.volume.lines .prisons).filterMap b.prisonIn

/-- What the borders are drawn from: the reference is the polygon around the position. -/
def borderPlan (b : Basis) : Plan := b.plan (Search.run b.origin b.volume.border)

/-- The outline of the borders within reach. -/
def outline (b : Basis) : List Position := b.borderPlan.blocks (polygons b.volume.border)

/-- Whether the first pass over the borders ends before the lines do. -/
def findsEarly (b : Basis) : Bool :=
  (b.volume.border.foldl Search.push (.start b.origin)).found.isSome

/-- Where a walk along the border stands when the border table ends or breaks off. -/
def place (b : Basis) : List (List Position) × List Position :=
  b.volume.border.foldl stand ([], [])

/-- The room that the records of a table ask for. Where the border table breaks off, its last
    polygon is not ended. -/
def demand (b : Basis) : Table → Nat
  | .airports => b.airports.length
  | .prisons => b.prisons.length
  | .countries =>
    if (b.volume.fault? .countries).isNone then b.outline.length
    else b.borderPlan.room b.place.1 b.place.2

/-- The fault that loading a table ends with, if it does. -/
def fault? (b : Basis) (t : Table) : Option LoadFault :=
  if t = .countries ∧ b.findsEarly = false ∧ (b.volume.fault? t).isSome then
    (b.volume.fault? t).map .storage
  else refusal b.config.recordLimit t (b.demand t) (b.volume.fault? t)

theorem fault?_of_ne {b : Basis} {t : Table} (h : t ≠ .countries) :
    b.fault? t = refusal b.config.recordLimit t (b.demand t) (b.volume.fault? t) := by
  unfold fault?
  rw [if_neg fun hborder => h hborder.1]

/-- A table is loaded if it can be read to its end and what is kept of it fits. -/
theorem fault?_eq_none_iff {b : Basis} {t : Table} :
    b.fault? t = none ↔ b.volume.fault? t = none ∧ b.demand t ≤ b.config.recordLimit := by
  unfold fault?
  split
  · next hborder =>
    obtain ⟨-, -, hsome⟩ := hborder
    rw [Option.map_eq_none_iff]
    constructor
    · intro hnone
      rw [hnone] at hsome
      cases hsome
    · rintro ⟨hnone, -⟩
      exact hnone
  · rw [refusal_eq_none_iff, and_comm]

end Load.Basis

/-! ### Passes over whole tables -/

namespace Pass

variable {ε ε' σ : Type} {tagged : String → EStateM ε' σ Unit}

/-- A pass that never has enough hands over one line after the other, up to the first whose
    use fails. -/
theorem along_all (tag : ε → ε') (use : String → EStateM ε σ Unit)
    (htag : ∀ line s, tagged line s = match use line s with
      | .ok u s => .ok u s
      | .error fault s => .error (tag fault) s)
    (ending : Option ε') (lines : List String) (n : Nat) (s : σ) :
    Ensures (lines.forM use) s
      (fun _ s' => (along tagged (fun _ => false) ending lines n s).gathered = s' ∧
        (along tagged (fun _ => false) ending lines n s).failure = ending)
      (fun fault s' => (along tagged (fun _ => false) ending lines n s).gathered = s' ∧
        (along tagged (fun _ => false) ending lines n s).failure = some (tag fault)) := by
  induction lines generalizing n s with
  | nil => exact ⟨rfl, rfl⟩
  | cons line rest ih =>
    rw [along, htag]
    show Ensures (use line >>= fun _ => rest.forM use) s _ _
    cases huse : use line s with
    | error fault s' => exact Ensures.bind_of_error huse ⟨rfl, rfl⟩
    | ok u s' => exact Ensures.bind_of_ok huse (ih (n + 1) s')

/-- A search that may stop early fails only if the reading does and nothing was found
    before. -/
theorem along_search_failure {ε : Type} {ending : Option ε} {use : String → EStateM ε Search Unit}
    (huse : ∀ line s, use line s = .ok () ((Record.border? line.toList).elim s s.push))
    (lines : List String) (n : Nat) {s : Search} (hs : s.found = none) :
    (along use (·.found.isSome) ending lines n s).failure =
      if ((lines.filterMap fun line => Record.border? line.toList).foldl
        Search.push s).found.isSome then none else ending := by
  induction lines generalizing n s with
  | nil =>
    simp only [List.filterMap_nil, List.foldl_nil, hs]
    rfl
  | cons line rest ih =>
    have hfold : ((line :: rest).filterMap fun line => Record.border? line.toList).foldl
        Search.push s = (rest.filterMap fun line => Record.border? line.toList).foldl Search.push
          ((Record.border? line.toList).elim s s.push) := by
      rw [List.filterMap_cons]
      cases Record.border? line.toList <;> rfl
    rw [hfold, along, huse]
    show (if _ then _ else _ : Pass ε Search).failure = _
    by_cases hfound : ((Record.border? line.toList).elim s s.push).found.isSome = true
    · obtain ⟨k, hk⟩ := Option.isSome_iff_exists.mp hfound
      rw [if_pos hfound, Search.foldl_push_found hk, if_pos hfound]
    · rw [if_neg hfound]
      exact ih (n + 1) (Option.not_isSome_iff_eq_none.mp hfound)

end Pass

namespace Load

variable {b : Basis} {q : Progress} {first limit : Nat}

theorem passOver_all {σ : Type} (t : Table) (r : Reading)
    (use : String → EStateM BufferFault σ Unit) (s : σ) :
    Ensures (r.lines.forM use) s
      (fun _ s' => (passOver t r use (fun _ => false) s).gathered = s' ∧
        (passOver t r use (fun _ => false) s).failure =
          (r.fault.map (StorageFault.unreadable t)).map .storage)
      (fun fault s' => (passOver t r use (fun _ => false) s).gathered = s' ∧
        (passOver t r use (fun _ => false) s).failure = some (.buffer t fault)) := by
  rw [Option.map_map]
  refine Pass.along_all (LoadFault.buffer t) use ?_ _ r.lines 0 s
  intro line s
  cases use line s <;> rfl

/-- Lines are kept until the buffer is full, so what is there then is the beginning of what
    was to be kept. -/
theorem forM_keep {α : Type} {record? : String → Option α}
    {use : String → EStateM BufferFault (Buffer α) Unit}
    (huse : ∀ line, use line = (record? line).elim (pure ()) keep)
    (lines : List String) {buffer : Buffer α} (hs : buffer.Sound first limit) :
    Ensures (lines.forM use) buffer
      (fun _ kept => kept.Sound first limit ∧
        kept.toList = buffer.toList ++ lines.filterMap record?)
      (fun fault kept => fault = .limitReached limit ∧ kept.Sound first limit ∧
        limit < buffer.size + (lines.filterMap record?).length ∧
        kept.toList = (buffer.toList ++ lines.filterMap record?).take limit) := by
  induction lines generalizing buffer with
  | nil => exact ⟨hs, (List.append_nil _).symm⟩
  | cons line rest ih =>
    show Ensures (use line >>= fun _ => rest.forM use) buffer _ _
    rw [huse line]
    cases hrecord : record? line with
    | none =>
      rw [List.filterMap_cons_none hrecord]
      exact ih hs
    | some a =>
      rw [List.filterMap_cons_some hrecord]
      cases hpush : buffer.push a with
      | error fault =>
        -- the buffer is full, so what it holds is as much as the limit lets in
        obtain ⟨rfl, htight⟩ := hs.of_push_error hpush
        have hkeep : keep a buffer = .error (.limitReached limit) buffer := by
          unfold keep
          rw [hpush]
        have hfull : buffer.toList.length = limit := by
          rw [Buffer.length_toList]
          exact Nat.le_antisymm hs.size_le (Nat.lt_succ_iff.mp htight)
        refine Ensures.bind_of_error hkeep ⟨rfl, hs, ?_, ?_⟩
        · rw [List.length_cons]
          omega
        · rw [List.take_append_of_le_length (Nat.le_of_eq hfull.symm), ← hfull, List.take_length]
      | ok next =>
        -- the rest goes on from a buffer with one record more
        obtain ⟨hs', hsize⟩ := hs.of_push hpush
        have hkeep : keep a buffer = .ok () next := by
          unfold keep
          rw [hpush]
        have hnext := ih hs'
        rw [Buffer.toList_of_push hpush, List.append_assoc, List.singleton_append, hsize] at hnext
        refine Ensures.bind_of_ok hkeep (hnext.mono_error ?_)
        rintro fault kept ⟨hfault, hs'', htight, htake⟩
        refine ⟨hfault, hs'', ?_, htake⟩
        rw [List.length_cons]
        omega

/-! ### Single steps -/

theorem openTable_ensures (t : Table) :
    Ensures (openTable b t) q (fun r q' => b.volume.read t = .ok r ∧ q' = q)
      (fun fault q' => (b.volume.fault? t).map .storage = some fault ∧ b.volume.lines t = [] ∧
        q' = q) := by
  unfold Ensures openTable Volume.fault? Volume.lines
  cases b.volume.read t with
  | ok r => exact ⟨rfl, rfl⟩
  | error fault => exact ⟨rfl, rfl, rfl⟩

theorem conclude_ensures {σ : Type} (t : Table) (pass : Pass LoadFault σ)
    (keep : σ → Holdings → Holdings) :
    Ensures (conclude b t pass keep) q
      (fun _ q' => pass.failure = none ∧ q'.holdings = keep pass.gathered q.holdings)
      (fun fault q' => pass.failure = some fault ∧
        q'.holdings = keep pass.gathered q.holdings) := by
  refine Ensures.bind_of_ok rfl ?_
  cases pass.failure with
  | none => exact ⟨rfl, rfl⟩
  | some fault => exact ⟨rfl, rfl⟩

/-! ### Airports and prisons -/

/-- Loads a table whose records are kept one by one; `get` and `set` say in which buffer. -/
def keepTable {α : Type} (b : Basis) (t : Table)
    (use : String → EStateM BufferFault (Buffer α) Unit) (get : Holdings → Buffer α)
    (set : Buffer α → Holdings → Holdings) : Load Nat := do
  changeHoldings fun h => set (get h).reset h
  let reading ← openTable b t
  let p ← MonadState.get
  let pass := passOver t reading use (fun _ => false) (get p.holdings)
  conclude b t pass set
  return pass.gathered.size

theorem airports_eq_keepTable (b : Basis) :
    Load.airports b = keepTable b .airports (keepAirport b) (·.airports)
      fun kept h => { h with airports := kept } := rfl

theorem prisons_eq_keepTable (b : Basis) :
    Load.prisons b = keepTable b .prisons (keepPrison b) (·.prisons)
      fun kept h => { h with prisons := kept } := rfl

variable {α : Type} {t : Table} {record? : String → Option α}
  {use : String → EStateM BufferFault (Buffer α) Unit}

/-- A pass into an empty buffer keeps all records, or the first of them up to the limit. -/
theorem passOver_keep (huse : ∀ line, use line = (record? line).elim (pure ()) keep)
    (r : Reading) {buffer : Buffer α} (hs : buffer.Sound first limit) (hempty : buffer.size = 0) :
    let pass := passOver t r use (fun _ => false) buffer
    pass.gathered.Sound first limit ∧
      pass.gathered.toList = (r.lines.filterMap record?).take limit ∧
      pass.failure = refusal limit t (r.lines.filterMap record?).length
        (r.fault.map (.unreadable t)) := by
  intro pass
  have hnil : buffer.toList = [] := by rwa [← List.length_eq_zero_iff, Buffer.length_toList]
  have hpass := passOver_all t r use buffer
  have hkeep := forM_keep huse r.lines hs
  rw [hnil, List.nil_append] at hkeep
  cases hend : (r.lines.forM use) buffer with
  | ok _ kept =>
    obtain ⟨hgathered, hfailure⟩ := hpass.of_ok hend
    obtain ⟨hsound, hitems⟩ := hkeep.of_ok hend
    have hfits : (r.lines.filterMap record?).length ≤ limit := by
      rw [← hitems, Buffer.length_toList]
      exact hsound.size_le
    refine ⟨hgathered ▸ hsound, ?_, ?_⟩
    · rw [hgathered, hitems, List.take_of_length_le hfits]
    · rw [hfailure, refusal, if_neg (Nat.not_lt.mpr hfits)]
  | error fault kept =>
    obtain ⟨hgathered, hfailure⟩ := hpass.of_error hend
    obtain ⟨rfl, hsound, htight, hitems⟩ := hkeep.of_error hend
    rw [hempty, Nat.zero_add] at htight
    refine ⟨hgathered ▸ hsound, ?_, ?_⟩
    · rw [hgathered, hitems]
    · rw [hfailure, refusal, if_pos htight]

/-- A table whose records are kept one by one is loaded unless it is refused. All that was
    kept of it before is dropped. -/
theorem keepTable_ensures (record? : String → Option α)
    {use : String → EStateM BufferFault (Buffer α) Unit} {get : Holdings → Buffer α}
    {set : Buffer α → Holdings → Holdings} (hget : ∀ x h, get (set x h) = x)
    (hset : ∀ x y h, set x (set y h) = set x h)
    (huse : ∀ line, use line = (record? line).elim (pure ()) keep)
    (hs : (get q.holdings).Sound first limit) :
    let records := (b.volume.lines t).filterMap record?
    let outcome := refusal limit t records.length (b.volume.fault? t)
    let Kept (q' : Progress) := ∃ kept : Buffer α, kept.Sound first limit ∧
      kept.toList = records.take limit ∧ q'.holdings = set kept q.holdings
    Ensures (keepTable b t use get set) q
      (fun n q' => outcome = none ∧ n = (get q'.holdings).size ∧ Kept q')
      (fun fault q' => outcome = some fault ∧ Kept q') := by
  intro records outcome Kept
  refine Ensures.bind_of_ok rfl ?_
  refine (openTable_ensures t).seq ?_ ?_
  · -- a table that cannot be opened leaves the buffer as it was made
    rintro fault q₂ ⟨hfault, hlines, rfl⟩
    have hrecords : records = [] := by
      show (b.volume.lines t).filterMap record? = []
      rw [hlines, List.filterMap_nil]
    refine ⟨?_, (get q.holdings).reset, hs.reset, ?_, rfl⟩
    · show refusal limit t records.length _ = _
      rw [hrecords]
      exact hfault
    · rw [hrecords, List.take_nil, Buffer.toList_reset]
  · rintro r q₂ ⟨hread, rfl⟩
    -- the pass begins with the buffer emptied, and what it gathers is put there
    obtain ⟨hlines, hstorage⟩ := Volume.of_read hread
    refine Ensures.bind_of_ok rfl ?_
    rw [hget]
    obtain ⟨hsound, hitems, hfailure⟩ := passOver_keep (t := t) huse r hs.reset rfl
    rw [← hlines, ← hstorage] at hfailure
    rw [← hlines] at hitems
    refine (conclude_ensures t _ set).seq ?_ ?_
    · rintro fault q₃ ⟨hfault, hholdings⟩
      rw [hset] at hholdings
      exact ⟨hfailure.symm.trans hfault, _, hsound, hitems, hholdings⟩
    · rintro _ q₃ ⟨hnone, hholdings⟩
      rw [hset] at hholdings
      refine ⟨hfailure.symm.trans hnone, ?_, _, hsound, hitems, hholdings⟩
      rw [hholdings, hget]

theorem keepAirport_eq (b : Basis) (line : String) : keepAirport b line =
    (b.airportIn line).elim (pure ()) keep := by
  unfold keepAirport Basis.airportIn
  cases Record.airport? line.toList with
  | none => rfl
  | some a =>
    simp only [Option.filter_some]
    split <;> rfl

theorem keepPrison_eq (b : Basis) (line : String) : keepPrison b line =
    (b.prisonIn line).elim (pure ()) keep := by
  unfold keepPrison Basis.prisonIn
  cases Record.prison? line.toList with
  | none => rfl
  | some p =>
    simp only [Option.filter_some]
    split <;> rfl

/-! ### Borders -/

/-- A search is past the fault of the reading if it stops before. -/
theorem passOver_search_failure (origin : Position) (r : Reading) :
    (passOver .countries r searchLine (·.found.isSome) (.start origin)).failure =
      if (r.border.foldl Search.push (.start origin)).found.isSome then none
      else r.fault.map fun cause => .storage (.unreadable .countries cause) := by
  refine Pass.along_search_failure ?_ r.lines 0 rfl
  intro line s
  rw [searchLine_ok]

/-- The first pass fails only if the reading does and no polygon around the position has
    ended before. -/
theorem reference_ensures :
    Ensures (reference b) q
      (fun k q' => (b.findsEarly = true ∨ b.volume.fault? .countries = none) ∧
        k = Search.run b.origin b.volume.border ∧
        q'.holdings = { q.holdings with reference := k })
      (fun fault q' => b.findsEarly = false ∧
        (b.volume.fault? .countries).map .storage = some fault ∧ q'.holdings = q.holdings) := by
  have hends : Ensures (reference b) q
      (fun _ _ => b.findsEarly = true ∨ b.volume.fault? .countries = none)
      (fun fault q' => b.findsEarly = false ∧
        (b.volume.fault? .countries).map .storage = some fault ∧ q'.holdings = q.holdings) := by
    refine (openTable_ensures .countries).seq ?_ ?_
    · rintro fault q₁ ⟨hfault, hlines, rfl⟩
      refine ⟨?_, hfault, rfl⟩
      unfold Basis.findsEarly
      rw [Volume.border_eq_filterMap, hlines]
      rfl
    · rintro r q₁ ⟨hread, rfl⟩
      obtain ⟨hlines, hstorage⟩ := Volume.of_read hread
      have hpass : (passOver .countries r searchLine (·.found.isSome) (.start b.origin)).failure =
          if b.findsEarly then none else (b.volume.fault? .countries).map .storage := by
        rw [passOver_search_failure, Basis.findsEarly, Volume.border_eq hread, hstorage,
          Option.map_map]
        rfl
      refine (conclude_ensures .countries _ _).seq ?_ ?_
      · rintro fault q₂ ⟨hfailure, hholdings⟩
        rw [hpass] at hfailure
        split at hfailure
        · cases hfailure
        · next hlate => exact ⟨Bool.eq_false_iff.mpr hlate, hfailure, hholdings⟩
      · rintro _ q₂ ⟨hnone, -⟩
        rw [hpass] at hnone
        split at hnone
        · next hearly => exact Or.inl hearly
        · exact Or.inr (Option.map_eq_none_iff.mp hnone)
  exact hends.and_ok fun _ _ hok => reference_ok hok

/-- Lines are drawn by drawing their records. -/
theorem forM_drawLine (p : Plan) (lines : List String) :
    lines.forM (drawLine p) =
      Drawing.feed p (lines.filterMap fun line => Record.border? line.toList) := by
  induction lines with
  | nil => rfl
  | cons line rest ih =>
    show (drawLine p line >>= fun _ => rest.forM (drawLine p)) = _
    rw [ih, List.filterMap_cons]
    unfold drawLine
    cases Record.border? line.toList <;> rfl

/-- The second pass ends as the drawing of its records does, and where that goes well, at the
    fault of the reading. -/
theorem passOver_feed (p : Plan) (r : Reading) (buffer : Buffer Position) :
    let pass := passOver .countries r (drawLine p) (fun _ => false) (.new buffer)
    Ensures (Drawing.feed p r.border) (.new buffer)
      (fun _ o => pass.gathered = o ∧
        pass.failure = (r.fault.map (StorageFault.unreadable .countries)).map .storage)
      (fun fault o => pass.gathered = o ∧ pass.failure = some (.buffer .countries fault)) := by
  have hpass := passOver_all .countries r (drawLine p) (.new buffer)
  rw [forM_drawLine] at hpass
  exact hpass

/-- The second pass goes on to the end of the reading, or it runs out of room. -/
theorem passOver_draw (p : Plan) (r : Reading) {buffer : Buffer Position}
    (hs : buffer.Sound first limit) :
    let pass := passOver .countries r (drawLine p) (fun _ => false) (.new buffer)
    let place := r.border.foldl stand ([], [])
    (pass.failure = (r.fault.map (.unreadable .countries)).map .storage ∧
        Drawing.Goes p buffer.toList first limit place pass.gathered) ∨
      ∃ fault, pass.failure = some (.buffer .countries fault) ∧
        Drawing.Fails p buffer.toList first limit (p.room place.1 place.2) (polygons r.border)
          fault pass.gathered := by
  intro pass place
  have hpass := passOver_feed p r buffer
  have hfeed := Drawing.feed_ensures (Drawing.goes_new p hs) r.border
  cases hend : Drawing.feed p r.border (.new buffer) with
  | ok _ o =>
    obtain ⟨rfl, hfailure⟩ := hpass.of_ok hend
    exact Or.inl ⟨hfailure, hfeed.of_ok hend⟩
  | error fault o =>
    obtain ⟨rfl, hfailure⟩ := hpass.of_error hend
    exact Or.inr ⟨fault, hfailure, hfeed.of_error hend⟩

namespace Basis

theorem polygons_place (b : Basis) :
    b.place.1 ++ polygonsFrom b.place.2 [] = polygons b.volume.border :=
  (polygons_foldl_stand b.volume.border ([], [])).symm

theorem demand_of_none (h : b.volume.fault? .countries = none) :
    b.demand .countries = b.outline.length := by
  unfold demand
  rw [h]
  rfl

theorem demand_of_isSome (h : (b.volume.fault? .countries).isSome = true) :
    b.demand .countries = b.borderPlan.room b.place.1 b.place.2 := by
  unfold demand
  obtain ⟨fault, hfault⟩ := Option.isSome_iff_exists.mp h
  rw [hfault]
  rfl

theorem room_le_demand (b : Basis) :
    b.borderPlan.room b.place.1 b.place.2 ≤ b.demand .countries := by
  cases hfault : b.volume.fault? .countries with
  | none =>
    rw [demand_of_none hfault, outline, ← polygons_place]
    exact b.borderPlan.room_le_polygons b.place
  | some fault => exact Nat.le_of_eq (demand_of_isSome (Option.isSome_of_eq_some hfault)).symm

end Basis

/-- A drawing that begins with nothing and fails has run into the limit, so there is no room
    for more than it asked for. -/
theorem refusal_of_fails {p : Plan} {room n : Nat} {ps : List (List Position)}
    {fault : BufferFault} {o : Outline} (storage : Option StorageFault) (hroom : room ≤ n)
    (h : Drawing.Fails p [] first limit room ps fault o) :
    refusal limit .countries n storage = some (.buffer .countries fault) ∧
      o.buffer.Sound first limit ∧ Drawing.Cut p ps o.buffer.toList := by
  obtain ⟨rfl, hsound, htight, left, hleft, hcut⟩ := h
  rw [List.length_nil, Nat.zero_add] at htight
  rw [List.nil_append] at hleft
  exact ⟨if_pos (Nat.lt_of_lt_of_le htight hroom), hsound, hleft ▸ hcut⟩

/-- Where the border table breaks off, so does the drawing. -/
theorem cut_of_goes {o : Outline} (h : Drawing.Goes b.borderPlan [] first limit b.place o) :
    Drawing.Cut b.borderPlan (polygons b.volume.border) o.buffer.toList := by
  have hcut := Drawing.cut_midway b.borderPlan b.place.1 b.place.2 [] []
  rw [List.append_nil, Basis.polygons_place] at hcut
  rw [h.drawn.holding.items, List.nil_append]
  exact hcut

variable {fault : LoadFault} {buffer : Buffer Position}

/-- The second pass over the border table goes on to the end of the reading, or it runs out
    of room. -/
theorem passOver_border {r : Reading} (hs : buffer.Sound first b.config.recordLimit)
    (hempty : buffer.toList = []) (hread : b.volume.read .countries = .ok r) :
    let pass := passOver .countries r (drawLine b.borderPlan) (fun _ => false) (.new buffer)
    (pass.failure = (b.volume.fault? .countries).map .storage ∧
        Drawing.Goes b.borderPlan [] first b.config.recordLimit b.place pass.gathered) ∨
      ∃ fault, pass.failure = some (.buffer .countries fault) ∧
        Drawing.Fails b.borderPlan [] first b.config.recordLimit
          (b.borderPlan.room b.place.1 b.place.2) (polygons b.volume.border) fault
          pass.gathered := by
  have hplace : r.border.foldl stand ([], []) = b.place := by
    rw [← Volume.border_eq hread]
    rfl
  have hpass := passOver_draw b.borderPlan r hs
  rwa [← (Volume.of_read hread).2, hplace, ← Volume.border_eq hread, hempty] at hpass

/-! ### Refused borders -/

/-- The border table is refused with a fault, and what the buffer holds then is cut off. -/
structure Basis.Refuses (b : Basis) (first : Nat) (fault : LoadFault)
    (kept : Buffer Position) : Prop where
  refusal_eq : refusal b.config.recordLimit .countries (b.demand .countries)
    (b.volume.fault? .countries) = some fault
  sound : kept.Sound first b.config.recordLimit
  cut : Drawing.Cut b.borderPlan (polygons b.volume.border) kept.toList

/-- A table that cannot be opened asks for no room, so it is refused for that reason. -/
theorem refuses_of_unopened (hs : buffer.Sound first b.config.recordLimit)
    (hempty : buffer.toList = [])
    (hfault : (b.volume.fault? .countries).map .storage = some fault)
    (hlines : b.volume.lines .countries = []) : b.Refuses first fault buffer := by
  have hdemand : b.demand .countries = 0 := by
    rw [Basis.demand_of_isSome (Volume.isSome_of_storage hfault), Basis.place,
      Volume.border_eq_filterMap, hlines]
    rfl
  refine ⟨?_, hs, ?_⟩
  · rw [hdemand]
    exact hfault
  · rw [hempty]
    exact ⟨[], _, [], rfl, List.nil_prefix, rfl⟩

/-- Where the reading ends with a fault, the drawing has had all the room that it asked
    for. -/
theorem refuses_of_goes {o : Outline}
    (hgoes : Drawing.Goes b.borderPlan [] first b.config.recordLimit b.place o)
    (hfault : (b.volume.fault? .countries).map .storage = some fault) :
    b.Refuses first fault o.buffer := by
  have hroomy := hgoes.roomy
  rw [List.length_nil, Nat.zero_add,
    ← Basis.demand_of_isSome (Volume.isSome_of_storage hfault)] at hroomy
  exact ⟨(if_neg (Nat.not_lt.mpr hroomy)).trans hfault, hgoes.sound, cut_of_goes hgoes⟩

/-- A drawing that runs out of room, be it at a record or at the end of the border, has asked
    for no more than the table does. -/
theorem refuses_of_fails {room : Nat} {fault : BufferFault} {o : Outline}
    (hroom : room ≤ b.demand .countries)
    (hfails : Drawing.Fails b.borderPlan [] first b.config.recordLimit room
      (polygons b.volume.border) fault o) :
    b.Refuses first (.buffer .countries fault) o.buffer := by
  obtain ⟨hrefusal, hsound, hcut⟩ := refusal_of_fails _ hroom hfails
  exact ⟨hrefusal, hsound, hcut⟩

/-- After the last record the border is to be ended, which may ask for more room. -/
theorem refuses_of_finish {fault : BufferFault} {o o' : Outline}
    (hgoes : Drawing.Goes b.borderPlan [] first b.config.recordLimit b.place o)
    (hnone : b.volume.fault? .countries = none)
    (hend : Drawing.finish b.borderPlan o = .error fault o') :
    b.Refuses first (.buffer .countries fault) o'.buffer := by
  have hfinish := Drawing.finish_ensures hgoes
  rw [Basis.polygons_place] at hfinish
  exact refuses_of_fails (Nat.le_of_eq (Basis.demand_of_none hnone).symm) (hfinish.of_error hend)

/-- The second pass comes to its end only if the border table can be read to its end; otherwise
    the table is refused. -/
theorem outline_refuses (hs : q.holdings.countries.Sound first b.config.recordLimit)
    (hempty : q.holdings.countries.toList = []) :
    Ensures (outline b (Search.run b.origin b.volume.border)) q
      (fun _ _ => b.volume.fault? .countries = none)
      (fun fault q' => ∃ kept, b.Refuses first fault kept ∧
        q'.holdings = { q.holdings with countries := kept }) := by
  refine (openTable_ensures .countries).seq ?_ ?_
  · rintro fault q₁ ⟨hfault, hlines, rfl⟩
    exact ⟨_, refuses_of_unopened hs hempty hfault hlines, rfl⟩
  · rintro r q₁ ⟨hread, rfl⟩
    have hplan : b.plan (Search.run b.origin b.volume.border) = b.borderPlan := rfl
    have hpass := passOver_border hs hempty hread
    refine Ensures.bind_of_ok rfl ?_
    rw [hplan]
    generalize passOver .countries r (drawLine b.borderPlan) _ _ = pass at hpass ⊢
    refine (conclude_ensures .countries _ _).seq ?_ ?_
    · -- the pass fails at the end of the reading or for want of room
      rintro fault q₂ ⟨hfailure, hholdings⟩
      rcases hpass with ⟨hending, hgoes⟩ | ⟨fault', hfault, hfails⟩
      · rw [hending] at hfailure
        exact ⟨_, refuses_of_goes hgoes hfailure, hholdings⟩
      · obtain rfl := Option.some.inj (hfault.symm.trans hfailure)
        exact ⟨_, refuses_of_fails b.room_le_demand hfails, hholdings⟩
    · -- the border is to be ended, which may ask for more room
      rintro _ q₂ ⟨hnone, hholdings⟩
      rcases hpass with ⟨hending, hgoes⟩ | ⟨fault', hfault, -⟩
      · rw [hending, Option.map_eq_none_iff] at hnone
        cases hend : Drawing.finish b.borderPlan pass.gathered with
        | ok s o => exact Ensures.bind_of_ok rfl hnone
        | error fault o =>
          refine Ensures.bind_of_ok rfl ⟨_, refuses_of_finish hgoes hnone hend, ?_⟩
          show ({ q₂.holdings with countries := o.buffer } : Holdings) = _
          rw [hholdings]
      · rw [hfault] at hnone
        cases hnone

/-- The second pass draws the outline unless the border table is refused. What is there
    then is cut off. -/
theorem outline_ensures (hs : q.holdings.countries.Sound first b.config.recordLimit)
    (hempty : q.holdings.countries.toList = []) :
    Ensures (outline b (Search.run b.origin b.volume.border)) q
      (fun s q' => refusal b.config.recordLimit .countries (b.demand .countries)
          (b.volume.fault? .countries) = none ∧ ∃ o,
        Drawing.run b.borderPlan b.volume.border (.new q.holdings.countries) = .ok s o ∧
          o.buffer.Sound first b.config.recordLimit ∧
          q'.holdings = { q.holdings with countries := o.buffer })
      (fun fault q' => ∃ kept, b.Refuses first fault kept ∧
        q'.holdings = { q.holdings with countries := kept }) := by
  -- a drawing of the whole border that succeeds has had room for all of it
  refine ((outline_refuses hs hempty).and_ok fun _ _ hok => outline_ok hok).mono_ok ?_
  rintro s q' ⟨hnone, o, hrun, hholdings⟩
  obtain ⟨hsound, hfits⟩ := (Drawing.run_ensures hs b.volume.border).of_ok hrun
  have hroom : b.demand .countries ≤ b.config.recordLimit := by
    rw [Basis.demand_of_none hnone]
    exact Nat.le_trans (Nat.le_add_left _ _) hfits
  exact ⟨refusal_eq_none_iff.mpr ⟨hroom, hnone⟩, o, hrun, hsound, hholdings⟩

/-- The borders are loaded unless the border table is refused by one of the passes. All that
    was kept of them before is dropped. -/
theorem countries_ensures
    (hs : q.holdings.countries.Sound b.config.firstCapacity b.config.recordLimit) :
    Ensures (countries b) q
      (fun s q' => b.fault? .countries = none ∧ ∃ o,
        Drawing.run b.borderPlan b.volume.border
            (.new (.new b.config.initialCapacity b.config.recordLimit)) = .ok s o ∧
          o.buffer.Sound b.config.firstCapacity b.config.recordLimit ∧
          q'.holdings = { q.holdings with
            countries := o.buffer
            reference := Search.run b.origin b.volume.border })
      (fun fault q' => b.fault? .countries = some fault ∧ ∃ (kept : Buffer Position) (k : Nat),
        kept.Sound b.config.firstCapacity b.config.recordLimit ∧
          Drawing.Cut b.borderPlan (polygons b.volume.border) kept.toList ∧
          q'.holdings = { q.holdings with countries := kept, reference := k }) := by
  refine Ensures.bind_of_ok rfl ?_
  refine reference_ensures.seq ?_ ?_
  · -- the first pass leaves the buffer as it was made
    rintro fault q₁ ⟨hlate, hfault, hholdings⟩
    have hsome := Volume.isSome_of_storage hfault
    refine ⟨?_, q.holdings.countries.reset, q.holdings.reference, hs.reset, ?_, hholdings⟩
    · rw [Basis.fault?, if_pos ⟨rfl, hlate, hsome⟩]
      exact hfault
    · rw [Buffer.toList_reset]
      exact ⟨[], _, [], rfl, List.nil_prefix, rfl⟩
  · rintro _ q₁ ⟨hpassed, rfl, hholdings⟩
    -- once the first pass is through, only the second one can refuse the table
    have hfault : b.fault? .countries = refusal b.config.recordLimit .countries
        (b.demand .countries) (b.volume.fault? .countries) := by
      rw [Basis.fault?, if_neg]
      rintro ⟨-, hlate, hsome⟩
      rcases hpassed with hearly | hnone
      · rw [hlate] at hearly
        cases hearly
      · rw [hnone] at hsome
        cases hsome
    have hcountries : q₁.holdings.countries =
        .new b.config.initialCapacity b.config.recordLimit := by
      rw [hholdings]
      exact hs.reset_eq
    have hsound : q₁.holdings.countries.Sound b.config.firstCapacity b.config.recordLimit := by
      rw [hcountries]
      exact Buffer.sound_new _ _
    have hempty : q₁.holdings.countries.toList = [] := by
      rw [hcountries, Buffer.toList_new]
    rw [hfault]
    refine (outline_ensures hsound hempty).mono ?_ ?_
    · rintro s q₂ ⟨hnone, o, hrun, hsound', hholdings'⟩
      rw [hcountries] at hrun
      rw [hholdings] at hholdings'
      exact ⟨hnone, o, hrun, hsound', hholdings'⟩
    · rintro fault q₂ ⟨kept, hrefuses, hholdings'⟩
      rw [hholdings] at hholdings'
      exact ⟨hrefuses.refusal_eq, kept, _, hrefuses.sound, hrefuses.cut, hholdings'⟩

end Load

end Airspace

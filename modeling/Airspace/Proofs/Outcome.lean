import Airspace.Proofs.Loading

/-! # Outcomes of whole loads

  A load goes from table to table, and a fault ends it. At every time the tables before
  the current one are settled: kept as they were read, or left alone if they are not
  checked. The tables behind it are as they were. So the outcome is that of the first table
  at fault, and nothing but what that table had let in is incomplete.
-/

namespace Airspace

open Border

/-- The place of a table in the order of loading. -/
def Table.rank : Table → Nat
  | .airports => 0
  | .countries => 1
  | .prisons => 2

theorem Table.eq_of_rank_eq {t u : Table} (h : t.rank = u.rank) : t = u := by
  cases t <;> cases u <;> first | rfl | simp [rank] at h

/-! ### What is kept, table by table -/

namespace Holdings

variable {c : Config} {h h' h'' : Holdings} {t : Table}

/-- The buffers are as large as a configuration says, and keep within their limit. -/
structure Sound (c : Config) (h : Holdings) : Prop where
  countries : h.countries.Sound c.firstCapacity c.recordLimit
  airports : h.airports.Sound c.firstCapacity c.recordLimit
  prisons : h.prisons.Sound c.firstCapacity c.recordLimit

theorem sound_new (c : Config) : (new c).Sound c :=
  ⟨Buffer.sound_new _ _, Buffer.sound_new _ _, Buffer.sound_new _ _⟩

theorem Sound.reset (hs : h.Sound c) : h.reset.Sound c :=
  ⟨hs.countries.reset, hs.airports.reset, hs.prisons.reset⟩

/-- After a reset nothing is left of what was kept before, not even of its capacity. -/
theorem Sound.reset_eq (hs : h.Sound c) : h.reset = new c := by
  unfold Holdings.reset new
  rw [hs.countries.reset_eq, hs.airports.reset_eq, hs.prisons.reset_eq]

theorem Sound.release (hs : h.Sound c) : h.release.Sound c :=
  ⟨hs.countries.release, hs.airports.release, hs.prisons.release⟩

/-- What is kept of a table has not changed. -/
def SameOf (h h' : Holdings) : Table → Prop
  | .airports => h'.airports = h.airports
  | .countries => h'.countries = h.countries ∧ h'.reference = h.reference
  | .prisons => h'.prisons = h.prisons

theorem SameOf.refl (h : Holdings) (t : Table) : h.SameOf h t := by
  cases t <;> simp [SameOf]

theorem SameOf.trans (hsame : h.SameOf h' t) (hsame' : h'.SameOf h'' t) : h.SameOf h'' t := by
  cases t <;> simp_all [SameOf]

end Holdings

namespace Load

namespace Basis

variable {b : Basis} {h h' h'' : Holdings} {t : Table} {n : Nat} {fault : LoadFault}

/-- How many records of a table are to be kept. -/
def size (b : Basis) : Table → Nat
  | .airports => b.airports.length
  | .countries => b.outline.length
  | .prisons => b.prisons.length

/-- A table is loaded if it opens, all its lines are text and what is to be kept of it
    fits. -/
theorem fault?_eq_none_iff_size : b.fault? t = none ↔
    ∃ r, b.volume.read t = .ok r ∧ r.fault = none ∧ b.size t ≤ b.config.recordLimit := by
  have hdemand : b.volume.fault? t = none → b.demand t = b.size t := by
    intro hnone
    cases t with
    | countries => exact demand_of_none hnone
    | airports => rfl
    | prisons => rfl
  rw [fault?_eq_none_iff]
  constructor
  · rintro ⟨hnone, hfits⟩
    obtain ⟨r, hread, hend⟩ := Volume.fault?_eq_none_iff.mp hnone
    exact ⟨r, hread, hend, hdemand hnone ▸ hfits⟩
  · rintro ⟨r, hread, hend, hfits⟩
    have hnone := Volume.fault?_eq_none_iff.mpr ⟨r, hread, hend⟩
    exact ⟨hnone, (hdemand hnone).symm ▸ hfits⟩

/-- A table is kept as it is to be: of airports and prisons all within reach, of borders the
    outline and the number of the polygon around the position. -/
def Loaded (b : Basis) (h : Holdings) : Table → Prop
  | .airports => h.airports.toList = b.airports
  | .countries =>
    h.countries.toList = b.outline ∧ h.reference = Search.run b.origin b.volume.border
  | .prisons => h.prisons.toList = b.prisons

/-- What is kept of a table at fault: of airports and prisons the first within reach, up to
    the fault or the limit; of borders an outline that is cut off. -/
def Begun (b : Basis) (h : Holdings) : Table → Prop
  | .airports => h.airports.toList = b.airports.take b.config.recordLimit
  | .countries => Drawing.Cut b.borderPlan (polygons b.volume.border) h.countries.toList
  | .prisons => h.prisons.toList = b.prisons.take b.config.recordLimit

/-- The load is done with a table, which was not at fault. -/
def Settled (b : Basis) (h h' : Holdings) (t : Table) : Prop :=
  if b.config.checks t then b.fault? t = none ∧ b.Loaded h' t else h.SameOf h' t

theorem Settled.of_same (hsettled : b.Settled h h' t) (hsame : h'.SameOf h'' t) :
    b.Settled h h'' t := by
  unfold Settled at hsettled ⊢
  by_cases hchecked : b.config.checks t = true
  · rw [if_pos hchecked] at hsettled ⊢
    refine ⟨hsettled.1, ?_⟩
    cases t <;> simp_all [Loaded, Holdings.SameOf]
  · rw [if_neg hchecked] at hsettled ⊢
    exact hsettled.trans hsame

/-- A load has come to the table number `n`. -/
structure Reached (b : Basis) (n : Nat) (h h' : Holdings) : Prop where
  sound : h'.Sound b.config
  settled : ∀ t, t.rank < n → b.Settled h h' t
  same : ∀ t, n ≤ t.rank → h.SameOf h' t

/-- A load has come to the table `t`, which was at fault. -/
structure Stopped (b : Basis) (t : Table) (h h' : Holdings) (fault : LoadFault) : Prop where
  checked : b.config.checks t = true
  fault_eq : b.fault? t = some fault
  sound : h'.Sound b.config
  settled : ∀ u, u.rank < t.rank → b.Settled h h' u
  begun : b.Begun h' t
  same : ∀ u, t.rank < u.rank → h.SameOf h' u

theorem reached_zero (hs : h.Sound b.config) : b.Reached 0 h h :=
  ⟨hs, fun _ hrank => absurd hrank (Nat.not_lt_zero _), fun t _ => .refl h t⟩

/-- Nothing has changed but what is kept of one table. -/
structure Touches (b : Basis) (t : Table) (h h' : Holdings) : Prop where
  sound : h'.Sound b.config
  others : ∀ u, u ≠ t → h.SameOf h' u

theorem Touches.refl (hs : h.Sound b.config) : b.Touches t h h := ⟨hs, fun u _ => .refl h u⟩

/-- The load goes on to the next table. -/
theorem Reached.next (hreached : b.Reached t.rank h h') (htouches : b.Touches t h' h'')
    (hsettled : b.Settled h h'' t) : b.Reached (t.rank + 1) h h'' := by
  refine ⟨htouches.sound, ?_, ?_⟩
  · -- the table itself is settled by this step, those before it have been
    intro u hrank
    by_cases hu : u = t
    · exact hu ▸ hsettled
    · have hbefore : u.rank < t.rank := by
        have hne : u.rank ≠ t.rank := fun heq => hu (Table.eq_of_rank_eq heq)
        omega
      exact (hreached.settled u hbefore).of_same (htouches.others u hu)
  · intro u hrank
    have hu : u ≠ t := by
      rintro rfl
      omega
    exact (hreached.same u (by omega)).trans (htouches.others u hu)

/-- The load ends at a table at fault. -/
theorem Reached.stop (hreached : b.Reached t.rank h h') (htouches : b.Touches t h' h'')
    (hchecked : b.config.checks t = true) (hfault : b.fault? t = some fault)
    (hbegun : b.Begun h'' t) : b.Stopped t h h'' fault := by
  refine ⟨hchecked, hfault, htouches.sound, ?_, hbegun, ?_⟩
  · intro u hrank
    have hu : u ≠ t := by
      rintro rfl
      omega
    exact (hreached.settled u hrank).of_same (htouches.others u hu)
  · intro u hrank
    have hu : u ≠ t := by
      rintro rfl
      omega
    exact (hreached.same u (by omega)).trans (htouches.others u hu)

/-- The fault that a load ends with, if it does: that of the first table at fault. -/
def firstFault? (b : Basis) : Option LoadFault :=
  ([.airports, .countries, .prisons].filter b.config.checks).findSome? b.fault?

theorem firstFault?_eq_none_iff :
    b.firstFault? = none ↔ ∀ t, b.config.checks t = true → b.fault? t = none := by
  unfold firstFault?
  rw [List.findSome?_eq_none_iff]
  constructor
  · intro h t ht
    apply h t
    cases t <;> simp [ht]
  · intro h t ht
    exact h t (List.mem_filter.mp ht).2

/-- Once the load has come to the end, the tables that are checked are kept. -/
theorem Reached.of_checks (hreached : b.Reached 3 h h') (hchecked : b.config.checks t = true) :
    b.fault? t = none ∧ b.Loaded h' t := by
  -- every table comes before the third place
  have hsettled := hreached.settled t (by cases t <;> decide)
  rwa [Settled, if_pos hchecked] at hsettled

theorem Reached.firstFault?_eq (hreached : b.Reached 3 h h') : b.firstFault? = none := by
  rw [firstFault?_eq_none_iff]
  intro t ht
  exact (hreached.of_checks ht).1

theorem Stopped.firstFault?_eq (hstopped : b.Stopped t h h' fault) :
    b.firstFault? = some fault := by
  -- no table before this one is at fault
  have hbefore : ∀ u, u.rank < t.rank → b.config.checks u = true → b.fault? u = none := by
    intro u hrank hchecked
    have hsettled := hstopped.settled u hrank
    rw [Settled, if_pos hchecked] at hsettled
    exact hsettled.1
  have hchecked := hstopped.checked
  have hfault := hstopped.fault_eq
  unfold firstFault?
  cases t with
  | airports => simp [List.filter_cons, hchecked, hfault]
  | countries =>
    have hairports := hbefore .airports (by decide)
    by_cases ha : b.config.checks .airports = true
    · simp [List.filter_cons, ha, hairports ha, hchecked, hfault]
    · simp [List.filter_cons, ha, hchecked, hfault]
  | prisons =>
    have hairports := hbefore .airports (by decide)
    have hcountries := hbefore .countries (by decide)
    by_cases ha : b.config.checks .airports = true <;>
      by_cases hc : b.config.checks .countries = true <;>
      simp [ha, hc, hchecked, hfault, hairports, hcountries]

end Basis

/-! ### One table -/

variable {b : Basis} {q : Progress} {t : Table} {h : Holdings}

/-- The load of one table ends with the fault of the table, if it has one. -/
def TableEnsures {α : Type} (b : Basis) (t : Table) (load : Load α) (q : Progress)
    (counts : α → Holdings → Prop) : Prop :=
  Ensures load q
    (fun a q' => b.Touches t q.holdings q'.holdings ∧ b.fault? t = none ∧
      b.Loaded q'.holdings t ∧ counts a q'.holdings)
    (fun fault q' => b.Touches t q.holdings q'.holdings ∧ b.fault? t = some fault ∧
      b.Begun q'.holdings t)

/-- A table whose records are kept one by one, if what is kept of it is a list in one of the
    buffers. -/
theorem keepTable_table {α : Type} (record? : String → Option α)
    {use : String → EStateM BufferFault (Buffer α) Unit} {get : Holdings → Buffer α}
    {set : Buffer α → Holdings → Holdings} (hget : ∀ x h, get (set x h) = x)
    (hset : ∀ x y h, set x (set y h) = set x h)
    (huse : ∀ line, use line = (record? line).elim (pure ()) keep)
    (hfault : b.fault? t = refusal b.config.recordLimit t
      ((b.volume.lines t).filterMap record?).length (b.volume.fault? t))
    (hs : (get q.holdings).Sound b.config.firstCapacity b.config.recordLimit)
    (htouches : ∀ kept : Buffer α, kept.Sound b.config.firstCapacity b.config.recordLimit →
      b.Touches t q.holdings (set kept q.holdings))
    (hloaded : ∀ h, (get h).toList = (b.volume.lines t).filterMap record? → b.Loaded h t)
    (hbegun : ∀ h, (get h).toList = ((b.volume.lines t).filterMap record?).take
      b.config.recordLimit → b.Begun h t) :
    TableEnsures b t (keepTable b t use get set) q fun n h => n = (get h).size := by
  unfold TableEnsures
  rw [hfault]
  refine (keepTable_ensures record? hget hset huse hs).mono ?_ ?_
  · -- with room for all records the beginning of them is all of them
    rintro n q' ⟨hnone, hcount, kept, hsound, hitems, hholdings⟩
    rw [List.take_of_length_le (refusal_eq_none_iff.mp hnone).1] at hitems
    rw [hholdings] at hcount ⊢
    exact ⟨htouches kept hsound, hnone, hloaded _ (by rw [hget, hitems]), hcount⟩
  · rintro fault q' ⟨hsome, kept, hsound, hitems, hholdings⟩
    rw [hholdings]
    exact ⟨htouches kept hsound, hsome, hbegun _ (by rw [hget, hitems])⟩

theorem airports_table (hs : q.holdings.Sound b.config) :
    TableEnsures b .airports (airports b) q fun n h => n = h.airports.size := by
  rw [airports_eq_keepTable]
  refine keepTable_table b.airportIn (fun _ _ => rfl) (fun _ _ _ => rfl) (keepAirport_eq b)
    (Basis.fault?_of_ne (by decide)) hs.airports ?_ (fun _ h => h) fun _ h => h
  intro kept hkept
  refine ⟨⟨hs.countries, hkept, hs.prisons⟩, ?_⟩
  intro u hu
  cases u <;> simp_all [Holdings.SameOf]

theorem prisons_table (hs : q.holdings.Sound b.config) :
    TableEnsures b .prisons (prisons b) q fun n h => n = h.prisons.size := by
  rw [prisons_eq_keepTable]
  refine keepTable_table b.prisonIn (fun _ _ => rfl) (fun _ _ _ => rfl) (keepPrison_eq b)
    (Basis.fault?_of_ne (by decide)) hs.prisons ?_ (fun _ h => h) fun _ h => h
  intro kept hkept
  refine ⟨⟨hs.countries, hs.airports, hkept⟩, ?_⟩
  intro u hu
  cases u <;> simp_all [Holdings.SameOf]

/-- What is kept of the borders is the drawing that a summary tells of. -/
def Basis.Drew (b : Basis) (s : Summary) (h : Holdings) : Prop :=
  ∃ o, Drawing.run b.borderPlan b.volume.border
      (.new (.new b.config.initialCapacity b.config.recordLimit)) = .ok s o ∧
    h.countries = o.buffer

theorem countries_table (hs : q.holdings.Sound b.config) :
    TableEnsures b .countries (countries b) q b.Drew := by
  have htouches : ∀ {kept : Buffer Position} {k : Nat} {h' : Holdings},
      kept.Sound b.config.firstCapacity b.config.recordLimit →
      h' = { q.holdings with countries := kept, reference := k } →
      b.Touches .countries q.holdings h' := by
    -- the reference belongs to the borders as the outline does
    rintro kept k _ hkept rfl
    refine ⟨⟨hkept, hs.airports, hs.prisons⟩, ?_⟩
    intro u hu
    cases u <;> simp_all [Holdings.SameOf]
  refine (countries_ensures hs.countries).mono ?_ ?_
  · rintro s q' ⟨hnone, o, hrun, hsound, hholdings⟩
    obtain ⟨hitems, -⟩ := Drawing.run_new hrun
    rw [Buffer.toList_new, List.nil_append] at hitems
    refine ⟨htouches hsound hholdings, hnone, ?_, o, hrun, ?_⟩
    · show q'.holdings.countries.toList = _ ∧ q'.holdings.reference = _
      rw [hholdings]
      exact ⟨hitems, rfl⟩
    · rw [hholdings]
  · rintro fault q' ⟨hfault, kept, k, hsound, hcut, hholdings⟩
    refine ⟨htouches hsound hholdings, hfault, ?_⟩
    show Drawing.Cut _ _ q'.holdings.countries.toList
    rw [hholdings]
    exact hcut

/-! ### All tables -/

/-- What a report says is kept. -/
structure Basis.Reports (b : Basis) (report : LoadReport) (h : Holdings) : Prop where
  airports : report.airports = if b.config.checks .airports then h.airports.size else 0
  prisons : report.prisons = if b.config.checks .prisons then h.prisons.size else 0
  vertices : report.vertices = if b.config.checks .countries then h.countries.size else 0
  reference : report.reference = if b.config.checks .countries then h.reference else 0
  borders : if b.config.checks .countries then b.Drew report.borders h else report.borders = .zero

/-- A table that is not checked is passed by. -/
theorem when_ensures {α : Type} {load : Load α} (otherwise : α) {counts : α → Holdings → Prop}
    (hreached : b.Reached t.rank h q.holdings) (hload : TableEnsures b t load q counts) :
    Ensures (when (b.config.checks t) load otherwise) q
      (fun a q' => b.Reached (t.rank + 1) h q'.holdings ∧
        b.Touches t q.holdings q'.holdings ∧
        if b.config.checks t then counts a q'.holdings else a = otherwise)
      (fun fault q' => b.Stopped t h q'.holdings fault) := by
  unfold when
  by_cases hchecked : b.config.checks t = true
  · rw [if_pos hchecked]
    refine hload.mono ?_ ?_
    · rintro a q' ⟨htouches, hnone, hloaded, hcounts⟩
      refine ⟨hreached.next htouches ?_, htouches, ?_⟩
      · rw [Basis.Settled, if_pos hchecked]
        exact ⟨hnone, hloaded⟩
      · rwa [if_pos hchecked]
    · rintro fault q' ⟨htouches, hfault, hbegun⟩
      exact hreached.stop htouches hchecked hfault hbegun
  · rw [if_neg hchecked]
    refine ⟨hreached.next (.refl hreached.sound) ?_, .refl hreached.sound, ?_⟩
    · rw [Basis.Settled, if_neg hchecked]
      exact hreached.same t (Nat.le_refl _)
    · rw [if_neg hchecked]

theorem reportCountries_table (hs : q.holdings.Sound b.config) (r : LoadReport) :
    TableEnsures b .countries (reportCountries b r) q fun report h => b.Drew report.borders h ∧
      report = { r with
        reference := h.reference, borders := report.borders, vertices := h.countries.size } := by
  refine (countries_table hs).bind ?_
  rintro s q' ⟨htouches, hnone, hloaded, hdrew⟩
  exact ⟨htouches, hnone, hloaded, hdrew, rfl⟩

/-- A load of all tables settles all of them, or it stops at one at fault. -/
theorem all_ensures (hs : q.holdings.Sound b.config) :
    Ensures (all b) q
      (fun report q' => b.Reached 3 q.holdings q'.holdings ∧ b.Reports report q'.holdings)
      (fun fault q' => ∃ t, b.Stopped t q.holdings q'.holdings fault) := by
  have hfirst := when_ensures 0 (Basis.reached_zero hs) (airports_table hs)
  refine hfirst.seq (fun _ _ h => ⟨_, h⟩) ?_
  rintro airports q₁ ⟨hreached₁, -, hairports⟩
  have hsecond := when_ensures (t := .countries) { LoadReport.zero with airports := airports }
    hreached₁ (reportCountries_table hreached₁.sound { LoadReport.zero with airports := airports })
  refine hsecond.seq (fun _ _ h => ⟨_, h⟩) ?_
  rintro report q₂ ⟨hreached₂, htouches₂, hborders⟩
  have hthird := when_ensures (t := .prisons) 0 hreached₂ (prisons_table hreached₂.sound)
  refine hthird.seq (fun _ _ h => ⟨_, h⟩) ?_
  rintro prisons q₃ ⟨hreached₃, htouches₃, hprisons⟩
  refine ⟨hreached₃, ?_⟩
  -- what was counted of a table still holds after the tables behind it
  have hsame : q₃.holdings.airports = q₁.holdings.airports :=
    (htouches₂.others .airports (by decide)).trans (htouches₃.others .airports (by decide))
  obtain ⟨hsame', hreference⟩ := htouches₃.others .countries (by decide)
  have hairports' : airports =
      if b.config.checks .airports then q₃.holdings.airports.size else 0 := by
    rw [hsame]
    split at hairports <;> simp_all
  have hprisons' : prisons =
      if b.config.checks .prisons then q₃.holdings.prisons.size else 0 := by
    split at hprisons <;> simp_all
  by_cases hchecked : b.config.checks .countries = true
  · rw [if_pos hchecked] at hborders
    obtain ⟨⟨o, hrun, hbuffer⟩, hreport⟩ := hborders
    refine ⟨?_, hprisons', ?_, ?_, ?_⟩
    · rw [hreport]
      exact hairports'
    · rw [if_pos hchecked, hreport, hsame']
    · rw [if_pos hchecked, hreport, hreference]
    · rw [if_pos hchecked]
      exact ⟨o, hrun, hsame'.trans hbuffer⟩
  · -- without borders the report is the one that the airports have left
    rw [if_neg hchecked] at hborders
    subst hborders
    refine ⟨hairports', hprisons', ?_, ?_, ?_⟩ <;> rw [if_neg hchecked] <;> rfl

end Load

end Airspace

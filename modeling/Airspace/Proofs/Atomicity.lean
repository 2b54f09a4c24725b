import Airspace.Proofs.Lifecycle
import Airspace.Proofs.Outline

/-! # All or nothing

  By an evaluation the tables are loaded all or not at all, and the tables alone decide
  which: it takes that every table that is checked can be read to its end and that what is to
  be kept of it fits. If that fails for one table, all is dropped.

  A bare ingestion drops nothing. The tables before the one at fault are complete and those
  behind it are as they were, but what the table at fault had let in stays in its buffer:
  the first of its records, or an outline that ends within a polygon.
-/

namespace Airspace

open Border

namespace Guard

variable {globe : Globe} {c : Config} {g : Guard} {v : Volume}

/-! ### Loading by an evaluation -/

/-- An evaluation loads the tables where nothing stands in the way. -/
theorem evaluate_eq_loadAndJudge (hstorage : g.storage = some true)
    (hbypassed : g.config.everythingBypassed = false) (hposition : g.position.isNull = false)
    (hpending : g.phase = .pending) : g.evaluate v true = g.loadAndJudge v := by
  have hbefore : g.verdictBefore? = none := by
    simp [verdictBefore?, hstorage, hbypassed, hposition, hpending]
  unfold evaluate
  rw [started_of_storage hstorage]
  simp only [hbefore, hpending]

/-- What the first evaluation that may load the tables comes to. It succeeds if and only if
    each table that is checked opens, all its lines are text, and what is to be kept of it
    fits. Then exactly that is kept and counted. Otherwise all is dropped, and the alert is
    that of the first fault. -/
theorem evaluate_all_or_nothing (globe : Globe) (c : Config) (run : List (Volume × Command))
    (v : Volume) (hstorage : ((new globe c).after run).storage = some true)
    (hbypassed : c.everythingBypassed = false)
    (hposition : ((new globe c).after run).position.isNull = false)
    (hpending : ((new globe c).after run).phase = .pending) :
    let g := (new globe c).after run
    let b : Load.Basis := ⟨globe, c, v, g.position⟩
    let e := g.evaluate v true
    (e.guard.isLoaded = true ↔ ∀ t, c.checks t = true →
        ∃ r, v.read t = .ok r ∧ r.fault = none ∧ b.size t ≤ c.recordLimit) ∧
      (e.guard.isLoaded = true →
        (∀ t, c.checks t = true → b.Loaded e.guard.holdings t) ∧
          (c.checks .countries = true → b.Drew e.guard.report.borders e.guard.holdings) ∧
          (∀ t, c.checks t = false → e.guard.holdings.Blank t) ∧
          e.guard.holdings.CountedBy e.guard.report ∧ e.guard.status = .ready) ∧
      (e.guard.isLoaded = false →
        e.guard.holdings.Dropped ∧ e.guard.report = .zero ∧ e.guard.status = .failed ∧
          e.verdict = .deny .fileError "file error" ∧
          ∃ fault, b.firstFault? = some fault ∧ e.guard.alert? = some fault.alert) := by
  intro g b e
  have hfit : g.Fit c := (fit_new globe c).after run
  have hbasis : g.basis v = b := basis_after globe c run v
  have he : e = g.loadAndJudge v :=
    evaluate_eq_loadAndJudge hstorage (hfit.config_eq.symm ▸ hbypassed) hposition hpending
  have hafter : e.guard.Fit c := hfit.evaluate v true
  rcases loadAndJudge_outcome (v := v) hfit.sound_config with
    ⟨report, hguard, hreached, hreports⟩ | ⟨fault, t, hguard, hverdict, hstopped⟩
  · -- all tables have been settled, so none of those checked is at fault
    rw [hbasis] at hreached hreports
    rw [he] at hafter ⊢
    rw [hguard] at hafter ⊢
    have hsettled : ∀ t, c.checks t = true → b.fault? t = none ∧
        b.Loaded (g.ingestion v).holdings t := by
      intro t ht
      have hsettled := hreached.settled t (by cases t <;> decide)
      rwa [Load.Basis.Settled, if_pos ht] at hsettled
    refine ⟨?_, ?_, ?_⟩
    · refine iff_of_true rfl ?_
      intro t ht
      exact Load.Basis.fault?_eq_none_iff_size.mp (hsettled t ht).1
    · intro _
      refine ⟨fun t ht => (hsettled t ht).2, ?_, hafter.blank, hreports.counted hafter.blank, ?_⟩
      · intro hchecked
        have hborders := hreports.borders
        rwa [if_pos hchecked] at hborders
      · simp [status, hstorage, hposition, g]
    · intro hnot
      cases hnot
  · -- the table where the load stopped is checked and at fault
    rw [hbasis] at hstopped
    rw [he, hguard]
    refine ⟨?_, ?_, ?_⟩
    · refine iff_of_false (by simp [isLoaded]) ?_
      intro hall
      have hnone := Load.Basis.fault?_eq_none_iff_size (b := b).mpr (hall t hstopped.checked)
      rw [hstopped.fault_eq] at hnone
      cases hnone
    · intro hloaded
      cases hloaded
    · intro _
      refine ⟨Holdings.dropped_release _, rfl, ?_, hverdict, fault, hstopped.firstFault?_eq, rfl⟩
      simp [status, hstorage, g]

/-- A border table of one square. -/
def square : Volume := Volume.empty.putLines .countries ["1,1", "5,1", "5,5", "1,5"]

/-- Countries alone are checked, no distance is too far, and buffers hold so many records. -/
def cramped (limit : Nat) : Config :=
  { Config.standard with bypass := ⟨true, false, true⟩, reach := 0.0 / 0.0, recordLimit := limit }

/-- How a guard comes to be in the middle of the square. -/
def arrival : List (Volume × Command) := [(square, .start), (square, .locate ⟨3.0, 3.0⟩)]

/-- Airports and prisons are checked, from the usual distances. -/
def fieldConfig : Config := { Config.standard with bypass := ⟨false, true, false⟩ }

/-- A volume that lists these airports, and two prisons. -/
def fields (airports : List String) : Volume :=
  (Volume.empty.putLines .airports airports).putLines .prisons ["10.6,10.0", "10.005,10.0"]

/-- Three airports around (10, 10), of which the first is out of reach. -/
def threeFields : Volume := fields ["0,10.6,10.0", "2,10.02,10.0", "0,10.03,10.0"]

/-- How a guard comes to be at (10, 10). -/
def landing : List (Volume × Command) :=
  [(threeFields, .start), (threeFields, .locate ⟨10.0, 10.0⟩)]

/-- The outline of the square takes six vertices. With room for six it is loaded, with room
    for five the evaluation fails and nothing is kept. Of the three airports two are within
    reach, and of the two prisons one. With room for two these are kept and the others are not;
    with room for one nothing is kept, not even the prison, which would fit. -/
theorem evaluate_all_or_nothing_square :
    let e (limit : Nat) := ((new .sphere (cramped limit)).after arrival).evaluate square true
    let roomy (limit : Nat) : Config := { fieldConfig with recordLimit := limit }
    let f (limit : Nat) := ((new .flat (roomy limit)).after landing).evaluate threeFields true
    ((e 6).guard.isLoaded = true ∧ (e 6).guard.holdings.countries.toList.length = 6 ∧
        (e 6).guard.holdings.Blank .airports ∧ (e 6).guard.status = .ready) ∧
      ((e 5).guard.isLoaded = false ∧ (e 5).guard.holdings.Dropped ∧
        (e 5).guard.alert? =
          some ⟨.capacityExceeded, "countries: store reached its ceiling of 5 entries"⟩) ∧
      ((f 2).guard.isLoaded = true ∧
        (f 2).guard.holdings.airports.toList.map Airport.category = [.smallAirport, .largeAirport] ∧
        (f 2).guard.holdings.prisons.toList.map Point.lat = [10.005]) ∧
      (f 1).guard.isLoaded = false ∧ (f 1).guard.holdings.Dropped ∧
        (f 1).guard.alert? =
          some ⟨.capacityExceeded, "airports: store reached its ceiling of 1 entries"⟩ := by
  intro e roomy f
  obtain ⟨-, hloaded, -⟩ := evaluate_all_or_nothing .sphere (cramped 6) arrival square (by decide)
    (by decide) (by decide +kernel) rfl
  obtain ⟨-, -, hfailed⟩ := evaluate_all_or_nothing .sphere (cramped 5) arrival square (by decide)
    (by decide) (by decide +kernel) rfl
  obtain ⟨-, hkeeps, -⟩ := evaluate_all_or_nothing .flat (roomy 2) landing threeFields (by decide)
    (by decide) (by decide +kernel) rfl
  obtain ⟨-, -, hdrops⟩ := evaluate_all_or_nothing .flat (roomy 1) landing threeFields (by decide)
    (by decide) (by decide +kernel) rfl
  have hfits : (e 6).guard.isLoaded = true := by decide +kernel
  have hfails : (e 5).guard.isLoaded = false := by decide +kernel
  have hboth : (f 2).guard.isLoaded = true := by decide +kernel
  have hneither : (f 1).guard.isLoaded = false := by decide +kernel
  obtain ⟨hkept, -, hblank, -, hready⟩ := hloaded hfits
  obtain ⟨hdropped, -, -, -, fault, hfault, halert⟩ := hfailed hfails
  obtain ⟨hwithin, -⟩ := hkeeps hboth
  obtain ⟨hnone, -, -, -, fault', hfault', halert'⟩ := hdrops hneither
  refine ⟨⟨hfits, ?_, hblank .airports (by decide), hready⟩, ⟨hfails, hdropped, ?_⟩,
    ⟨hboth, ?_, ?_⟩, hneither, hnone, ?_⟩
  · rw [(hkept .countries (by decide)).1]
    decide +kernel
  · obtain rfl : fault = .buffer .countries (.limitReached 5) :=
      Option.some.inj (hfault.symm.trans (by decide +kernel))
    exact halert
  · rw [show (f 2).guard.holdings.airports.toList = _ from hwithin .airports (by decide)]
    decide +kernel
  · rw [show (f 2).guard.holdings.prisons.toList = _ from hwithin .prisons (by decide)]
    decide +kernel
  · obtain rfl : fault' = .buffer .airports (.limitReached 1) :=
      Option.some.inj (hfault'.symm.trans (by decide +kernel))
    exact halert'

/-! ### Bare ingestions -/

/-- What an ingestion that fails leaves behind, whatever the guard was told before. The table
    at fault is the first one. Tables before it are complete, or untouched if they are not
    checked, and tables behind it are untouched. Of the table at fault the buffer holds the
    beginning. -/
theorem ingest_of_error (globe : Globe) (c : Config) (run : List (Volume × Command)) (v : Volume)
    (fault : LoadFault) (hfault : (((new globe c).after run).ingest v).2.outcome = .error fault) :
    let g := (new globe c).after run
    let b : Load.Basis := ⟨globe, c, v, g.position⟩
    let h := (g.ingest v).1.holdings
    b.firstFault? = some fault ∧
      ∃ t, c.checks t = true ∧ b.fault? t = some fault ∧ b.Begun h t ∧
        (∀ u, u.rank < t.rank →
          if c.checks u then b.Loaded h u else g.holdings.SameOf h u) ∧
        ∀ u, t.rank < u.rank → g.holdings.SameOf h u := by
  intro g b h
  have hfit : g.Fit c := (fit_new globe c).after run
  have hbasis : g.basis v = b := basis_after globe c run v
  rcases ingestion_outcome (v := v) hfit.sound_config with
    ⟨report, houtcome, -⟩ | ⟨fault', t, houtcome, hstopped⟩
  · rw [show (g.ingest v).2.outcome = .ok report from houtcome] at hfault
    cases hfault
  · rw [show (g.ingest v).2.outcome = .error fault' from houtcome] at hfault
    obtain rfl := Except.error.inj hfault
    rw [hbasis] at hstopped
    refine ⟨hstopped.firstFault?_eq, t, hstopped.checked, hstopped.fault_eq, hstopped.begun, ?_,
      hstopped.same⟩
    intro u hrank
    have hsettled := hstopped.settled u hrank
    unfold Load.Basis.Settled at hsettled
    split at hsettled
    · next hchecked =>
      rw [if_pos hchecked]
      exact hsettled.2
    · next hchecked =>
      rw [if_neg hchecked]
      exact hsettled

/-- With room for four vertices the square is not loaded, but its beginning is kept. -/
theorem ingest_of_error_square :
    let g := (new .sphere (cramped 4)).after arrival
    (g.ingest square).2.outcome = .error (.buffer .countries (.limitReached 4)) ∧
      (g.basis square).Begun (g.ingest square).1.holdings .countries ∧
      (g.ingest square).1.holdings.airports = g.holdings.airports := by
  intro g
  have hfault : (g.ingest square).2.outcome = .error (.buffer .countries (.limitReached 4)) := by
    decide +kernel
  obtain ⟨-, t, ht, -, hbegun, hbefore, -⟩ := ingest_of_error .sphere (cramped 4) arrival square _
    hfault
  -- only the borders are checked
  have hborders : t = .countries := by
    cases t with
    | countries => rfl
    | airports => cases ht
    | prisons => cases ht
  subst hborders
  exact ⟨hfault, hbegun, hbefore .airports (by decide)⟩

set_option maxRecDepth 100000 in
/-- With room for four vertices only, two edges of the square are left after the failure:
    three vertices of the six that were to be kept, and no separator behind them. -/
theorem ingest_leaves_part :
    let g := (new .sphere (cramped 4)).after arrival
    let h := (g.ingest square).1.holdings
    (g.ingest square).2.outcome = .error (.buffer .countries (.limitReached 4)) ∧
      h.countries.toList.length = 3 ∧ (∀ p ∈ h.countries.toList, p.isNull = false) ∧
      h.countries.toList ≠ (g.basis square).outline ∧
      h.countries.toList ≠ g.holdings.countries.toList ∧ h.countries.toList ≠ [] := by
  intro g h
  have hlength : h.countries.toList.length = 3 ∧ (g.basis square).outline.length = 6 ∧
      g.holdings.countries.toList.length = 0 := by decide +kernel
  refine ⟨by decide +kernel, hlength.1, by decide +kernel, ?_, ?_, ?_⟩
  · intro heq
    have hcount := congrArg List.length heq
    omega
  · intro heq
    have hcount := congrArg List.length heq
    omega
  · intro heq
    have hcount := congrArg List.length heq
    rw [List.length_nil] at hcount
    omega

end Guard

end Airspace

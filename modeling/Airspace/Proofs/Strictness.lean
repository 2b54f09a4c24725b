import Airspace.Proofs.Atomicity
import Airspace.Proofs.Course
import Airspace.Proofs.Order

/-! # Stricter configurations

  A configuration that checks more categories, or keeps further away from what it checks,
  never allows a flight that a laxer one denies. The two load their tables at the same
  evaluations. If the stricter one fails, perhaps because of a table that the laxer one does
  not read, it denies everything from then on. If it does not fail, it keeps of the tables
  that both check exactly what the laxer one keeps.
-/

namespace Airspace

/-! ### Laxer configurations -/

/-- A distance is at most another, or they are the same. Not-a-number is at most nothing,
    but as a clearance it is still the same as itself. -/
def Double.AtMost (x y : Float) : Prop := x ≤ y ∨ x = y

theorem Double.lt_of_lt_of_atMost {d x y : Float} (hlt : d < x) (hle : AtMost x y) : d < y := by
  rcases hle with hle | rfl
  · exact lt_of_lt_of_le hlt hle
  · exact hlt

namespace Config

variable {a b c : Config}

/-- `a` is laxer than `b`: it checks no table that `b` does not check, and keeps no larger
    distance from anything. What both would load of a table is the same. -/
structure LaxerThan (a b : Config) : Prop where
  checks : ∀ t, a.checks t = true → b.checks t = true
  airport : ∀ category,
    Double.AtMost (a.clearances.forAirport category) (b.clearances.forAirport category)
  prison : Double.AtMost a.clearances.prison b.clearances.prison
  reach_eq : b.reach = a.reach
  detour_eq : b.detour = a.detour
  recordLimit_eq : b.recordLimit = a.recordLimit

/-- A configuration gets laxer where categories are bypassed or prisons are not supported. -/
theorem laxerThan_of_checks {bypass : Bypass} {prisonSupport : Bool}
    (h : ∀ t, { c with bypass := bypass, prisonSupport := prisonSupport }.checks t = true →
      c.checks t = true) :
    { c with bypass := bypass, prisonSupport := prisonSupport }.LaxerThan c :=
  ⟨h, fun _ => Or.inr rfl, Or.inr rfl, rfl, rfl, rfl⟩

theorem LaxerThan.everythingBypassed (h : a.LaxerThan b) (hb : b.everythingBypassed = true) :
    a.everythingBypassed = true := by
  rw [everythingBypassed_iff] at hb ⊢
  intro t
  rw [Bool.eq_false_iff]
  intro hchecked
  have hunchecked := hb t
  rw [h.checks t hchecked] at hunchecked
  cases hunchecked

end Config

/-! ### What is loaded and kept away from -/

namespace Load.Basis

variable {globe : Globe} {a b : Config} {v : Volume} {p origin : Position}

/-- Two configurations load the same of a table, or fail with the same fault, if the reach,
    the detours and the room for records are the same. -/
theorem loads_eq (h : a.LaxerThan b) (globe : Globe) (v : Volume) (origin : Position) :
    let x : Basis := ⟨globe, a, v, origin⟩
    let y : Basis := ⟨globe, b, v, origin⟩
    y.fault? = x.fault? ∧ y.airports = x.airports ∧ y.prisons = x.prisons ∧
      y.inside = x.inside := by
  obtain ⟨-, -, -, hreach, hdetour, hlimit⟩ := h
  cases a
  cases b
  cases hreach
  cases hdetour
  cases hlimit
  exact ⟨rfl, rfl, rfl, rfl⟩

/-- A verdict by the tables allows a flight if no table is at fault and no check objects. -/
theorem verdict_allowed_iff {b : Basis} : (b.verdict p).allowed = true ↔
    b.firstFault? = none ∧
      (b.config.checks .airports = true →
        nearAirport? b.globe b.config.clearances p b.airports = none) ∧
      (b.config.checks .prisons = true →
        nearPrison? b.globe b.config.clearances.prison p b.prisons = none) ∧
      (b.config.checks .countries = true → b.inside p = false) := by
  simp [verdict, Config.checks, apply_ite Verdict.allowed, imp_iff_not_or]

/-- What is far enough away by large clearances is far enough away by small ones. -/
theorem nearAirport?_of_atMost {x y : Clearances} {airports : List Airport}
    (hle : ∀ category, Double.AtMost (x.forAirport category) (y.forAirport category))
    (hnone : nearAirport? globe y p airports = none) : nearAirport? globe x p airports = none := by
  simp only [nearAirport?, List.find?_eq_none, Airport.tooNear, decide_eq_true_iff] at hnone ⊢
  intro airport hmem hnear
  exact hnone airport hmem (Double.lt_of_lt_of_atMost hnear (hle airport.category))

theorem nearPrison?_of_atMost {x y : Float} {prisons : List Position}
    (hle : Double.AtMost x y) (hnone : nearPrison? globe y p prisons = none) :
    nearPrison? globe x p prisons = none := by
  simp only [nearPrison?, List.find?_eq_none, decide_eq_true_iff] at hnone ⊢
  intro prison hmem hnear
  exact hnone prison hmem (Double.lt_of_lt_of_atMost hnear hle)

/-- Where the stricter configuration allows a flight by the tables, so does the laxer one. -/
theorem verdict_allowed_of_laxer (h : a.LaxerThan b)
    (hallowed : (verdict ⟨globe, b, v, origin⟩ p).allowed = true) :
    (verdict ⟨globe, a, v, origin⟩ p).allowed = true := by
  obtain ⟨hfault, hairports, hprisons, hinside⟩ := loads_eq h globe v origin
  rw [verdict_allowed_iff, firstFault?_eq_none_iff] at hallowed ⊢
  rw [hfault, hairports, hprisons, hinside] at hallowed
  obtain ⟨hnone, hairport, hprison, hcountry⟩ := hallowed
  refine ⟨?_, ?_, ?_, ?_⟩
  · intro t ht
    exact hnone t (h.checks t ht)
  · intro ht
    exact nearAirport?_of_atMost h.airport (hairport (h.checks .airports ht))
  · intro ht
    exact nearPrison?_of_atMost h.prison (hprison (h.checks .prisons ht))
  · intro ht
    exact hcountry (h.checks .countries ht)

end Load.Basis

/-! ### Runs of two configurations -/

namespace Course

variable {a b c : Config} {k : Course}

/-- A verdict allows a flight if nothing is checked, or if the volume was there, there is a
    position, and the tables do not object once they have been loaded. -/
theorem verdict_allowed_iff : (k.verdict c).allowed = true ↔
    c.everythingBypassed = true ∨
      k.storage = some true ∧ k.position.isNull = false ∧
        ∀ l, k.loading = some l →
          (Load.Basis.verdict ⟨k.globe, c, l.1, l.2⟩ k.position).allowed = true := by
  by_cases hbypassed : c.everythingBypassed = true
  · simp [verdict, hbypassed]
  by_cases hstorage : k.storage = some true
  swap
  · simp [verdict, hbypassed, hstorage]
  by_cases hnull : k.position.isNull = true
  · simp [verdict, hbypassed, hstorage, hnull]
  cases hloading : k.loading with
  | none => simp [verdict, basis?, hbypassed, hstorage, hnull, hloading]
  | some l => simp [verdict, basis?, hbypassed, hstorage, hnull, hloading]

/-- On the same course, what the stricter configuration allows the laxer one allows. -/
theorem verdict_allowed_of_laxer (h : a.LaxerThan b) (hallowed : (k.verdict b).allowed = true) :
    (k.verdict a).allowed = true := by
  rw [verdict_allowed_iff] at hallowed ⊢
  rcases hallowed with hbypassed | ⟨hstorage, hnull, hloading⟩
  · exact Or.inl (h.everythingBypassed hbypassed)
  · refine Or.inr ⟨hstorage, hnull, ?_⟩
    intro l hl
    exact Load.Basis.verdict_allowed_of_laxer h (hloading l hl)

end Course

namespace Guard

/-- Two guards are given the same commands, on the same volumes. At no evaluation does the
    one with the stricter configuration allow a flight that the other one denies. -/
theorem denied_of_laxer (globe : Globe) (a b : Config) (hlaxer : a.LaxerThan b)
    (run : List (Volume × Command)) (hrun : ∀ step ∈ run, step.2 ≠ .ingest) (v : Volume)
    (ready : Bool)
    (hdenied : (((new globe a).after run).evaluate v ready).verdict.allowed = false) :
    (((new globe b).after run).evaluate v ready).verdict.allowed = false := by
  rw [verdict_after _ _ hrun] at hdenied ⊢
  rw [Bool.eq_false_iff] at hdenied ⊢
  intro hallowed
  exact hdenied (Course.verdict_allowed_of_laxer hlaxer hallowed)

/-- A guard that checks countries and airports, and prisons from two kilometres. -/
def strictConfig : Config :=
  { cramped 6 with
    bypass := .none
    clearances := { Clearances.standard with prison := 2.0 } }

/-- In the middle of a banned square a guard denies the flight that checks countries alone, be
    it for a laxer clearance or because the rest is bypassed. So does the one that checks
    everything, although it finds no airports to load. -/
theorem denied_of_laxer_square :
    let bypassing := { strictConfig with bypass := ⟨true, false, false⟩, prisonSupport := false }
    let verdict (c : Config) := (((new .sphere c).after arrival).evaluate square true).verdict
    (cramped 6).LaxerThan strictConfig ∧ bypassing.LaxerThan strictConfig ∧
      (∀ step ∈ arrival, step.2 ≠ .ingest) ∧
      verdict (cramped 6) = .deny .country "inside banned country" ∧
      verdict bypassing = .deny .country "inside banned country" ∧
      (verdict strictConfig).allowed = false := by
  intro bypassing verdict
  have hlaxer : (cramped 6).LaxerThan strictConfig := by
    refine ⟨?_, ?_, Or.inl (by decide +kernel), rfl, rfl, rfl⟩
    · intro t ht
      cases t <;> rfl
    · intro category
      cases category <;> exact Or.inl (by decide +kernel)
  have hbypassing : bypassing.LaxerThan strictConfig := by
    refine Config.laxerThan_of_checks ?_
    intro t ht
    cases t <;> rfl
  have hrun : ∀ step ∈ arrival, step.2 ≠ .ingest := by simp [arrival]
  have hverdict : verdict bypassing = .deny .country "inside banned country" := by decide +kernel
  refine ⟨hlaxer, hbypassing, hrun, by decide +kernel, hverdict, ?_⟩
  refine denied_of_laxer .sphere bypassing strictConfig hbypassing arrival hrun square true ?_
  rw [show (((new .sphere bypassing).after arrival).evaluate square true).verdict = _ from hverdict]
  rfl

end Guard

end Airspace

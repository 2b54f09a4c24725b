import Airspace.Proofs.Atomicity
import Airspace.Proofs.Country
import Airspace.Proofs.Order
import Airspace.Proofs.Reordering

/-! # Nearness to what the tables list

  A guard keeps of the airports and the prisons only those within reach of the position at
  which it loads them, and a check at another position asks only these. It still answers for
  the lines of the tables: something is too near if some line holds a record that was within
  reach then and is too near now, and the record found is that of the first such line. Where
  the guard has not moved, and no clearance goes beyond the reach, the rest of the tables would
  not have changed the answer.
-/

namespace Airspace

/-! ### Searches of lines -/

section Lines

variable {α : Type} {record? : String → Option α} {kept wanted : α → Bool} {lines : List String}

/-- The record of the first line that holds a wanted one. -/
def firstListed? (record? : String → Option α) (wanted : α → Bool) (lines : List String) :
    Option α :=
  (lines.find? fun line => (record? line).any wanted).bind record?

theorem find?_listed : (lines.filterMap record?).find? wanted = firstListed? record? wanted lines :=
  List.find?_filterMap

theorem isSome_firstListed?_iff : (firstListed? record? wanted lines).isSome = true ↔
    ∃ line ∈ lines, ∃ a, record? line = some a ∧ wanted a = true := by
  rw [← find?_listed, List.find?_isSome]
  simp only [List.mem_filterMap]
  grind

/-- A search of the records that are kept is a search of the lines for those that are kept. -/
theorem find?_kept : (lines.filterMap fun line => (record? line).filter kept).find? wanted =
    firstListed? record? (fun a => kept a && wanted a) lines := by
  rw [List.find?_filterMap]
  simp only [Option.any_filter]
  unfold firstListed?
  cases hfind : lines.find? fun line => (record? line).any fun a => kept a && wanted a with
  | none => rfl
  | some line =>
    -- the record of the line that is found is one that is kept
    have hany := List.find?_some hfind
    show (record? line).filter kept = record? line
    cases hrecord : record? line <;> simp_all

/-- It does not matter that only a part is kept, if all that is wanted is kept. -/
theorem find?_kept_of_imp (h : ∀ a, wanted a = true → kept a = true) :
    (lines.filterMap fun line => (record? line).filter kept).find? wanted =
      (lines.filterMap record?).find? wanted := by
  have hsame : (fun a => kept a && wanted a) = wanted := by
    funext a
    cases hwanted : wanted a with
    | false => simp
    | true => simp [h a hwanted]
  rw [find?_kept, find?_listed, hsame]

end Lines

/-! ### Places that are listed -/

/-- How a table lists places to keep away from. -/
structure Listing (α : Type) where
  /-- The record of a line; a blank line has none. -/
  record? : String → Option α
  /-- Where a record is. -/
  place : α → Position
  /-- How far to keep away from it. -/
  clearance : α → Float

/-- How airports are listed. -/
def Clearances.airportListing (c : Clearances) : Listing Airport where
  record? line := Record.airport? line.toList
  place a := a.position
  clearance a := c.forAirport a.category

/-- How prisons are listed. -/
def Clearances.prisonListing (c : Clearances) : Listing Position where
  record? line := Record.prison? line.toList
  place p := p
  clearance _ := c.prison

namespace Listing

variable {α : Type} {l : Listing α} {globe : Globe} {reach : Float} {origin p : Position} {lines : List String}

/-- A record is within reach. -/
def reached (l : Listing α) (globe : Globe) (reach : Float) (origin : Position) (a : α) : Bool :=
  decide (globe.distance origin (l.place a) < reach)

/-- A record is too near. -/
def tooNear (l : Listing α) (globe : Globe) (p : Position) (a : α) : Bool :=
  decide (globe.distance p (l.place a) < l.clearance a)

/-- The records that are kept of lines. -/
def kept (l : Listing α) (globe : Globe) (reach : Float) (origin : Position)
    (lines : List String) : List α :=
  lines.filterMap fun line => (l.record? line).filter (l.reached globe reach origin)

/-- A check at a position answers for lines of which only what was within reach of an origin
    has been kept. -/
structure AnswersFor (l : Listing α) (globe : Globe) (reach : Float) (origin p : Position)
    (lines : List String) (answer : Bool) (found : Option α) : Prop where
  answer_iff : answer = true ↔ ∃ line ∈ lines, ∃ a, l.record? line = some a ∧
    globe.distance origin (l.place a) < reach ∧ globe.distance p (l.place a) < l.clearance a
  found_eq : found =
    firstListed? l.record? (fun a => l.reached globe reach origin a && l.tooNear globe p a) lines
  unpruned : p = origin → (∀ a, l.clearance a ≤ reach) →
    found = (lines.filterMap l.record?).find? (l.tooNear globe p) ∧
      answer = ((lines.filterMap l.record?).find? (l.tooNear globe p)).isSome

/-- A search of what is kept does. -/
theorem answersFor_kept (l : Listing α) (globe : Globe) (reach : Float) (origin p : Position)
    (lines : List String) :
    let found := (l.kept globe reach origin lines).find? (l.tooNear globe p)
    l.AnswersFor globe reach origin p lines found.isSome found := by
  refine ⟨?_, find?_kept, ?_⟩
  · rw [kept, find?_kept, isSome_firstListed?_iff]
    simp only [Bool.and_eq_true, reached, tooNear, decide_eq_true_iff]
  · rintro rfl hle
    -- what is too near is nearer than the reach
    have hnear : ∀ a, l.tooNear globe p a = true → l.reached globe reach p a = true := by
      intro a ha
      have hlt : globe.distance p (l.place a) < l.clearance a := of_decide_eq_true ha
      exact decide_eq_true (Double.lt_of_lt_of_le hlt (hle a))
    rw [kept, find?_kept_of_imp hnear]
    exact ⟨rfl, rfl⟩

/-- A check finds something exactly if it objects. -/
theorem AnswersFor.answer_eq {answer : Bool} {found : Option α}
    (h : l.AnswersFor globe reach origin p lines answer found) : answer = found.isSome := by
  rw [Bool.eq_iff_iff, h.answer_iff, h.found_eq, isSome_firstListed?_iff]
  simp only [Bool.and_eq_true, reached, tooNear, decide_eq_true_iff]

end Listing

namespace Load.Basis

theorem airports_eq_kept (b : Basis) : b.airports =
    b.config.clearances.airportListing.kept b.globe b.config.reach b.origin
      (b.volume.lines .airports) := rfl

theorem prisons_eq_kept (b : Basis) : b.prisons =
    b.config.clearances.prisonListing.kept b.globe b.config.reach b.origin
      (b.volume.lines .prisons) := rfl

end Load.Basis

/-! ### Checks after a load -/

namespace Guard

variable {globe : Globe} {c : Config} {g : Guard} {v : Volume}

/-- An evaluation does not move the guard. -/
theorem position_evaluate (v : Volume) (ready : Bool) (g : Guard) :
    (g.evaluate v ready).guard.position = g.position := by
  rcases evaluate_started v ready g with hsame | ⟨-, -, hload⟩
  · rw [hsame, started_position]
  · rw [hload, (loadAndJudge_frame v (g.started v)).2.1, started_position]

/-- Where an evaluation has loaded the tables, all that are checked can be read to their end,
    and they are kept as they are to be until the next start. -/
theorem loaded_after (hg : g.Fit c) {ready : Bool} (hfresh : g.isLoaded = false)
    (hloaded : (g.evaluate v ready).guard.isLoaded = true) {later : List (Volume × Command)}
    (hlater : ∀ step ∈ later, step.2 ≠ .ingest ∧ step.2 ≠ .start) :
    let g' := (g.evaluate v ready).guard.after later
    g'.globe = g.globe ∧ g'.config = c ∧ ∀ t, c.checks t = true →
      v.fault? t = none ∧ Load.Basis.Loaded ⟨g.globe, c, v, g.position⟩ g'.holdings t := by
  intro g'
  have hstarted := hg.started v
  rcases evaluate_started v ready g with hsame | ⟨hbefore, -, hload⟩
  · -- a guard that is only started has loaded nothing
    rw [hsame] at hloaded
    rcases started_eq v g with hsame | ⟨-, hstart⟩
    · rw [hsame, hfresh] at hloaded
      cases hloaded
    · rw [hstart] at hloaded
      cases hloaded
  · obtain ⟨hstorage, -⟩ := of_verdictBefore?_eq_none hbefore
    obtain ⟨-, -, hstorage'⟩ := loadAndJudge_frame v (g.started v)
    obtain ⟨hleaves, -⟩ := loadAndJudge_leaves hstarted v
    rw [started_globe, started_position] at hleaves
    have hconfig := (hg.evaluate v ready).config_eq
    rcases hleaves with ⟨report, hphase, hnone, hkept⟩ | ⟨fault, hphase, -⟩
    · have hafter : g' = { (g.evaluate v ready).guard with position := g'.position } := by
        refine after_of_decided ?_ ?_ hlater
        · rw [hload, hphase]
          nofun
        · rw [hload, hstorage', hstorage]
      rw [hafter]
      refine ⟨evaluate_globe v ready g, hconfig, ?_⟩
      intro t ht
      have hfault := Load.Basis.firstFault?_eq_none_iff.mp hnone t ht
      have hread := (Load.Basis.fault?_eq_none_iff.mp hfault).1
      rw [← hload] at hkept
      exact ⟨hread, hkept t ht⟩
    · rw [hload, isLoaded, hphase] at hloaded
      cases hloaded

/-- Between the evaluation that has loaded the tables and the next start, without a bare
    ingestion in between, checks of airports and prisons answer for the lines of the tables as
    they were when they were loaded. In a run without bare ingestions the order of these lines
    makes no difference to any verdict. -/
theorem near_iff_listed (globe : Globe) (c : Config) (before later : List (Volume × Command))
    (v : Volume) (ready : Bool) (hfresh : ((new globe c).after before).isLoaded = false)
    (hloaded : (((new globe c).after before).evaluate v ready).guard.isLoaded = true)
    (hlater : ∀ step ∈ later, step.2 ≠ .ingest ∧ step.2 ≠ .start) :
    let origin := ((new globe c).after before).position
    let g := (((new globe c).after before).evaluate v ready).guard.after later
    (c.airportEnabled = true → v.fault? .airports = none ∧
        c.clearances.airportListing.AnswersFor globe c.reach origin g.position (v.lines .airports)
          g.isNearAirport
          (nearAirport? globe c.clearances g.position g.holdings.airports.toList)) ∧
      (c.prisonEnabled = true → v.fault? .prisons = none ∧
        c.clearances.prisonListing.AnswersFor globe c.reach origin g.position (v.lines .prisons)
          g.isNearPrison
          (nearPrison? globe c.clearances.prison g.position g.holdings.prisons.toList)) ∧
      ∀ (run run' : List (Volume × Command)) (w w' : Volume) (ready : Bool),
        (∀ step ∈ run, step.2 ≠ .ingest) → Course.RunsAlike run run' → w.Reordered w' →
          (((new globe c).after run').evaluate w' ready).verdict =
            (((new globe c).after run).evaluate w ready).verdict := by
  intro origin g
  have hfit : ((new globe c).after before).Fit c := (fit_new globe c).after before
  obtain ⟨hglobe, hconfig, hkept⟩ := loaded_after hfit hfresh hloaded hlater
  have hbefore : ((new globe c).after before).globe = globe := after_globe _ before
  rw [hbefore] at hglobe hkept
  refine ⟨?_, ?_, ?_⟩
  · intro henabled
    obtain ⟨hread, hairports⟩ := hkept .airports henabled
    refine ⟨hread, ?_⟩
    unfold isNearAirport
    rw [hglobe, hconfig, show g.holdings.airports.toList = _ from hairports,
      Load.Basis.airports_eq_kept]
    exact c.clearances.airportListing.answersFor_kept globe c.reach origin g.position _
  · intro henabled
    obtain ⟨hread, hprisons⟩ := hkept .prisons henabled
    refine ⟨hread, ?_⟩
    unfold isNearPrison
    rw [hglobe, hconfig, show g.holdings.prisons.toList = _ from hprisons,
      Load.Basis.prisons_eq_kept]
    exact c.clearances.prisonListing.answersFor_kept globe c.reach origin g.position _
  · intro run run' w w' ready hrun halike hw
    exact verdict_of_reordered globe c hrun halike hw ready

/-- Of three airports on a flat globe the first is out of reach, and the other two are too near;
    the first of these is found. From a place close to the airport that was out of reach
    nothing is too near, since it was not kept. With the airports in another order the guard
    comes to the same verdict. -/
theorem near_iff_listed_fields :
    let v := fields ["0,10.6,10.0", "", "2,10.02,10.0", "0,10.03,10.0"]
    let v' := fields ["0,10.03,10.0", "2,10.02,10.0", "", "0,10.6,10.0"]
    let before := [(v, Command.locate ⟨10.0, 10.0⟩)]
    let later := [(v, Command.locate ⟨10.57, 10.0⟩)]
    let g := (((new .flat fieldConfig).after before).evaluate v true).guard
    ((new .flat fieldConfig).after before).isLoaded = false ∧ g.isLoaded = true ∧
      (∀ step ∈ later, step.2 ≠ .ingest ∧ step.2 ≠ .start) ∧
      g.isNearAirport = true ∧ g.isNearPrison = true ∧
      (nearAirport? .flat fieldConfig.clearances g.position g.holdings.airports.toList).map
        Airport.category = some .smallAirport ∧
      g.isNearAirport = (nearAirport? .flat fieldConfig.clearances g.position
        ((v.lines .airports).filterMap fun line => Record.airport? line.toList)).isSome ∧
      (g.after later).isNearAirport = false ∧
      (Record.airport "0,10.6,10.0".toList).tooNear .flat fieldConfig.clearances
        (g.after later).position = true ∧
      v.Reordered v' ∧
      (((new .flat fieldConfig).after [(v', .locate ⟨10.0, 10.0⟩)]).evaluate v' true).verdict =
        (((new .flat fieldConfig).after before).evaluate v true).verdict := by
  intro v v' before later g
  have hbefore : ∀ step ∈ before, step.2 ≠ .ingest := by simp [before]
  have hlater : ∀ step ∈ later, step.2 ≠ .ingest ∧ step.2 ≠ .start := by simp [later]
  have hloaded : g.isLoaded = true := by decide +kernel
  have hreordered : v.Reordered v' := by
    refine ((Volume.Reordered.refl _).put (by decide) (Or.inr ?_)).put (by decide) (Or.inl rfl)
    exact ⟨_, _, rfl, rfl, List.isPerm_iff.mp (by decide +kernel)⟩
  have hle : ∀ a, fieldConfig.clearances.airportListing.clearance a ≤ fieldConfig.reach := by
    intro a
    show fieldConfig.clearances.forAirport a.category ≤ _
    cases a.category <;> decide +kernel
  obtain ⟨hairports, hprisons, -⟩ :=
    near_iff_listed .flat fieldConfig before [] v true rfl hloaded (by simp)
  obtain ⟨hthen, -, halike⟩ :=
    near_iff_listed .flat fieldConfig before later v true rfl hloaded hlater
  obtain ⟨-, hnow⟩ := hairports rfl
  obtain ⟨-, hprison⟩ := hprisons rfl
  obtain ⟨-, hthen⟩ := hthen rfl
  have hlisted := (hnow.unpruned (position_evaluate v true _) hle).2
  refine ⟨rfl, hloaded, hlater, ?_, ?_, ?_, hlisted, ?_, by decide +kernel, hreordered, ?_⟩
  · refine (hnow.answer_eq.trans (congrArg Option.isSome hnow.found_eq)).trans ?_
    decide +kernel
  · refine (hprison.answer_eq.trans (congrArg Option.isSome hprison.found_eq)).trans ?_
    decide +kernel
  · refine (congrArg (Option.map Airport.category) hnow.found_eq).trans ?_
    decide +kernel
  · refine (hthen.answer_eq.trans (congrArg Option.isSome hthen.found_eq)).trans ?_
    decide +kernel
  · exact halike before _ v v' true hbefore (.cons ⟨hreordered, rfl⟩ .nil) hreordered

end Guard

end Airspace

import Airspace.Guard.Command
import Airspace.Proofs.Outcome

/-! # The life of a guard

  Whatever a guard is told, its buffers stay within their limits, and nothing is ever kept
  of a table that is not checked. If it is told to load only by evaluations, more holds: the
  first load decides. Nothing is kept before it. Once it succeeded, what is kept stays as it
  is; once it failed, nothing is kept and flight stays forbidden. Only a new start makes the
  guard forget what was decided.
-/

namespace Airspace

namespace Holdings

variable {c : Config} {h h' : Holdings} {t : Table}

/-- Nothing is kept of a table. -/
def Blank (h : Holdings) : Table → Prop
  | .airports => h.airports.toList = []
  | .countries => h.countries.toList = [] ∧ h.reference = 0
  | .prisons => h.prisons.toList = []

theorem blank_new (c : Config) (t : Table) : (new c).Blank t := by
  cases t <;> simp [Blank, new]

theorem blank_reset (h : Holdings) (t : Table) : h.reset.Blank t := by
  cases t <;> simp [Blank, Holdings.reset]

theorem Blank.of_same (hblank : h.Blank t) (hsame : h.SameOf h' t) : h'.Blank t := by
  cases t <;> simp_all [Blank, SameOf]

/-- Nothing is kept at all, and there is no capacity left to keep anything. -/
structure Dropped (h : Holdings) : Prop where
  blank : ∀ t, h.Blank t
  countries : h.countries.capacity = 0
  airports : h.airports.capacity = 0
  prisons : h.prisons.capacity = 0

theorem dropped_release (h : Holdings) : h.release.Dropped := by
  refine ⟨?_, rfl, rfl, rfl⟩
  intro t
  cases t <;> simp [Blank, Holdings.release]

/-- The counts of a report are those of what is kept. -/
structure CountedBy (h : Holdings) (report : LoadReport) : Prop where
  airports : report.airports = h.airports.size
  prisons : report.prisons = h.prisons.size
  vertices : report.vertices = h.countries.size
  reference : report.reference = h.reference

end Holdings

namespace Load.Basis

variable {b : Basis} {h h' : Holdings} {t u : Table} {fault : LoadFault} {report : LoadReport}

theorem Reached.same_of_not_checked (hreached : b.Reached 3 h h')
    (hu : b.config.checks u = false) : h.SameOf h' u := by
  have hsettled := hreached.settled u (by cases u <;> decide)
  rwa [Settled, if_neg (Bool.eq_false_iff.mp hu)] at hsettled

theorem Stopped.same_of_not_checked (hstopped : b.Stopped t h h' fault)
    (hu : b.config.checks u = false) : h.SameOf h' u := by
  rcases Nat.lt_trichotomy u.rank t.rank with hbefore | heq | hbehind
  · have hsettled := hstopped.settled u hbefore
    rwa [Settled, if_neg (Bool.eq_false_iff.mp hu)] at hsettled
  · -- the table at fault is a checked one
    have hchecked := hstopped.checked
    rw [← Table.eq_of_rank_eq heq, hu] at hchecked
    cases hchecked
  · exact hstopped.same u hbehind

/-- A report counts what is kept, where nothing is kept of the tables left out. -/
theorem Reports.counted (hreports : b.Reports report h)
    (hblank : ∀ t, b.config.checks t = false → h.Blank t) : h.CountedBy report := by
  have hzero : ∀ {α : Type} {buffer : Buffer α}, buffer.toList = [] → 0 = buffer.size := by
    intro α buffer hnil
    rw [← Buffer.length_toList, hnil, List.length_nil]
  refine ⟨hreports.airports.trans ?_, hreports.prisons.trans ?_, hreports.vertices.trans ?_,
    hreports.reference.trans ?_⟩
  · split
    · rfl
    · next hnot => exact hzero (hblank .airports (Bool.eq_false_iff.mpr hnot))
  · split
    · rfl
    · next hnot => exact hzero (hblank .prisons (Bool.eq_false_iff.mpr hnot))
  · split
    · rfl
    · next hnot => exact hzero (hblank .countries (Bool.eq_false_iff.mpr hnot)).1
  · split
    · rfl
    · next hnot => exact (hblank .countries (Bool.eq_false_iff.mpr hnot)).2.symm

end Load.Basis

namespace Guard

variable {globe : Globe} {c : Config} {g : Guard} {v : Volume}

/-! ### What commands do -/

/-- What a guard loads its tables by. -/
def basis (v : Volume) (g : Guard) : Load.Basis := ⟨g.globe, g.config, v, g.position⟩

/-- An ingestion settles all tables, or it stops at a table at fault. -/
theorem ingestion_outcome (hs : g.holdings.Sound g.config) :
    (∃ report, (g.ingestion v).outcome = .ok report ∧
        (g.basis v).Reached 3 g.holdings (g.ingestion v).holdings ∧
        (g.basis v).Reports report (g.ingestion v).holdings) ∨
      ∃ fault t, (g.ingestion v).outcome = .error fault ∧
        (g.basis v).Stopped t g.holdings (g.ingestion v).holdings fault := by
  have hall := Load.all_ensures (b := g.basis v) (q := ⟨g.holdings, []⟩) hs
  unfold ingestion
  cases hend : Load.all ⟨g.globe, g.config, v, g.position⟩ ⟨g.holdings, []⟩ with
  | ok report q =>
    obtain ⟨hreached, hreports⟩ := hall.of_ok hend
    exact Or.inl ⟨report, rfl, hreached, hreports⟩
  | error fault q =>
    obtain ⟨t, hstopped⟩ := hall.of_error hend
    exact Or.inr ⟨fault, t, rfl, hstopped⟩

/-- Loading the tables for the first time goes as the ingestion does. After a fault all is
    dropped and flight is forbidden. -/
theorem loadAndJudge_outcome (hs : g.holdings.Sound g.config) :
    (∃ report, (g.loadAndJudge v).guard =
          { g with phase := .loaded report, holdings := (g.ingestion v).holdings } ∧
        (g.basis v).Reached 3 g.holdings (g.ingestion v).holdings ∧
        (g.basis v).Reports report (g.ingestion v).holdings) ∨
      ∃ fault t, (g.loadAndJudge v).guard =
          { g with phase := .failed fault, holdings := (g.ingestion v).holdings.release } ∧
        (g.loadAndJudge v).verdict = .deny .fileError "file error" ∧
        (g.basis v).Stopped t g.holdings (g.ingestion v).holdings fault := by
  unfold loadAndJudge
  rcases ingestion_outcome (v := v) hs with
    ⟨report, houtcome, hreached, hreports⟩ | ⟨fault, t, houtcome, hstopped⟩
  · refine Or.inl ⟨report, ?_, hreached, hreports⟩
    simp only [houtcome]
  · refine Or.inr ⟨fault, t, ?_, ?_, hstopped⟩ <;> simp only [houtcome]

/-- An evaluation starts the guard if need be. Then it leaves the guard as it is, or it loads
    the tables. -/
theorem evaluate_started (v : Volume) (ready : Bool) (g : Guard) :
    (g.evaluate v ready).guard = g.started v ∨
      (g.started v).verdictBefore? = none ∧ (g.started v).phase = .pending ∧
        g.evaluate v ready = (g.started v).loadAndJudge v := by
  unfold evaluate
  cases hbefore : (g.started v).verdictBefore? with
  | some verdict => simp [hbefore]
  | none =>
    cases hphase : (g.started v).phase with
    | loaded report => simp [hbefore, hphase]
    | failed fault => simp [hbefore, hphase]
    | pending => cases ready <;> simp [hbefore, hphase]

theorem started_eq (v : Volume) (g : Guard) :
    g.started v = g ∨ g.storage = none ∧ g.started v = g.start v := by
  unfold started
  cases hstorage : g.storage with
  | none => exact Or.inr ⟨rfl, rfl⟩
  | some there => exact Or.inl rfl

theorem started_of_storage {there : Bool} (h : g.storage = some there) (v : Volume) :
    g.started v = g := by
  unfold started
  rw [h]

/-! ### Runs of any commands -/

/-- A guard with a configuration, within its limits, that keeps nothing of what it does not
    check. -/
structure Fit (c : Config) (g : Guard) : Prop where
  config_eq : g.config = c
  sound : g.holdings.Sound c
  blank : ∀ t, c.checks t = false → g.holdings.Blank t

theorem Fit.sound_config (hg : g.Fit c) : g.holdings.Sound g.config := by
  rw [hg.config_eq]
  exact hg.sound

theorem fit_new (globe : Globe) (c : Config) : (new globe c).Fit c :=
  ⟨rfl, Holdings.sound_new c, fun t _ => Holdings.blank_new c t⟩

theorem Fit.start (hg : g.Fit c) (v : Volume) : (g.start v).Fit c :=
  ⟨hg.config_eq, hg.sound.reset, fun t _ => Holdings.blank_reset g.holdings t⟩

theorem Fit.started (hg : g.Fit c) (v : Volume) : (g.started v).Fit c := by
  rcases started_eq v g with hsame | ⟨-, hstart⟩
  · rwa [hsame]
  · rw [hstart]
    exact hg.start v

/-- What is kept after an ingestion is within the limits, and nothing is kept of the tables
    left out. -/
theorem Fit.ingestion (hg : g.Fit c) (v : Volume) : (g.ingestion v).holdings.Sound c ∧
    ∀ t, c.checks t = false → (g.ingestion v).holdings.Blank t := by
  obtain ⟨hconfig, hsound, hblank⟩ := hg
  subst hconfig
  rcases ingestion_outcome (v := v) hsound with
    ⟨report, -, hreached, -⟩ | ⟨fault, t, -, hstopped⟩
  · refine ⟨hreached.sound, ?_⟩
    intro u hu
    exact (hblank u hu).of_same (hreached.same_of_not_checked hu)
  · refine ⟨hstopped.sound, ?_⟩
    intro u hu
    exact (hblank u hu).of_same (hstopped.same_of_not_checked hu)

theorem Fit.evaluate (hg : g.Fit c) (v : Volume) (ready : Bool) :
    (g.evaluate v ready).guard.Fit c := by
  have hstarted := hg.started v
  obtain ⟨hsound, hblank⟩ := hstarted.ingestion v
  rcases evaluate_started v ready g with hsame | ⟨-, -, hload⟩
  · rwa [hsame]
  · rw [hload]
    rcases loadAndJudge_outcome (v := v) hstarted.sound_config with
      ⟨report, hguard, -⟩ | ⟨fault, t, hguard, -⟩
    · rw [hguard]
      exact ⟨hstarted.config_eq, hsound, hblank⟩
    · rw [hguard]
      exact ⟨hstarted.config_eq, hsound.release, fun t _ => (Holdings.dropped_release _).blank t⟩

/-- No command makes a guard unfit. -/
theorem Fit.obey (hg : g.Fit c) (v : Volume) (command : Command) :
    (g.obey v command).guard.Fit c := by
  cases command with
  | start => exact hg.start v
  | locate p => exact ⟨hg.config_eq, hg.sound, hg.blank⟩
  | evaluate ready => exact hg.evaluate v ready
  | ingest =>
    obtain ⟨hsound, hblank⟩ := hg.ingestion v
    exact ⟨hg.config_eq, hsound, hblank⟩

/-- No run does. -/
theorem Fit.after (hg : g.Fit c) (run : List (Volume × Command)) : (g.after run).Fit c := by
  induction run generalizing g with
  | nil => exact hg
  | cons step rest ih =>
    obtain ⟨v, command⟩ := step
    exact ih (hg.obey v command)

/-! ### Starting over -/

theorem evaluate_globe (v : Volume) (ready : Bool) (g : Guard) :
    (g.evaluate v ready).guard.globe = g.globe := by
  have hstarted : (g.started v).globe = g.globe := by
    rcases started_eq v g with hsame | ⟨-, hstart⟩
    · rw [hsame]
    · rw [hstart]
      rfl
  rcases evaluate_started v ready g with hsame | ⟨-, -, hload⟩
  · rw [hsame, hstarted]
  · rw [hload]
    unfold loadAndJudge
    cases houtcome : ((g.started v).ingestion v).outcome <;> simp only [houtcome, hstarted]

/-- A guard stays on its globe. -/
@[simp] theorem after_globe (g : Guard) (run : List (Volume × Command)) :
    (g.after run).globe = g.globe := by
  induction run generalizing g with
  | nil => rfl
  | cons step rest ih =>
    obtain ⟨v, command⟩ := step
    show ((g.obey v command).guard.after rest).globe = g.globe
    rw [ih]
    cases command with
    | start => rfl
    | locate p => rfl
    | evaluate ready => exact evaluate_globe v ready g
    | ingest => rfl

/-- Whatever a guard was told, a load is based on what it was made with and on its position. -/
theorem basis_after (globe : Globe) (c : Config) (run : List (Volume × Command)) (v : Volume) :
    ((new globe c).after run).basis v = ⟨globe, c, v, ((new globe c).after run).position⟩ := by
  unfold basis
  rw [((fit_new globe c).after run).config_eq, after_globe]
  rfl

/-- A fit guard that is started is the guard that a new one becomes at the same position. -/
theorem Fit.start_eq (hg : g.Fit c) (v : Volume) :
    g.start v = ((new g.globe c).locate g.position).start v := by
  have hnew : (new g.globe c).holdings.reset = .new c := (Holdings.sound_new c).reset_eq
  unfold Guard.start locate
  rw [hg.config_eq, hg.sound.reset_eq, hnew]
  rfl

/-- A start makes a guard forget all but its position, whatever it was told before and
    however often a load has failed or was cut off. A new guard that is moved to the same
    position and started is the same guard: it keeps the same in buffers of the same capacity,
    with the same status, report and alert. So from then on the two give the same responses to
    all commands. -/
theorem start_eq_fresh (globe : Globe) (c : Config) (run later : List (Volume × Command))
    (v : Volume) :
    let g := ((new globe c).after run).start v
    let fresh :=
      (new globe c).after [(v, .locate ((new globe c).after run).position), (v, .start)]
    g = fresh ∧ g.responses later = fresh.responses later ∧ g.after later = fresh.after later := by
  intro g fresh
  have hfit : ((new globe c).after run).Fit c := (fit_new globe c).after run
  have hsame : g = fresh := by
    have hstart := hfit.start_eq v
    rwa [after_globe] at hstart
  exact ⟨hsame, congrArg (·.responses later) hsame, congrArg (·.after later) hsame⟩

/-! ### Runs without bare ingestions -/

/-- Whether loading the tables failed. -/
def hasFailed (g : Guard) : Bool :=
  match g.phase with
  | .failed _ => true
  | _ => false

/-- A guard that has loaded its tables only by evaluations: what it keeps is what its phase
    says. -/
structure Decided (c : Config) (g : Guard) : Prop where
  fit : g.Fit c
  pending : g.phase = .pending → ∀ t, g.holdings.Blank t
  loaded : ∀ report, g.phase = .loaded report → g.holdings.CountedBy report
  failed : ∀ fault, g.phase = .failed fault → g.holdings.Dropped
  enabled : g.phase ≠ .pending → g.storage = some true ∧ c.everythingBypassed = false

theorem decided_new (globe : Globe) (c : Config) : (new globe c).Decided c := by
  refine ⟨fit_new globe c, fun _ => Holdings.blank_new c, ?_, ?_, ?_⟩
  · intro report hphase
    cases hphase
  · intro fault hphase
    cases hphase
  · intro hphase
    exact absurd rfl hphase

theorem Decided.start (hg : g.Decided c) (v : Volume) : (g.start v).Decided c := by
  refine ⟨hg.fit.start v, fun _ => Holdings.blank_reset g.holdings, ?_, ?_, ?_⟩
  · intro report hphase
    cases hphase
  · intro fault hphase
    cases hphase
  · intro hphase
    exact absurd rfl hphase

theorem Decided.started (hg : g.Decided c) (v : Volume) : (g.started v).Decided c := by
  rcases started_eq v g with hsame | ⟨-, hstart⟩
  · rwa [hsame]
  · rw [hstart]
    exact hg.start v

/-- Where nothing stands in the way of the checks, the volume is there and something is
    checked. -/
theorem of_verdictBefore?_eq_none (h : g.verdictBefore? = none) :
    g.storage = some true ∧ g.config.everythingBypassed = false := by
  unfold verdictBefore? at h
  by_cases hbypassed : g.config.everythingBypassed = true
  · simp [hbypassed] at h
  · by_cases hstorage : g.storage = some true
    · exact ⟨hstorage, Bool.eq_false_iff.mpr hbypassed⟩
    · simp [hbypassed, hstorage] at h

theorem Decided.evaluate (hg : g.Decided c) (v : Volume) (ready : Bool) :
    (g.evaluate v ready).guard.Decided c := by
  have hfit := hg.fit.evaluate v ready
  have hstarted := hg.started v
  rcases evaluate_started v ready g with hsame | ⟨hbefore, -, hload⟩
  · rwa [hsame]
  · obtain ⟨hstorage, hbypassed⟩ := of_verdictBefore?_eq_none hbefore
    rw [hstarted.fit.config_eq] at hbypassed
    rw [hload] at hfit ⊢
    rcases loadAndJudge_outcome (v := v) hstarted.fit.sound_config with
      ⟨report, hguard, -, hreports⟩ | ⟨fault, t, hguard, -⟩
    · rw [hguard] at hfit ⊢
      refine ⟨hfit, ?_, ?_, ?_, fun _ => ⟨hstorage, hbypassed⟩⟩
      · intro hphase
        cases hphase
      · -- the report counts what is kept, as nothing else is kept
        rintro _ ⟨⟩
        refine hreports.counted ?_
        intro t ht
        exact hfit.blank t (hstarted.fit.config_eq ▸ ht)
      · intro fault hphase
        cases hphase
    · -- after one that fails all has been dropped
      rw [hguard] at hfit ⊢
      refine ⟨hfit, ?_, ?_, ?_, fun _ => ⟨hstorage, hbypassed⟩⟩
      · intro hphase
        cases hphase
      · intro report hphase
        cases hphase
      · intro _ _
        exact Holdings.dropped_release _

theorem Decided.obey (hg : g.Decided c) (v : Volume) {command : Command}
    (hcommand : command ≠ .ingest) : (g.obey v command).guard.Decided c := by
  cases command with
  | start => exact hg.start v
  | locate p =>
    have hfit : (g.locate p).Fit c := ⟨hg.fit.config_eq, hg.fit.sound, hg.fit.blank⟩
    exact ⟨hfit, hg.pending, hg.loaded, hg.failed, hg.enabled⟩
  | evaluate ready => exact hg.evaluate v ready
  | ingest => exact absurd rfl hcommand

theorem Decided.after (hg : g.Decided c) {run : List (Volume × Command)}
    (hrun : ∀ step ∈ run, step.2 ≠ .ingest) : (g.after run).Decided c := by
  -- by induction on the run, from any guard that is decided
  induction run generalizing g with
  | nil => exact hg
  | cons step rest ih =>
    obtain ⟨v, command⟩ := step
    have hnext := hg.obey v (hrun (v, command) List.mem_cons_self)
    exact ih hnext fun step hstep => hrun step (List.mem_cons_of_mem _ hstep)

/-- Once loading has been decided, the position is all that changes until the next start. -/
theorem obey_of_decided (hphase : g.phase ≠ .pending) (hstorage : g.storage = some true)
    (v : Volume) {command : Command} (hingest : command ≠ .ingest) (hstart : command ≠ .start) :
    (g.obey v command).guard = { g with position := (g.obey v command).guard.position } := by
  cases command with
  | start => exact absurd rfl hstart
  | ingest => exact absurd rfl hingest
  | locate p => rfl
  | evaluate ready =>
    have hstarted := started_of_storage hstorage v
    show (g.evaluate v ready).guard = { g with position := (g.evaluate v ready).guard.position }
    -- the tables are not loaded again
    rcases evaluate_started v ready g with hsame | ⟨-, hpending, -⟩
    · rw [hsame, hstarted]
    · rw [hstarted] at hpending
      exact absurd hpending hphase

theorem after_of_decided (hphase : g.phase ≠ .pending) (hstorage : g.storage = some true)
    {run : List (Volume × Command)} (hrun : ∀ step ∈ run, step.2 ≠ .ingest ∧ step.2 ≠ .start) :
    g.after run = { g with position := (g.after run).position } := by
  induction run generalizing g with
  | nil => rfl
  | cons step rest ih =>
    obtain ⟨v, command⟩ := step
    obtain ⟨hingest, hstart⟩ := hrun (v, command) List.mem_cons_self
    have hnext := obey_of_decided hphase hstorage v hingest hstart
    show (g.obey v command).guard.after rest =
      { g with position := ((g.obey v command).guard.after rest).position }
    rw [hnext]
    refine ih hphase hstorage ?_
    exact fun step hstep => hrun step (List.mem_cons_of_mem _ hstep)

/-- A guard whose load failed forbids flight: for want of a position if it has none, and
    otherwise for the failure. -/
theorem verdict_of_failed (hg : g.Decided c) (hfailed : g.hasFailed = true) (v : Volume)
    (ready : Bool) : (g.evaluate v ready).verdict =
      if g.position.isNull then .deny .gps "no position" else .deny .fileError "file error" := by
  cases hphase : g.phase with
  | pending => simp [hasFailed, hphase] at hfailed
  | loaded report => simp [hasFailed, hphase] at hfailed
  | failed fault =>
    obtain ⟨hstorage, hbypassed⟩ := hg.enabled (by simp [hphase])
    -- the volume was there and something was checked when the load failed, and so it is now
    have hbefore : g.verdictBefore? = some (if g.position.isNull then .deny .gps "no position"
        else .deny .fileError "file error") := by
      rw [verdictBefore?, hg.fit.config_eq, hbypassed, hstorage, hphase]
      by_cases hnull : g.position.isNull = true <;> simp [hnull]
    unfold evaluate
    rw [started_of_storage hstorage]
    simp only [hbefore]

/-- Whether the tables are loaded is decided once for every start. Before that nothing is
    kept. After a load that succeeded, what is kept and reported stays, whatever the volume
    has become; after one that failed, nothing is kept and flight stays forbidden. -/
theorem load_decided_once (globe : Globe) (c : Config) (before later : List (Volume × Command))
    (hbefore : ∀ step ∈ before, step.2 ≠ .ingest)
    (hlater : ∀ step ∈ later, step.2 ≠ .ingest ∧ step.2 ≠ .start) :
    let g := (new globe c).after before
    let g' := g.after later
    ¬ (g.isLoaded = true ∧ g.hasFailed = true) ∧
      (g.alert?.isSome = true ↔ g.hasFailed = true) ∧
      (g.isLoaded = false → g.hasFailed = false → ∀ t, g.holdings.Blank t) ∧
      (g.isLoaded = true → g.holdings.CountedBy g.report ∧
        g'.isLoaded = true ∧ g'.holdings = g.holdings ∧ g'.report = g.report) ∧
      (g.hasFailed = true → g.holdings.Dropped ∧
        g'.hasFailed = true ∧ g'.alert? = g.alert? ∧ g'.holdings = g.holdings ∧
        ∀ v ready, (g'.evaluate v ready).verdict =
          if g'.position.isNull then .deny .gps "no position"
          else .deny .fileError "file error") := by
  intro g g'
  have hg : g.Decided c := (decided_new globe c).after hbefore
  have hg' : g'.Decided c := hg.after fun step hstep => (hlater step hstep).1
  -- from the decision on, the position is all that the later commands change
  have hkept : g.phase ≠ .pending → g' = { g with position := g'.position } := by
    intro hphase
    exact after_of_decided hphase (hg.enabled hphase).1 hlater
  cases hphase : g.phase with
  | pending =>
    refine ⟨?_, ?_, fun _ _ => hg.pending hphase, ?_, ?_⟩ <;>
      simp [isLoaded, hasFailed, alert?, hphase]
  | loaded report =>
    have hsame := hkept (by simp [hphase])
    refine ⟨?_, ?_, ?_, ?_, ?_⟩
    · simp [hasFailed, hphase]
    · simp [hasFailed, alert?, hphase]
    · simp [isLoaded, hphase]
    · intro _
      have hreport : g.report = report := by simp [Guard.report, hphase]
      refine ⟨hreport ▸ hg.loaded report hphase, ?_, ?_, ?_⟩
      · rw [hsame]
        simp [isLoaded, hphase]
      · rw [hsame]
      · rw [hsame]
        rfl
    · simp [hasFailed, hphase]
  | failed fault =>
    have hsame := hkept (by simp [hphase])
    have hfailed : g'.hasFailed = true := by
      rw [hsame]
      simp [hasFailed, hphase]
    refine ⟨?_, ?_, ?_, ?_, ?_⟩
    · simp [isLoaded, hphase]
    · simp [hasFailed, alert?, hphase]
    · simp [hasFailed, hphase]
    · simp [isLoaded, hphase]
    · intro _
      refine ⟨hg.failed fault hphase, hfailed, ?_, ?_, verdict_of_failed hg' hfailed⟩
      · rw [hsame]
        rfl
      · rw [hsame]

/-- A guard that checks airports alone. -/
def airportConfig : Config := { Config.standard with bypass := ⟨false, true, true⟩ }

/-- A volume whose airport table is a blank line. -/
def blankTable : Volume := Volume.empty.put .airports (.text "\n")

/-- The table is missing at the first evaluation. That it is there at the second one does not
    help, and neither does another position. -/
theorem load_decided_once_missing :
    let before := [(Volume.empty, Command.locate ⟨10.0, 10.0⟩), (Volume.empty, .evaluate true)]
    let later := [(blankTable, Command.evaluate true), (blankTable, .locate .null)]
    let g := (new .sphere airportConfig).after before
    let g' := g.after later
    (∀ step ∈ before, step.2 ≠ .ingest) ∧
      (∀ step ∈ later, step.2 ≠ .ingest ∧ step.2 ≠ .start) ∧
      g.alert?.isSome = true ∧ g.holdings.Dropped ∧ g'.alert? = g.alert? ∧
      (g.evaluate blankTable true).verdict = .deny .fileError "file error" ∧
      (g'.evaluate blankTable true).verdict = .deny .gps "no position" := by
  intro before later g g'
  have hbefore : ∀ step ∈ before, step.2 ≠ .ingest := by simp [before]
  have hlater : ∀ step ∈ later, step.2 ≠ .ingest ∧ step.2 ≠ .start := by simp [later]
  have hfailed : g.hasFailed = true := by decide +kernel
  -- once for the evaluation right after the failure, once for the one after all commands
  obtain ⟨-, halert, -, -, hstays⟩ := load_decided_once .sphere airportConfig before later hbefore
    hlater
  obtain ⟨hdropped, -, hsame, -, hverdict⟩ := hstays hfailed
  obtain ⟨-, -, -, -, hstays⟩ := load_decided_once .sphere airportConfig before [] hbefore (by simp)
  obtain ⟨-, -, -, -, hverdict'⟩ := hstays hfailed
  refine ⟨hbefore, hlater, halert.mpr hfailed, hdropped, hsame, ?_, ?_⟩
  · exact (hverdict' blankTable true).trans (if_neg (by decide +kernel))
  · exact (hverdict blankTable true).trans (if_pos (by decide +kernel))

end Guard

end Airspace

import Airspace.Proofs.Lifecycle

/-! # The course of a guard

  A guard keeps buffers, a phase and a report, but little of that decides what it answers.
  Its course is the rest: where it is, whether the volume was there when it was started
  last, and from which volume and at which position it loaded its tables since then. The
  course is the same for every configuration that checks anything at all.

  A guard that loads its tables only by evaluations follows its course. Its verdict and its
  status can be read off the course and the tables, as if they had never been put into
  buffers. What is to be shown of the verdicts of a whole run, or of two runs side by side,
  is shown for courses.
-/

namespace Airspace

open Border

@[simp] theorem Verdict.allowed_allow : Verdict.allow.allowed = true := rfl

@[simp] theorem Verdict.allowed_deny (reason : Reason) (detail : String) :
    (Verdict.deny reason detail).allowed = false := rfl

@[simp] theorem Verdict.reason_allow : Verdict.allow.reason = .noBan := rfl

@[simp] theorem Verdict.reason_deny (reason : Reason) (detail : String) :
    (Verdict.deny reason detail).reason = reason := rfl

namespace Load.Basis

/-! ### Verdicts by the tables -/

/-- Whether a position lies in a banned country: by the outline of the borders within reach,
    or by the unpruned borders where that outline is empty. -/
def inside (b : Basis) (p : Position) : Bool :=
  if b.outline.isEmpty then decide (0 < Search.run b.origin b.volume.border)
  else Region.contains b.outline p 0

/-- The verdict at a position once the tables have been loaded. -/
def verdict (b : Basis) (p : Position) : Verdict :=
  if b.firstFault?.isSome then .deny .fileError "file error"
  else if b.config.airportEnabled &&
      (nearAirport? b.globe b.config.clearances p b.airports).isSome then .deny .airport "near airport"
  else if b.config.prisonEnabled &&
      (nearPrison? b.globe b.config.clearances.prison p b.prisons).isSome then
    .deny .prison "near prison"
  else if b.config.countryEnabled && b.inside p then .deny .country "inside banned country"
  else .allow

/-- What a load leaves: all tables that are checked, as they are to be kept, or the first
    fault. -/
def Leaves (b : Basis) (phase : Phase) (h : Holdings) : Prop :=
  (∃ report, phase = .loaded report ∧ b.firstFault? = none ∧
    ∀ t, b.config.checks t = true → b.Loaded h t) ∨
  ∃ fault, phase = .failed fault ∧ b.firstFault? = some fault

end Load.Basis

/-! ### Courses -/

/-- What a guard has gone through since it was made. -/
structure Course where
  /-- The measurements on the globe. -/
  globe : Globe
  /-- The current position. -/
  position : Position
  /-- Whether the volume was there when the guard was started; `none` before that. -/
  storage : Option Bool
  /-- From which volume and at which position the tables have been loaded, well or badly,
      since the guard was started. -/
  loading : Option (Volume × Position)

namespace Course

/-- The course of a guard that has not been started. -/
def new (globe : Globe) : Course := ⟨globe, .null, none, none⟩

/-- Starting over. -/
def start (v : Volume) (k : Course) : Course :=
  { k with storage := some v.mounted, loading := none }

/-- Starting unless that has been done. -/
def started (v : Volume) (k : Course) : Course :=
  match k.storage with
  | none => k.start v
  | some _ => k

/-- Whether an evaluation loads the tables. -/
def loads (ready : Bool) (k : Course) : Bool :=
  ready && k.storage == some true && !k.position.isNull && k.loading.isNone

/-- Loading the tables. -/
def load (v : Volume) (k : Course) : Course := { k with loading := some (v, k.position) }

/-- Evaluating. -/
def evaluate (v : Volume) (ready : Bool) (k : Course) : Course :=
  if (k.started v).loads ready then (k.started v).load v else k.started v

/-- Moving to a position. -/
def locate (p : Position) (k : Course) : Course := { k with position := p }

/-- Doing what a command says. A course knows nothing of bare ingestions. -/
def obey (v : Volume) (k : Course) : Guard.Command → Course
  | .start => k.start v
  | .locate p => k.locate p
  | .evaluate ready => k.evaluate v ready
  | .ingest => k

/-- The course after commands given one after the other. -/
def after (k : Course) : List (Volume × Guard.Command) → Course
  | [] => k
  | (v, c) :: rest => after (k.obey v c) rest

/-- What a guard with a configuration has loaded its tables by. One that checks nothing
    loads nothing. -/
def basis? (c : Config) (k : Course) : Option Load.Basis :=
  if c.everythingBypassed then none else k.loading.map fun l => ⟨k.globe, c, l.1, l.2⟩

/-- The verdict on a course. -/
def verdict (c : Config) (k : Course) : Verdict :=
  if c.everythingBypassed then .allow
  else if k.storage != some true then .deny .fileError "filesystem unavailable"
  else if k.position.isNull then .deny .gps "no position"
  else match k.basis? c with
    | none => .allow
    | some b => b.verdict k.position

/-- The status on a course. -/
def status (c : Config) (k : Course) : Guard.Status :=
  match k.storage, k.basis? c with
  | none, _ => .uninitialized
  | some _, none => if k.position.isNull then .awaitingGps else .awaitingIngestion
  | some _, some b =>
    if b.firstFault?.isSome then .failed
    else if k.position.isNull then .awaitingGps else .ready

variable {c : Config} {k : Course} {v : Volume} {ready : Bool}

theorem exists_storage_started (v : Volume) (k : Course) :
    ∃ there, (k.started v).storage = some there := by
  unfold started
  cases hstorage : k.storage with
  | none => exact ⟨v.mounted, rfl⟩
  | some there => exact ⟨there, hstorage⟩

theorem started_of_storage {there : Bool} (h : k.storage = some there) : k.started v = k := by
  unfold started
  rw [h]

theorem loads_iff : k.loads ready = true ↔ ready = true ∧ k.storage = some true ∧
    k.position.isNull = false ∧ k.loading = none := by
  simp [loads, and_assoc]

theorem basis?_eq_none_of_loading (h : k.loading = none) : k.basis? c = none := by
  simp [basis?, h]

theorem basis?_eq_some (hbypassed : c.everythingBypassed = false) {l : Volume × Position}
    (h : k.loading = some l) : k.basis? c = some ⟨k.globe, c, l.1, l.2⟩ := by
  simp [basis?, hbypassed, h]

@[simp] theorem position_load (v : Volume) (k : Course) : (k.load v).position = k.position := rfl

@[simp] theorem storage_load (v : Volume) (k : Course) : (k.load v).storage = k.storage := rfl

theorem basis?_load (hbypassed : c.everythingBypassed = false) (v : Volume) (k : Course) :
    (k.load v).basis? c = some ⟨k.globe, c, v, k.position⟩ := by
  simp [basis?, load, hbypassed]

theorem of_basis? {b : Load.Basis} (h : k.basis? c = some b) :
    c.everythingBypassed = false ∧ b.config = c := by
  unfold basis? at h
  split at h
  · cases h
  · next hsome =>
    obtain ⟨l, -, rfl⟩ := Option.map_eq_some_iff.mp h
    exact ⟨Bool.eq_false_iff.mpr hsome, rfl⟩

@[simp] theorem position_locate (p : Position) (k : Course) : (k.locate p).position = p := rfl

@[simp] theorem position_started (v : Volume) (k : Course) :
    (k.started v).position = k.position := by
  unfold started
  cases k.storage <;> rfl

@[simp] theorem position_evaluate (v : Volume) (ready : Bool) (k : Course) :
    (k.evaluate v ready).position = k.position := by
  unfold evaluate
  split <;> simp

theorem storage_evaluate {there : Bool} (h : k.storage = some there) (v : Volume)
    (ready : Bool) : (k.evaluate v ready).storage = some there := by
  unfold evaluate
  rw [started_of_storage h]
  split <;> exact h

/-- After an evaluation the tables have been loaded, unless something stood in the way. -/
theorem loads_evaluate (v : Volume) (ready : Bool) (k : Course) :
    (k.evaluate v ready).loads ready = false := by
  unfold evaluate
  split
  · simp [loads, load]
  · next hnot => exact Bool.eq_false_iff.mpr hnot

end Course

/-! ### Guards and their courses -/

namespace Guard

variable {globe : Globe} {c : Config} {k : Course} {g : Guard} {v : Volume} {ready : Bool}

/-- Checks on nothing but what is kept of loaded tables come to the verdict by the tables. -/
theorem judge_of_loaded {b : Load.Basis} (hglobe : g.globe = b.globe)
    (hconfig : g.config = b.config) (hnone : b.firstFault? = none)
    (hloaded : ∀ t, b.config.checks t = true → b.Loaded g.holdings t) :
    g.judge = b.verdict g.position := by
  have hairport : g.config.airportEnabled = true → g.holdings.airports.toList = b.airports :=
    fun h => hloaded .airports (hconfig ▸ h)
  have hprison : g.config.prisonEnabled = true → g.holdings.prisons.toList = b.prisons :=
    fun h => hloaded .prisons (hconfig ▸ h)
  have hcountry : g.config.countryEnabled = true → g.isInsideCountry = b.inside g.position := by
    intro h
    obtain ⟨houtline, hreference⟩ := hloaded .countries (hconfig ▸ h)
    simp only [isInsideCountry, Load.Basis.inside, houtline, hreference]
  unfold judge Load.Basis.verdict isNearAirport isNearPrison
  rw [hnone, ← hglobe, ← hconfig]
  -- a table that is not checked does not matter
  cases ha : g.config.airportEnabled <;> cases hp : g.config.prisonEnabled <;>
    cases hc : g.config.countryEnabled <;> simp_all

/-- Where nothing is kept, nothing is forbidden. -/
theorem judge_of_blank (hblank : ∀ t, g.holdings.Blank t) : g.judge = .allow := by
  have hairports : g.holdings.airports.toList = [] := hblank .airports
  have hprisons : g.holdings.prisons.toList = [] := hblank .prisons
  obtain ⟨hcountries, hreference⟩ := hblank .countries
  simp [judge, isNearAirport, isNearPrison, isInsideCountry, nearAirport?, nearPrison?,
    hairports, hprisons, hcountries, hreference]

/-- A guard that has been started stops at a verdict that stands before any check, loads its
    tables, or checks what it keeps. -/
theorem evaluate_eq {there : Bool} (hstorage : g.storage = some there) (v : Volume)
    (ready : Bool) : g.evaluate v ready = match g.verdictBefore? with
      | some verdict => ⟨g, verdict, []⟩
      | none => if g.mayLoad ready then g.loadAndJudge v else ⟨g, g.judge, []⟩ := by
  unfold evaluate
  rw [started_of_storage hstorage]
  cases hbefore : g.verdictBefore? with
  | some verdict => simp only [hbefore]
  | none =>
    unfold mayLoad
    cases hphase : g.phase <;> cases ready <;> simp [hbefore, hphase]

/-- Starting a guard first makes no difference to an evaluation. -/
theorem evaluate_of_started (v : Volume) (ready : Bool) (g : Guard) :
    (g.started v).evaluate v ready = g.evaluate v ready := by
  have htwice : (g.started v).started v = g.started v := by
    unfold started
    cases hstorage : g.storage <;> simp [start, hstorage]
  unfold evaluate
  rw [htwice]

/-- Loading the tables moves nothing. -/
theorem loadAndJudge_frame (v : Volume) (g : Guard) :
    (g.loadAndJudge v).guard.globe = g.globe ∧
      (g.loadAndJudge v).guard.position = g.position ∧
      (g.loadAndJudge v).guard.storage = g.storage := by
  unfold loadAndJudge
  cases houtcome : (g.ingestion v).outcome <;> simp [houtcome]

/-- What the tables leave when they are loaded for the first time, and the verdict then. -/
theorem loadAndJudge_leaves (hg : g.Fit c) (v : Volume) :
    let b : Load.Basis := ⟨g.globe, c, v, g.position⟩
    b.Leaves (g.loadAndJudge v).guard.phase (g.loadAndJudge v).guard.holdings ∧
      (g.loadAndJudge v).verdict = b.verdict g.position := by
  intro b
  have hbasis : g.basis v = b := by
    unfold basis
    rw [hg.config_eq]
  rcases ingestion_outcome (v := v) hg.sound_config with
    ⟨report, houtcome, hreached, -⟩ | ⟨fault, t, houtcome, hstopped⟩
  · rw [hbasis] at hreached
    unfold loadAndJudge
    simp only [houtcome]
    have hnone := hreached.firstFault?_eq
    have hloaded : ∀ t, b.config.checks t = true → b.Loaded (g.ingestion v).holdings t :=
      fun t ht => (hreached.of_checks ht).2
    refine ⟨Or.inl ⟨report, rfl, hnone, hloaded⟩, ?_⟩
    exact judge_of_loaded rfl hg.config_eq hnone hloaded
  · rw [hbasis] at hstopped
    unfold loadAndJudge
    simp only [houtcome]
    have hsome := hstopped.firstFault?_eq
    refine ⟨Or.inr ⟨fault, rfl, hsome⟩, ?_⟩
    simp [Load.Basis.verdict, hsome]

/-- A guard follows a course: it is where the course is, and it keeps what the course has
    loaded. -/
structure Follows (c : Config) (k : Course) (g : Guard) : Prop where
  decided : g.Decided c
  globe_eq : g.globe = k.globe
  position_eq : g.position = k.position
  storage_eq : g.storage = k.storage
  waits : k.basis? c = none → g.phase = .pending
  leaves : ∀ b, k.basis? c = some b → b.Leaves g.phase g.holdings

theorem follows_new (globe : Globe) (c : Config) : (new globe c).Follows c (.new globe) := by
  refine ⟨decided_new globe c, rfl, rfl, rfl, fun _ => rfl, ?_⟩
  intro b hb
  simp [Course.basis?, Course.new] at hb

theorem Follows.start (hg : g.Follows c k) (v : Volume) : (g.start v).Follows c (k.start v) := by
  refine ⟨hg.decided.start v, hg.globe_eq, hg.position_eq, rfl, fun _ => rfl, ?_⟩
  intro b hb
  simp [Course.basis?, Course.start] at hb

theorem Follows.started (hg : g.Follows c k) (v : Volume) :
    (g.started v).Follows c (k.started v) := by
  have hstorage := hg.storage_eq
  unfold Guard.started Course.started
  cases h : k.storage with
  | none =>
    rw [h] at hstorage
    rw [hstorage]
    exact hg.start v
  | some there =>
    rw [h] at hstorage
    rw [hstorage]
    exact hg

theorem Follows.locate (hg : g.Follows c k) (p : Position) :
    (g.locate p).Follows c (k.locate p) := by
  have hdecided : (g.obey .empty (.locate p)).guard.Decided c := hg.decided.obey .empty nofun
  exact ⟨hdecided, hg.globe_eq, rfl, hg.storage_eq, hg.waits, hg.leaves⟩

/-- A guard that checks nothing follows any course with its position and its start. -/
theorem Follows.of_bypassed (hg : g.Follows c k) (hbypassed : c.everythingBypassed = true)
    {k' : Course} (hglobe : k'.globe = k.globe) (hposition : k'.position = k.position)
    (hstorage : k'.storage = k.storage) : g.Follows c k' := by
  have hnone : ∀ k : Course, k.basis? c = none := by
    intro k
    simp [Course.basis?, hbypassed]
  refine ⟨hg.decided, hg.globe_eq.trans hglobe.symm, hg.position_eq.trans hposition.symm,
    hg.storage_eq.trans hstorage.symm, fun _ => hg.waits (hnone k), ?_⟩
  intro b hb
  rw [hnone k'] at hb
  cases hb

/-- The verdict that stands before any check depends on the phase only by its failure. -/
theorem Follows.verdictBefore?_eq (hg : g.Follows c k) : g.verdictBefore? =
    if c.everythingBypassed then some .allow
    else if k.storage != some true then some (.deny .fileError "filesystem unavailable")
    else if k.position.isNull then some (.deny .gps "no position")
    else if g.hasFailed then some (.deny .fileError "file error")
    else none := by
  unfold verdictBefore? hasFailed
  rw [hg.decided.fit.config_eq, hg.storage_eq, hg.position_eq]
  cases g.phase <;> rfl

/-- Where an evaluation does not load the tables, it leaves a started guard as it is. -/
theorem Follows.evaluate_of_not_loads (hg : g.Follows c k) {there : Bool}
    (hstorage : k.storage = some there)
    (hnot : c.everythingBypassed = true ∨ k.loads ready = false) (v : Volume) :
    g.evaluate v ready = ⟨g, k.verdict c, []⟩ := by
  rw [evaluate_eq (hg.storage_eq.trans hstorage), hg.verdictBefore?_eq]
  unfold Course.verdict
  by_cases hbypassed : c.everythingBypassed = true
  · simp [hbypassed]
  by_cases hthere : k.storage = some true
  swap
  · simp [hbypassed, hthere]
  by_cases hnull : k.position.isNull = true
  · simp [hbypassed, hthere, hnull]
  cases hloading : k.loading with
  | none =>
    -- the tables are still to be loaded, so nothing is kept of them
    have hready : ready = false := by
      simpa [Course.loads, hbypassed, hthere, hnull, hloading] using hnot
    have hbasis := Course.basis?_eq_none_of_loading (c := c) hloading
    have hphase := hg.waits hbasis
    have hjudge := judge_of_blank (hg.decided.pending hphase)
    simp [hbypassed, hthere, hnull, hbasis, hasFailed, mayLoad, hphase, hready, hjudge]
  | some l =>
    have hbasis := Course.basis?_eq_some (Bool.eq_false_iff.mpr hbypassed) hloading
    rcases hg.leaves _ hbasis with ⟨report, hphase, hnone, hloaded⟩ | ⟨fault, hphase, hsome⟩
    · have hjudge := judge_of_loaded hg.globe_eq hg.decided.fit.config_eq hnone hloaded
      rw [hg.position_eq] at hjudge
      simp [hbypassed, hthere, hnull, hbasis, hasFailed, mayLoad, hphase, hjudge]
    · simp [hbypassed, hthere, hnull, hbasis, hasFailed, hphase, Load.Basis.verdict, hsome]

/-- Where an evaluation loads the tables, the guard goes on with what is loaded. -/
theorem Follows.evaluate_of_loads (hg : g.Follows c k) (hbypassed : c.everythingBypassed = false)
    (hloads : k.loads ready = true) (v : Volume) :
    (g.evaluate v ready).guard.Follows c (k.load v) ∧
      (g.evaluate v ready).verdict = (k.load v).verdict c := by
  obtain ⟨rfl, hstorage, hnull, hloading⟩ := Course.loads_iff.mp hloads
  have hphase := hg.waits (Course.basis?_eq_none_of_loading hloading)
  have hbasis := Course.basis?_load hbypassed v k
  have hload : g.evaluate v true = g.loadAndJudge v := by
    rw [evaluate_eq (hg.storage_eq.trans hstorage), hg.verdictBefore?_eq]
    simp [hbypassed, hstorage, hnull, hasFailed, mayLoad, hphase]
  have hdecided := hg.decided.evaluate v true
  obtain ⟨hleaves, hverdict⟩ := loadAndJudge_leaves hg.decided.fit v
  rw [hg.position_eq, hg.globe_eq] at hleaves hverdict
  rw [hload] at hdecided ⊢
  obtain ⟨hglobe', hposition', hstorage'⟩ := loadAndJudge_frame v g
  refine ⟨⟨hdecided, hglobe'.trans hg.globe_eq, hposition'.trans hg.position_eq,
    hstorage'.trans hg.storage_eq, ?_, ?_⟩, ?_⟩
  · intro hnone
    rw [hbasis] at hnone
    cases hnone
  · intro b hb
    obtain rfl := Option.some.inj (hbasis.symm.trans hb)
    exact hleaves
  · simp [Course.verdict, hbypassed, hbasis, hstorage, hnull, hverdict]

/-- An evaluation follows the course and comes to the verdict on it. -/
theorem Follows.evaluate (hg : g.Follows c k) (v : Volume) (ready : Bool) :
    (g.evaluate v ready).guard.Follows c (k.evaluate v ready) ∧
      (g.evaluate v ready).verdict = (k.evaluate v ready).verdict c := by
  obtain ⟨there, hstorage⟩ := k.exists_storage_started v
  have hstarted := hg.started v
  rw [← evaluate_of_started, Course.evaluate]
  by_cases hbypassed : c.everythingBypassed = true
  · -- whatever the course loads, the guard loads nothing
    have hstays : (g.started v).evaluate v ready =
        ⟨g.started v, (k.started v).verdict c, []⟩ :=
      hstarted.evaluate_of_not_loads hstorage (Or.inl hbypassed) v
    rw [hstays]
    split
    · refine ⟨hstarted.of_bypassed hbypassed rfl rfl rfl, ?_⟩
      simp [Course.verdict, hbypassed]
    · exact ⟨hstarted, rfl⟩
  · by_cases hloads : (k.started v).loads ready = true
    · rw [if_pos hloads]
      exact hstarted.evaluate_of_loads (Bool.eq_false_iff.mpr hbypassed) hloads v
    · rw [if_neg hloads, hstarted.evaluate_of_not_loads hstorage
        (Or.inr (Bool.eq_false_iff.mpr hloads)) v]
      exact ⟨hstarted, rfl⟩

theorem Follows.obey (hg : g.Follows c k) (v : Volume) {command : Command}
    (hcommand : command ≠ .ingest) : (g.obey v command).guard.Follows c (k.obey v command) := by
  cases command with
  | start => exact hg.start v
  | locate p => exact hg.locate p
  | evaluate ready => exact (hg.evaluate v ready).1
  | ingest => exact absurd rfl hcommand

/-- A guard follows its course through every run without bare ingestions. -/
theorem Follows.after (hg : g.Follows c k) {run : List (Volume × Command)}
    (hrun : ∀ step ∈ run, step.2 ≠ .ingest) : (g.after run).Follows c (k.after run) := by
  induction run generalizing g k with
  | nil => exact hg
  | cons step rest ih =>
    obtain ⟨v, command⟩ := step
    have hnext := hg.obey v (hrun (v, command) List.mem_cons_self)
    exact ih hnext fun step hstep => hrun step (List.mem_cons_of_mem _ hstep)

/-- The verdicts of a run are those on its course. -/
theorem verdict_after (globe : Globe) (c : Config) {run : List (Volume × Command)}
    (hrun : ∀ step ∈ run, step.2 ≠ .ingest) (v : Volume) (ready : Bool) :
    (((new globe c).after run).evaluate v ready).verdict =
      (((Course.new globe).after run).evaluate v ready).verdict c :=
  (((follows_new globe c).after hrun).evaluate v ready).2

/-- The tables have been loaded well where the course has loaded them and none is at fault. -/
theorem Follows.isLoaded_of_basis? (hg : g.Follows c k) {b : Load.Basis}
    (hbasis : k.basis? c = some b) (hnone : b.firstFault? = none) : g.isLoaded = true := by
  rcases hg.leaves b hbasis with ⟨report, hphase, -⟩ | ⟨fault, -, hsome⟩
  · simp [isLoaded, hphase]
  · rw [hnone] at hsome
    cases hsome

/-- The status of a guard is that on its course. -/
theorem Follows.status_eq (hg : g.Follows c k) : g.status = k.status c := by
  unfold status Course.status
  rw [hg.storage_eq, hg.position_eq]
  cases hbasis : k.basis? c with
  | none =>
    rw [hg.waits hbasis]
    cases k.storage <;> rfl
  | some b =>
    rcases hg.leaves b hbasis with ⟨report, hphase, hnone, -⟩ | ⟨fault, hphase, hsome⟩
    · cases k.storage <;> simp [hphase, hnone]
    · cases k.storage <;> simp [hphase, hsome]

end Guard

end Airspace

import Airspace.Proofs.Coherence
import Mathlib.Algebra.GroupWithZero.Nat

/-! # Metrics that agree with the guard

  The service counts a verdict with every answer. What the guard keeps and that a load has
  failed it reports only when the status of the guard has changed with a report, and the status
  changes with the position as well: it goes from ready to a missing position and back.

  Still a failure is counted once, and what is kept is shown from the first load on. Before
  a load the status is neither ready nor failed, so the first report after it brings a change.
  After a failed load the status never changes again; after one that succeeded every further
  change shows the same numbers, as nothing that is kept changes any more.
-/

namespace Airspace

/-! ### Meters -/

/-- The metrics as they are read from outside: what stands under each label. -/
structure Meters where
  /-- The verdicts counted under a reason. -/
  verdicts : String → Nat
  /-- The records kept of a table, or nothing if that was never said. -/
  retained : String → Option Nat
  /-- The failed loads. -/
  failures : Nat

namespace Meters

/-- The meters before the first change. -/
def zero : Meters := ⟨fun _ => 0, fun _ => none, 0⟩

/-- A change of a metric. -/
def record (m : Meters) : Metric → Meters
  | .verdict r =>
    { m with verdicts := Function.update m.verdicts r.label (m.verdicts r.label + 1) }
  | .retained t n => { m with retained := Function.update m.retained t.name (some n) }
  | .loadFailed => { m with failures := m.failures + 1 }

/-- Changes one after the other. -/
def recordAll (m : Meters) (changes : List Metric) : Meters := changes.foldl record m

theorem recordAll_cons (m : Meters) (change : Metric) (rest : List Metric) :
    m.recordAll (change :: rest) = (m.record change).recordAll rest := rfl

theorem recordAll_append (m : Meters) (first last : List Metric) :
    m.recordAll (first ++ last) = (m.recordAll first).recordAll last := List.foldl_append

end Meters

/-- Two reasons are never counted under one label. -/
theorem Reason.label_inj {r r' : Reason} : r.label = r'.label ↔ r = r' := by
  revert r r'
  have hdistinct : ∀ r ∈ Reason.all, ∀ r' ∈ Reason.all, r.label = r'.label → r = r' := by
    decide +kernel
  have hall : ∀ r, r ∈ Reason.all := by
    intro r
    cases r <;> decide
  intro r r'
  exact ⟨hdistinct r (hall r) r' (hall r'), congrArg Reason.label⟩

/-- Each answer is counted under one reason. -/
theorem sum_countP_reason (answers : List Answer) :
    (Reason.all.map fun reason => answers.countP (·.verdict.reason = reason)).sum =
      answers.length := by
  induction answers with
  | nil => rfl
  | cons a rest ih =>
    simp only [Reason.all, List.map_cons, List.map_nil, List.sum_cons, List.sum_nil,
      List.countP_cons, List.length_cons] at ih ⊢
    cases a.verdict.reason <;> simp <;> omega

/-- How much is kept of a table. -/
def Holdings.count (h : Holdings) : Table → Nat
  | .countries => h.countries.size
  | .airports => h.airports.size
  | .prisons => h.prisons.size

/-- How much was kept of a table by a load. -/
def LoadReport.count (report : LoadReport) : Table → Nat
  | .countries => report.vertices
  | .airports => report.airports
  | .prisons => report.prisons

theorem Holdings.CountedBy.count_eq {h : Holdings} {report : LoadReport}
    (hcounted : h.CountedBy report) (t : Table) : report.count t = h.count t := by
  cases t with
  | countries => exact hcounted.vertices
  | airports => exact hcounted.airports
  | prisons => exact hcounted.prisons

/-- How the loads ended that led to a phase. -/
def Phase.loads : Phase → List (Except LoadFault LoadReport)
  | .pending => []
  | .loaded report => [.ok report]
  | .failed fault => [.error fault]

namespace Guard

variable {c : Config} {g g' : Guard} {v : Volume} {m : Meters} {before : Status}

/-! ### Status changes -/

theorem hasFailed_eq (g : Guard) : g.hasFailed = g.phase.loads.any (!·.isOk) := by
  unfold hasFailed
  cases g.phase <;> rfl

theorem isLoaded_eq (g : Guard) : g.isLoaded = g.phase.loads.any (·.isOk) := by
  unfold isLoaded
  cases g.phase <;> rfl

theorem status_eq_failed_iff (hstorage : g.storage.isSome = true) :
    g.status = .failed ↔ g.hasFailed = true := by
  obtain ⟨there, hthere⟩ := Option.isSome_iff_exists.mp hstorage
  unfold status hasFailed
  rw [hthere]
  cases g.phase <;> cases g.position.isNull <;> simp

theorem status_eq_ready_iff (hstorage : g.storage.isSome = true) :
    g.status = .ready ↔ g.isLoaded = true ∧ g.position.isNull = false := by
  obtain ⟨there, hthere⟩ := Option.isSome_iff_exists.mp hstorage
  unfold status isLoaded
  rw [hthere]
  cases g.phase <;> cases g.position.isNull <;> simp

@[simp] theorem verdicts_changes :
    (m.recordAll (g.changes before)).verdicts = m.verdicts := by
  unfold changes
  split
  · rfl
  · split <;> rfl

@[simp] theorem failures_changes : (m.recordAll (g.changes before)).failures =
    if before ≠ .failed ∧ g.status = .failed then m.failures + 1 else m.failures := by
  unfold changes
  by_cases hsame : before = g.status
  · have hnot : ¬ (before ≠ .failed ∧ g.status = .failed) := by
      rw [hsame]
      simp
    rw [if_pos hsame, if_neg hnot]
    rfl
  · rw [if_neg hsame]
    cases hstatus : g.status <;> simp_all [Meters.recordAll, Meters.record]

/-- A guard that becomes ready shows all that it keeps. -/
@[simp] theorem retained_changes (t : Table) :
    (m.recordAll (g.changes before)).retained t.name =
      if before ≠ .ready ∧ g.status = .ready then some (g.report.count t)
      else m.retained t.name := by
  unfold changes
  by_cases hsame : before = g.status
  · have hnot : ¬ (before ≠ .ready ∧ g.status = .ready) := by
      rw [hsame]
      simp
    rw [if_pos hsame, if_neg hnot]
    rfl
  · rw [if_neg hsame]
    cases hstatus : g.status <;> simp_all [Meters.recordAll, Meters.record]
    cases t <;> simp [Table.name, LoadReport.count, Function.update]

/-! ### Loads -/

/-- How the load ends that an evaluation goes through, if it goes through one. -/
def loading? (v : Volume) (ready : Bool) (g : Guard) : Option (Except LoadFault LoadReport) :=
  if (g.started v).verdictBefore?.isNone && (g.started v).mayLoad ready then
    some ((g.started v).ingestion v).outcome
  else none

theorem loads_loadAndJudge (v : Volume) (g : Guard) :
    (g.loadAndJudge v).guard.phase.loads = [(g.ingestion v).outcome] := by
  unfold loadAndJudge
  cases houtcome : (g.ingestion v).outcome <;> simp [houtcome, Phase.loads]

/-- An evaluation leaves a started guard as it is, or it has the tables loaded. -/
theorem evaluate_loading (v : Volume) (ready : Bool) (g : Guard) :
    g.loading? v ready = none ∧ (g.evaluate v ready).guard = g.started v ∨
      g.loading? v ready = some ((g.started v).ingestion v).outcome ∧
        (g.started v).phase = .pending ∧ (g.started v).verdictBefore? = none ∧
        g.evaluate v ready = (g.started v).loadAndJudge v := by
  unfold loading? mayLoad evaluate
  cases hbefore : (g.started v).verdictBefore? with
  | some verdict => simp [hbefore]
  | none =>
    cases hphase : (g.started v).phase with
    | loaded report => simp [hbefore, hphase]
    | failed fault => simp [hbefore, hphase]
    | pending => cases ready <;> simp [hbefore, hphase]

/-- Where nothing stands in the way of the checks, there is a position. -/
theorem isNull_of_verdictBefore?_eq_none (h : g.verdictBefore? = none) :
    g.position.isNull = false := by
  by_contra hnull
  rw [Bool.not_eq_false] at hnull
  simp [verdictBefore?, hnull] at h
  split_ifs at h

/-! ### Metered guards -/

/-- The meters agree with a guard that has given some answers and has gone through some
    loads. -/
structure Metered (g : Guard) (answers : List Answer)
    (loads : List (Except LoadFault LoadReport)) (m : Meters) : Prop where
  verdicts : ∀ reason : Reason,
    m.verdicts reason.label = answers.countP (·.verdict.reason = reason)
  loads_eq : loads = g.phase.loads
  failures : m.failures = if g.hasFailed then 1 else 0
  retained : ∀ t : Table,
    m.retained t.name = if g.isLoaded then some (g.holdings.count t) else none

theorem metered_start (v : Volume) (g : Guard) : (g.start v).Metered [] [] .zero :=
  ⟨fun _ => rfl, rfl, rfl, fun _ => rfl⟩

/-- What is reported of a guard that has loaded is what it keeps. -/
theorem Decided.count_report (hg : g.Decided c) (hloaded : g.isLoaded = true) (t : Table) :
    g.report.count t = g.holdings.count t := by
  unfold isLoaded at hloaded
  unfold report
  cases hphase : g.phase with
  | loaded report => exact (hg.loaded report hphase).count_eq t
  | pending => simp [hphase] at hloaded
  | failed fault => simp [hphase] at hloaded

/-- A report is a move to a position and an evaluation. -/
theorem Decided.handle (hg : g.Decided c) (v : Volume) (r : PositionReport) :
    (g.handle v r).guard.Decided c := by
  have hmoved : (g.obey v (.locate r.position)).guard.Decided c := hg.obey v nofun
  exact hmoved.evaluate v r.ready

/-- A report leaves the phase and what is kept as they are, or it has the tables loaded at a
    known position. -/
theorem handle_loading (hstorage : g.storage.isSome = true) (v : Volume) (r : PositionReport) :
    let g' := (g.handle v r).guard
    let load? := (g.locate r.position).loading? v r.ready
    g'.storage.isSome = true ∧
      (load? = none ∧ g'.phase = g.phase ∧ g'.holdings = g.holdings ∨
        ∃ outcome, load? = some outcome ∧ g.phase = .pending ∧ g'.position.isNull = false ∧
          g'.phase.loads = [outcome]) := by
  intro g' load?
  obtain ⟨there, hthere⟩ := Option.isSome_iff_exists.mp hstorage
  have hstarted : (g.locate r.position).started v = g.locate r.position :=
    started_of_storage (g := g.locate r.position) hthere v
  have hguard : g' = ((g.locate r.position).evaluate v r.ready).guard := rfl
  rcases evaluate_loading v r.ready (g.locate r.position) with
    ⟨hnone, hsame⟩ | ⟨hsome, hpending, hbefore, hload⟩
  · rw [hsame, hstarted] at hguard
    rw [hguard]
    exact ⟨hstorage, Or.inl ⟨hnone, rfl, rfl⟩⟩
  · rw [hstarted] at hsome hpending hbefore hload
    obtain ⟨-, hposition, hstorage'⟩ := loadAndJudge_frame v (g.locate r.position)
    rw [hload] at hguard
    rw [hguard]
    refine ⟨?_, Or.inr ⟨_, hsome, hpending, ?_, loads_loadAndJudge v _⟩⟩
    · rw [hstorage']
      exact hstorage
    · rw [hposition]
      exact isNull_of_verdictBefore?_eq_none hbefore

/-- The meters agree with the guard after a report if they did before it. -/
theorem Metered.handle {answers : List Answer} {loads : List (Except LoadFault LoadReport)}
    (hm : g.Metered answers loads m) (hg : g.Decided c) (hstorage : g.storage.isSome = true)
    (v : Volume) (r : PositionReport) :
    (g.handle v r).guard.Metered (answers ++ [(g.handle v r).answer])
      (loads ++ ((g.locate r.position).loading? v r.ready).toList)
      (m.recordAll (g.handle v r).metrics) := by
  have hdecided := hg.handle v r
  obtain ⟨hstorage', hloading⟩ := handle_loading hstorage v r
  have hfailed := status_eq_failed_iff hstorage
  have hready := status_eq_ready_iff hstorage
  have hfailed' := status_eq_failed_iff hstorage'
  have hready' := status_eq_ready_iff hstorage'
  have hmetrics : (g.handle v r).metrics = .verdict (g.handle v r).answer.verdict.reason ::
      (g.handle v r).guard.changes g.status := rfl
  rw [hmetrics, Meters.recordAll_cons]
  generalize (g.handle v r).guard = g' at *
  generalize (g.handle v r).answer = a
  refine ⟨?_, ?_, ?_, ?_⟩
  · intro reason
    rw [verdicts_changes, List.countP_append, List.countP_singleton]
    by_cases hreason : a.verdict.reason = reason
    · simp [Meters.record, hreason, hm.verdicts]
    · have hlabel : reason.label ≠ a.verdict.reason.label :=
        fun h => hreason (Reason.label_inj.mp h).symm
      simp [Meters.record, hreason, hlabel, hm.verdicts]
  · rcases hloading with ⟨hnone, hphase, -⟩ | ⟨outcome, hsome, hpending, -, hloads⟩
    · rw [hnone, hphase, hm.loads_eq]
      simp
    · rw [hsome, hm.loads_eq, hpending, hloads]
      rfl
  · simp only [failures_changes, Meters.record, hm.failures, ne_eq, hfailed, hfailed']
    rcases hloading with ⟨-, hphase, -⟩ | ⟨outcome, -, hpending, -, -⟩
    · -- a failure shows in the status until the next start
      have hsame : g'.hasFailed = g.hasFailed := by
        rw [hasFailed_eq, hasFailed_eq, hphase]
      rw [hsame]
      cases g.hasFailed <;> simp
    · have hnot : g.hasFailed = false := by simp [hasFailed, hpending]
      simp [hnot]
  · intro t
    simp only [retained_changes, Meters.record, hm.retained, ne_eq, hready, hready']
    rcases hloading with ⟨-, hphase, hholdings⟩ | ⟨outcome, -, hpending, hnull, -⟩
    · -- what is shown once more has not changed
      have hsame : g'.isLoaded = g.isLoaded := by
        rw [isLoaded_eq, isLoaded_eq, hphase]
      have hcount := hdecided.count_report (t := t)
      rw [← hholdings, ← hsame]
      cases hloaded : g'.isLoaded with
      | false => simp
      | true => simp [hcount hloaded]
    · have hnot : g.isLoaded = false := by simp [isLoaded, hpending]
      cases hloaded : g'.isLoaded with
      | false => simp [hnot]
      | true => simp [hnot, hnull, hdecided.count_report hloaded]

/-! ### Runs of the service -/

/-- The guard after reports handled one after the other. -/
def handleAll : List (Volume × PositionReport) → Guard → Guard
  | [], g => g
  | (v, r) :: rest, g => handleAll rest (g.handle v r).guard

/-- All changes of metrics with these reports. -/
def metricsOver : List (Volume × PositionReport) → Guard → List Metric
  | [], _ => []
  | (v, r) :: rest, g => (g.handle v r).metrics ++ metricsOver rest (g.handle v r).guard

/-- How all loads ended that these reports have led to. -/
def loadsOver : List (Volume × PositionReport) → Guard → List (Except LoadFault LoadReport)
  | [], _ => []
  | (v, r) :: rest, g =>
    ((g.locate r.position).loading? v r.ready).toList ++ loadsOver rest (g.handle v r).guard

/-- The meters agree with the guard after any reports if they did before them. -/
theorem Metered.handleAll {answers : List Answer} {loads : List (Except LoadFault LoadReport)}
    (hm : g.Metered answers loads m) (hg : g.Decided c) (hstorage : g.storage.isSome = true)
    (steps : List (Volume × PositionReport)) :
    (handleAll steps g).Metered (answers ++ answersOver steps g) (loads ++ loadsOver steps g)
      (m.recordAll (metricsOver steps g)) := by
  -- by induction on the reports, whatever came before them
  induction steps generalizing g answers loads m with
  | nil =>
    simp only [answersOver, loadsOver, List.append_nil]
    exact hm
  | cons step rest ih =>
    obtain ⟨v, r⟩ := step
    have hnext := ih (hm.handle hg hstorage v r) (hg.handle v r) (handle_loading hstorage v r).1
    rw [List.append_assoc, List.append_assoc, ← Meters.recordAll_append] at hnext
    exact hnext

theorem length_answersOver (steps : List (Volume × PositionReport)) (g : Guard) :
    (answersOver steps g).length = steps.length := by
  induction steps generalizing g with
  | nil => rfl
  | cons step rest ih =>
    obtain ⟨v, r⟩ := step
    simp [answersOver, ih]

/-- The metrics agree with the guard, whatever guard the service starts with, whatever reports
    come and whether or not the volume changes between them. Under each reason stand the
    answers with that reason, and under all of them as many as there were reports. There is at
    most one load. A failure is counted if and only if that load failed, and then once. What is
    kept of a table is shown if and only if the load succeeded, and what is shown is what the
    guard keeps of the table now. -/
theorem metrics_agree (globe : Globe) (c : Config) (before : List (Volume × Command)) (v : Volume)
    (steps : List (Volume × PositionReport)) :
    let g := ((new globe c).after before).start v
    let loads := loadsOver steps g
    let m := Meters.zero.recordAll (metricsOver steps g)
    (∀ reason : Reason, m.verdicts reason.label =
        (answersOver steps g).countP (·.verdict.reason = reason)) ∧
      (Reason.all.map fun reason => m.verdicts reason.label).sum = steps.length ∧
      loads.length ≤ 1 ∧
      m.failures = (if loads.any (!·.isOk) then 1 else 0) ∧
      ∀ t : Table, m.retained t.name =
        if loads.any (·.isOk) then some ((handleAll steps g).holdings.count t) else none := by
  intro g loads m
  -- what came before the start is forgotten
  have hg : g.Decided c := by
    have hfit : ((new globe c).after before).Fit c := (fit_new globe c).after before
    have hmoved :
        ((new globe c).obey v (.locate ((new globe c).after before).position)).guard.Decided c :=
      (decided_new globe c).obey v nofun
    rw [show g = _ from hfit.start_eq v, after_globe]
    exact hmoved.start v
  have hm : (handleAll steps g).Metered (answersOver steps g) loads m :=
    (metered_start v ((new globe c).after before)).handleAll hg rfl steps
  refine ⟨hm.verdicts, ?_, ?_, ?_, ?_⟩
  · rw [← length_answersOver steps g, ← sum_countP_reason]
    exact congrArg List.sum (List.map_congr_left fun reason _ => hm.verdicts reason)
  · rw [hm.loads_eq]
    cases (handleAll steps g).phase <;> simp [Phase.loads]
  · rw [hm.failures, hasFailed_eq, hm.loads_eq]
  · intro t
    rw [hm.retained t, isLoaded_eq, hm.loads_eq]

end Guard

end Airspace

import Airspace.Proofs.Course
import Airspace.Service.Answer
import Mathlib.Data.List.Forall2

/-! # Answers that make sense

  An answer holds a verdict and the status of the guard after it. The two are found in
  different ways: the status looks for a failed load before it looks for a position, and the
  verdict looks for the volume and a position before it looks for a failed load. Still only
  some statuses go with a reason. For a guard that follows a course both are read off the
  course, so the table of those that do is a matter of courses.
-/

namespace Airspace

/-! ### Coherent verdicts -/

namespace Verdict

/-- Whether flight is allowed can be told by the reason, by its code or by the detail. -/
structure Coherent (w : Verdict) : Prop where
  reason : w.allowed = true ↔ w.reason = .noBan
  code : w.allowed = true ↔ w.reason.code = 0
  detail : w.allowed = true ↔ w.detail = ""

theorem coherent_allow : allow.Coherent := ⟨by decide, by decide, by decide⟩

/-- A denial needs a reason and a detail of which something is left when it is cut. -/
theorem coherent_deny {reason : Reason} {detail : String} (hreason : reason ≠ .noBan)
    (hdetail : (deny reason detail).detail ≠ "") : (deny reason detail).Coherent := by
  refine ⟨?_, ?_, ?_⟩
  · simpa using hreason
  · cases reason <;> simp_all [Reason.code]
  · simpa using hdetail

end Verdict

namespace Load.Basis

variable {b : Basis} {p : Position}

theorem coherent_verdict (b : Basis) (p : Position) : (b.verdict p).Coherent := by
  unfold verdict
  split_ifs
  · exact Verdict.coherent_deny (by decide) (by decide +kernel)
  · exact Verdict.coherent_deny (by decide) (by decide +kernel)
  · exact Verdict.coherent_deny (by decide) (by decide +kernel)
  · exact Verdict.coherent_deny (by decide) (by decide +kernel)
  · exact Verdict.coherent_allow

/-- After a load that has failed the reason is the failure. -/
theorem reason_verdict_of_fault (hfault : b.firstFault?.isSome = true) :
    (b.verdict p).reason = .fileError := by
  unfold verdict
  rw [if_pos hfault]
  rfl

/-- After a load that has succeeded the reason is a category that is checked, if there is
    one. -/
theorem reason_verdict (hnone : b.firstFault?.isSome = false) :
    (b.verdict p).reason = .noBan ∨
      (b.verdict p).reason = .airport ∧ b.config.airportEnabled = true ∨
      (b.verdict p).reason = .prison ∧ b.config.prisonEnabled = true ∨
      (b.verdict p).reason = .country ∧ b.config.countryEnabled = true := by
  unfold verdict
  split_ifs <;> simp_all

end Load.Basis

/-! ### Coherent answers -/

/-- What is true of an answer to a report, where `there` says whether the volume was there at
    the start. -/
structure Answer.Coherent (c : Config) (there : Bool) (r : PositionReport) (a : Answer) :
    Prop where
  initialized : a.status ≠ .uninitialized
  ready : a.status = .ready →
    a.verdict.reason = .noBan ∨ a.verdict.reason = .airport ∧ c.airportEnabled = true ∨
      a.verdict.reason = .prison ∧ c.prisonEnabled = true ∨
      a.verdict.reason = .country ∧ c.countryEnabled = true
  failed : a.status = .failed →
    a.verdict.reason = if r.position.isNull then .gps else .fileError
  awaitingGps : a.status = .awaitingGps → r.position.isNull = true ∧
    (a.verdict.reason = .gps ∨ a.verdict.reason = .fileError ∧ there = false ∨
      a.verdict.reason = .noBan ∧ c.everythingBypassed = true)
  awaitingIngestion : a.status = .awaitingIngestion →
    a.verdict.reason = .noBan ∧ (r.ready = false ∨ c.everythingBypassed = true) ∨
      a.verdict.reason = .fileError ∧ there = false
  verdict : a.verdict.Coherent

section Statuses

variable {c : Config} {there : Bool} {r : PositionReport} {w : Verdict}

/-! Of the conditions on a status one is left where the status is known. -/

theorem Answer.coherent_ready (hw : w.Coherent)
    (h : w.reason = .noBan ∨ w.reason = .airport ∧ c.airportEnabled = true ∨
      w.reason = .prison ∧ c.prisonEnabled = true ∨
      w.reason = .country ∧ c.countryEnabled = true) :
    Answer.Coherent c there r ⟨w, .ready⟩ :=
  ⟨nofun, fun _ => h, nofun, nofun, nofun, hw⟩

theorem Answer.coherent_failed (hw : w.Coherent)
    (h : w.reason = if r.position.isNull then .gps else .fileError) :
    Answer.Coherent c there r ⟨w, .failed⟩ :=
  ⟨nofun, nofun, fun _ => h, nofun, nofun, hw⟩

theorem Answer.coherent_awaitingGps (hw : w.Coherent) (hnull : r.position.isNull = true)
    (h : w.reason = .gps ∨ w.reason = .fileError ∧ there = false ∨
      w.reason = .noBan ∧ c.everythingBypassed = true) :
    Answer.Coherent c there r ⟨w, .awaitingGps⟩ :=
  ⟨nofun, nofun, nofun, fun _ => ⟨hnull, h⟩, nofun, hw⟩

theorem Answer.coherent_awaitingIngestion (hw : w.Coherent)
    (h : w.reason = .noBan ∧ (r.ready = false ∨ c.everythingBypassed = true) ∨
      w.reason = .fileError ∧ there = false) :
    Answer.Coherent c there r ⟨w, .awaitingIngestion⟩ :=
  ⟨nofun, nofun, nofun, nofun, fun _ => h, hw⟩

end Statuses

namespace Course

variable {c : Config} {k : Course} {there ready : Bool}

theorem coherent_verdict (c : Config) (k : Course) : (k.verdict c).Coherent := by
  unfold verdict
  split_ifs
  · exact Verdict.coherent_allow
  · exact Verdict.coherent_deny (by decide) (by decide +kernel)
  · exact Verdict.coherent_deny (by decide) (by decide +kernel)
  · cases k.basis? c with
    | none => exact Verdict.coherent_allow
    | some b => exact b.coherent_verdict k.position

/-- The answer on a course. -/
def answer (c : Config) (k : Course) : Answer := ⟨k.verdict c, k.status c⟩

/-- While there is nothing to check by, the guard waits for a position or for the tables. -/
theorem coherent_of_waits (hstorage : k.storage = some there) (hnone : k.basis? c = none)
    (hloads : k.loads ready = false) : (k.answer c).Coherent c there ⟨k.position, ready⟩ := by
  have hverdict : k.verdict c = if c.everythingBypassed then .allow
      else if there = false then .deny .fileError "filesystem unavailable"
      else if k.position.isNull then .deny .gps "no position" else .allow := by
    cases there <;> simp [verdict, hstorage, hnone]
  unfold answer
  by_cases hnull : k.position.isNull = true
  · have hstatus : k.status c = .awaitingGps := by simp [status, hstorage, hnone, hnull]
    rw [hstatus]
    refine Answer.coherent_awaitingGps (coherent_verdict c k) hnull ?_
    rw [hverdict]
    split_ifs <;> simp_all
  · have hstatus : k.status c = .awaitingIngestion := by simp [status, hstorage, hnone, hnull]
    -- if nothing stood in the way, the tables would have been loaded by a ready report
    have hready : c.everythingBypassed = false → there = true → ready = false := by
      intro hbypassed hthere
      have hloading : k.loading = none := by simpa [basis?, hbypassed] using hnone
      simpa [loads, hstorage, hthere, hnull, hloading] using hloads
    rw [hstatus]
    refine Answer.coherent_awaitingIngestion (coherent_verdict c k) ?_
    rw [hverdict]
    split_ifs <;> simp_all

/-- Once the tables have been loaded, their fault goes before a missing position in the
    status, and behind it in the verdict. -/
theorem coherent_of_basis {b : Load.Basis} (hstorage : k.storage = some true)
    (hbasis : k.basis? c = some b) (ready : Bool) :
    (k.answer c).Coherent c true ⟨k.position, ready⟩ := by
  obtain ⟨hbypassed, hconfig⟩ := of_basis? hbasis
  have hverdict : k.verdict c =
      if k.position.isNull then .deny .gps "no position" else b.verdict k.position := by
    simp [verdict, hbypassed, hstorage, hbasis]
  unfold answer
  by_cases hfault : b.firstFault?.isSome = true
  · have hstatus : k.status c = .failed := by simp [status, hstorage, hbasis, hfault]
    rw [hstatus]
    refine Answer.coherent_failed (coherent_verdict c k) ?_
    rw [hverdict, apply_ite Verdict.reason, Load.Basis.reason_verdict_of_fault hfault]
    rfl
  · rw [Bool.not_eq_true] at hfault
    by_cases hnull : k.position.isNull = true
    · have hstatus : k.status c = .awaitingGps := by
        simp [status, hstorage, hbasis, hfault, hnull]
      rw [hstatus]
      refine Answer.coherent_awaitingGps (coherent_verdict c k) hnull (Or.inl ?_)
      rw [hverdict, if_pos hnull]
      rfl
    · have hstatus : k.status c = .ready := by simp [status, hstorage, hbasis, hfault, hnull]
      rw [hstatus]
      refine Answer.coherent_ready (coherent_verdict c k) ?_
      rw [hverdict, if_neg hnull, ← hconfig]
      exact Load.Basis.reason_verdict hfault

end Course

/-! ### Runs of the service -/

namespace Guard

variable {c : Config} {k : Course} {g : Guard} {there : Bool}

/-- The answers to reports handled one after the other, each with the volume as it is then. -/
def answersOver : List (Volume × PositionReport) → Guard → List Answer
  | [], _ => []
  | (v, r) :: rest, g =>
    let h := g.handle v r
    h.answer :: answersOver rest h.guard

theorem answers_eq_answersOver (v : Volume) (reports : List PositionReport) (g : Guard) :
    g.answers v reports = answersOver (reports.map fun r => (v, r)) g := by
  induction reports generalizing g with
  | nil => rfl
  | cons r rest ih =>
    rw [answers, List.map_cons, answersOver, ih]

/-- A guard follows its course through the handling of a report, and its answer is that on
    the course. -/
theorem Follows.handle (hg : g.Follows c k) (v : Volume) (r : PositionReport) :
    let k' := (k.locate r.position).evaluate v r.ready
    (g.handle v r).guard.Follows c k' ∧ (g.handle v r).answer = k'.answer c := by
  intro k'
  obtain ⟨hfollows, hverdict⟩ := (hg.locate r.position).evaluate v r.ready
  exact ⟨hfollows, congrArg₂ Answer.mk hverdict hfollows.status_eq⟩

/-- Tables are loaded only where the volume was there at the start. -/
theorem Follows.storage_of_basis? (hg : g.Follows c k) {b : Load.Basis}
    (hbasis : k.basis? c = some b) : k.storage = some true := by
  have hphase : g.phase ≠ .pending := by
    rcases hg.leaves b hbasis with ⟨report, hphase, -⟩ | ⟨fault, hphase, -⟩ <;> simp [hphase]
  rw [← hg.storage_eq]
  exact (hg.decided.enabled hphase).1

/-- The answer to a report is coherent. -/
theorem Follows.answer_coherent (hg : g.Follows c k) (hstorage : k.storage = some there)
    (v : Volume) (r : PositionReport) : (g.handle v r).answer.Coherent c there r := by
  obtain ⟨hfollows, hanswer⟩ := hg.handle v r
  have hstorage' : ((k.locate r.position).evaluate v r.ready).storage = some there :=
    Course.storage_evaluate (k := k.locate r.position) hstorage v r.ready
  have hloads := (k.locate r.position).loads_evaluate v r.ready
  have hposition : ((k.locate r.position).evaluate v r.ready).position = r.position := by simp
  rw [hanswer]
  generalize (k.locate r.position).evaluate v r.ready = k' at *
  rw [show r = ⟨k'.position, r.ready⟩ by rw [hposition]]
  cases hbasis : k'.basis? c with
  | none => exact Course.coherent_of_waits hstorage' hbasis hloads
  | some b =>
    have hthere := hfollows.storage_of_basis? hbasis
    obtain rfl : true = there := Option.some.inj (hthere.symm.trans hstorage')
    exact Course.coherent_of_basis hthere hbasis r.ready

/-- So are all answers to reports that come one after the other. -/
theorem Follows.answersOver_coherent (hg : g.Follows c k) (hstorage : k.storage = some there)
    (steps : List (Volume × PositionReport)) :
    List.Forall₂ (fun step a => a.Coherent c there step.2) steps (answersOver steps g) := by
  -- by induction on the reports, from any course on which the guard has been started
  induction steps generalizing g k with
  | nil => exact .nil
  | cons step rest ih =>
    obtain ⟨v, r⟩ := step
    obtain ⟨hfollows, -⟩ := hg.handle v r
    have hstorage' : (k.locate r.position).storage = some there := hstorage
    exact .cons (hg.answer_coherent hstorage v r)
      (ih hfollows (Course.storage_evaluate hstorage' v r.ready))

/-- Every answer of the service is coherent, whatever guard it starts with, and whether or
    not the volume changes between the reports. -/
theorem answers_coherent (globe : Globe) (c : Config) (before : List (Volume × Command))
    (v : Volume) :
    let g := ((new globe c).after before).start v
    (∀ steps : List (Volume × PositionReport), List.Forall₂
        (fun step a => a.Coherent c v.mounted step.2) steps (answersOver steps g)) ∧
      ∀ (w : Volume) (reports : List PositionReport), List.Forall₂
        (fun r a => a.Coherent c v.mounted r) reports (g.answers w reports) := by
  intro g
  have hfit : ((new globe c).after before).Fit c := (fit_new globe c).after before
  -- what came before the start is forgotten
  have hg : g.Follows c
      (((Course.new globe).locate ((new globe c).after before).position).start v) := by
    rw [show g = _ from hfit.start_eq v, after_globe]
    exact ((follows_new globe c).locate _).start v
  have hsteps : ∀ steps : List (Volume × PositionReport), List.Forall₂
      (fun step a => a.Coherent c v.mounted step.2) steps (answersOver steps g) :=
    hg.answersOver_coherent rfl
  refine ⟨hsteps, ?_⟩
  intro w reports
  have hreports := hsteps (reports.map fun r => (w, r))
  rw [List.forall₂_map_left_iff] at hreports
  rwa [answers_eq_answersOver]

end Guard

end Airspace

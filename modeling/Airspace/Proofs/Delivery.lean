import Airspace.Proofs.Proximity
import Airspace.Service.Pipeline
import Mathlib.Data.List.ReduceOption

/-! # Delivery

  Three workers run side by side, and in what order their steps come is not said. Still the
  service prints what a single worker would that handles one report after the other: whatever
  the order, what has been printed is a beginning of that, and there is no order in which the
  workers end up waiting for each other.

  A report is on its way from the input to the output in one of five places: it is not read
  yet, it is about to be handed over, it is in the first queue, its answer is about to be
  handed over, or its answer is in the second queue. The places hold the reports in the order
  of the input, and every step moves one of them to the next place. So the steps that are left
  can be counted.
-/

namespace Airspace

/-- The answers to reports some of which come later. -/
theorem Guard.answers_append (v : Volume) (first last : List PositionReport) (g : Guard) :
    g.answers v (first ++ last) = g.answers v first ++
      (first.foldl (fun g r => (g.handle v r).guard) g).answers v last := by
  induction first generalizing g with
  | nil => rfl
  | cons r rest ih => simp [Guard.answers, ih]

namespace Pipeline

variable {v : Volume} {g : Guard} {input : List PositionReport} {p p' : Pipeline} {w : Worker}

/-! ### Steps -/

/-- What a step does, whichever worker takes it. -/
inductive Moves (v : Volume) (p : Pipeline) : Pipeline → Prop
  | read {line : Option PositionReport} {rest : List (Option PositionReport)}
      (open_ : p.reportsEnded = false) (sending : p.sending = none)
      (unread : p.unread = line :: rest) :
      Moves v p { p with unread := rest, sending := line }
  | endReports (open_ : p.reportsEnded = false) (sending : p.sending = none)
      (unread : p.unread = []) : Moves v p { p with reportsEnded := true }
  | send {r : PositionReport} (open_ : p.reportsEnded = false) (sending : p.sending = some r)
      (running : p.stopped = none) (room : p.reports.length < queueLength) :
      Moves v p { p with sending := none, reports := p.reports ++ [r] }
  | giveUp {r : PositionReport} (open_ : p.reportsEnded = false) (sending : p.sending = some r)
      (stopped : p.stopped.isSome = true) :
      Moves v p { p with sending := none, reportsEnded := true }
  | take {r : PositionReport} {rest : List PositionReport} (running : p.stopped = none)
      (answering : p.answering = none) (reports : p.reports = r :: rest) :
      Moves v p { p with
        reports := rest
        guard := (p.guard.handle v r).guard
        answering := some (p.guard.handle v r).answer }
  | answer {a : Answer} (running : p.stopped = none) (answering : p.answering = some a)
      (listening : p.listening = true) (room : p.answers.length < queueLength) :
      Moves v p { p with answering := none, answers := p.answers ++ [a] }
  | drop {a : Answer} (running : p.stopped = none) (answering : p.answering = some a)
      (left : p.listening = false) :
      Moves v p { p with answering := none, stopped := some .answersDropped }
  | stop (running : p.stopped = none) (answering : p.answering = none)
      (reports : p.reports = []) (ended : p.reportsEnded = true) :
      Moves v p { p with stopped := some .endOfReports }
  | print {a : Answer} {rest : List Answer} (unfinished : p.finished = false)
      (listening : p.listening = true) (answers : p.answers = a :: rest) :
      Moves v p { p with answers := rest, printed := p.printed ++ [a] }
  | finish (unfinished : p.finished = false) (listening : p.listening = true)
      (answers : p.answers = []) (stopped : p.stopped.isSome = true) :
      Moves v p { p with finished := true }

theorem moves_of_readerStep? (h : p.readerStep? = some p') : p.Moves v p' := by
  unfold readerStep? at h
  split at h
  · cases h
  · next hended =>
    have hopen : p.reportsEnded = false := Bool.eq_false_iff.mpr hended
    split at h
    · next r hsending =>
      split at h
      · next hstopped =>
        cases h
        exact .giveUp hopen hsending hstopped
      · next hstopped =>
        have hrunning : p.stopped = none := by simpa using hstopped
        split at h
        · next hroom =>
          cases h
          exact .send hopen hsending hrunning hroom
        · cases h
    · next hsending =>
      split at h
      · next line rest hunread =>
        cases h
        exact .read hopen hsending hunread
      · next hunread =>
        cases h
        exact .endReports hopen hsending hunread

theorem moves_of_evaluatorStep? (h : p.evaluatorStep? v = some p') : p.Moves v p' := by
  unfold evaluatorStep? at h
  split at h
  · cases h
  · next hstopped =>
    have hrunning : p.stopped = none := by simpa using hstopped
    split at h
    · next a hanswering =>
      split at h
      · next hleft =>
        cases h
        exact .drop hrunning hanswering (by simpa using hleft)
      · next hleft =>
        split at h
        · next hroom =>
          cases h
          exact .answer hrunning hanswering (by simpa using hleft) hroom
        · cases h
    · next hanswering =>
      split at h
      · next r rest hreports =>
        cases h
        exact .take hrunning hanswering hreports
      · next hreports =>
        split at h
        · next hended =>
          cases h
          exact .stop hrunning hanswering hreports hended
        · cases h

theorem moves_of_writerStep? (h : p.writerStep? = some p') : p.Moves v p' := by
  unfold writerStep? at h
  split at h
  · cases h
  · next hgoes =>
    obtain ⟨hunfinished, hlistening⟩ : p.finished = false ∧ p.listening = true := by
      simpa using hgoes
    split at h
    · next a rest hanswers =>
      cases h
      exact .print hunfinished hlistening hanswers
    · next hanswers =>
      split at h
      · next hstopped =>
        cases h
        exact .finish hunfinished hlistening hanswers hstopped
      · cases h

theorem moves_of_step? (h : p.step? v w = some p') : p.Moves v p' := by
  cases w with
  | reader => exact moves_of_readerStep? h
  | evaluator => exact moves_of_evaluatorStep? h
  | writer => exact moves_of_writerStep? h

/-! ### The steps that are left -/

/-- How many steps are left at most: one for each place that a report, or a line that holds
    none, has before it, and one for the end of each worker. -/
def work (p : Pipeline) : Nat :=
  5 * p.unread.length + 4 * p.sending.toList.length + 3 * p.reports.length +
    2 * p.answering.toList.length + p.answers.length +
    (!p.reportsEnded).toNat + (!p.stopped.isSome).toNat + (!p.finished).toNat

theorem Moves.work_lt (h : p.Moves v p') : p'.work < p.work := by
  cases h with
  | read hopen hsending hunread =>
    next line rest =>
    have hline : line.toList.length ≤ 1 := by cases line <;> simp
    simp [work, hsending, hunread]
    omega
  | endReports hopen hsending hunread => simp [work, hopen]
  | send hopen hsending hrunning hroom =>
    simp [work, hsending]
    omega
  | giveUp hopen hsending hstopped =>
    simp only [work, hopen, hsending, Option.toList_some, Option.toList_none, List.length_singleton,
      List.length_nil, Bool.not_false, Bool.not_true, Bool.toNat_true, Bool.toNat_false]
    omega
  | take hrunning hanswering hreports =>
    simp [work, hanswering, hreports]
    omega
  | answer hrunning hanswering hlistening hroom =>
    simp [work, hanswering]
    omega
  | drop hrunning hanswering hleft =>
    simp only [work, hrunning, hanswering, Option.toList_some, Option.toList_none,
      List.length_singleton, List.length_nil, Option.isSome_none, Option.isSome_some,
      Bool.not_false, Bool.not_true, Bool.toNat_true, Bool.toNat_false]
    omega
  | stop hrunning hanswering hreports hended => simp [work, hrunning]
  | print hunfinished hlistening hanswers => simp [work, hanswers]
  | finish hunfinished hlistening hanswers hstopped => simp [work, hunfinished]

/-! ### Order among the workers -/

/-- What stays true of a service with somebody who takes answers, whatever reports it gets. A
    worker ends only where nothing is left for it to do, and no queue gets too long. -/
structure Orderly (p : Pipeline) : Prop where
  listening : p.listening = true
  reports_le : p.reports.length ≤ queueLength
  answers_le : p.answers.length ≤ queueLength
  ended : p.reportsEnded = true → p.sending = none ∧ p.unread = []
  stopped : p.stopped.isSome = true →
    p.reportsEnded = true ∧ p.reports = [] ∧ p.answering = none
  finished : p.finished = true → p.stopped.isSome = true ∧ p.answers = []

theorem orderly_new (g : Guard) (lines : List (Option PositionReport)) :
    (new g lines true).Orderly := by
  refine ⟨rfl, ?_, ?_, nofun, nofun, nofun⟩ <;> simp [new]

theorem Orderly.moves (hp : p.Orderly) (h : p.Moves v p') : p'.Orderly := by
  obtain ⟨hlistening, hreportsLe, hanswersLe, hended, hstopped, hfinished⟩ := hp
  cases h with
  | read hopen hsending hunread =>
    refine ⟨hlistening, hreportsLe, hanswersLe, ?_, hstopped, hfinished⟩
    simp [hopen]
  | endReports hopen hsending hunread =>
    have hrunning : p.stopped = none := by simpa [hopen] using hstopped
    refine ⟨hlistening, hreportsLe, hanswersLe, fun _ => ⟨hsending, hunread⟩, ?_, hfinished⟩
    simp [hrunning]
  | send hopen hsending hrunning hroom =>
    refine ⟨hlistening, ?_, hanswersLe, ?_, ?_, hfinished⟩
    · simp
      omega
    · simp [hopen]
    · simp [hrunning]
  | giveUp hopen hsending h =>
    rw [(hstopped h).1] at hopen
    cases hopen
  | take hrunning hanswering hreports =>
    refine ⟨hlistening, ?_, hanswersLe, hended, ?_, hfinished⟩
    · simp [hreports] at hreportsLe ⊢
      omega
    · simp [hrunning]
  | answer hrunning hanswering _ hroom =>
    refine ⟨hlistening, hreportsLe, ?_, hended, ?_, ?_⟩
    · simp
      omega
    · simp [hrunning]
    · simpa [hrunning] using hfinished
  | drop hrunning hanswering hleft =>
    rw [hlistening] at hleft
    cases hleft
  | stop hrunning hanswering hreports h =>
    have hunfinished : p.finished = false := by simpa [hrunning] using hfinished
    refine ⟨hlistening, hreportsLe, hanswersLe, hended, fun _ => ⟨h, hreports, hanswering⟩, ?_⟩
    simp [hunfinished]
  | print hunfinished _ hanswers =>
    refine ⟨hlistening, hreportsLe, ?_, hended, hstopped, ?_⟩
    · simp [hanswers] at hanswersLe ⊢
      omega
    · simp [hunfinished]
  | finish hunfinished _ hanswers h =>
    exact ⟨hlistening, hreportsLe, hanswersLe, hended, hstopped, fun _ => ⟨h, hanswers⟩⟩

/-- As long as the writer has not ended, some worker need not wait. If the evaluator waits for
    room in its queue, the writer has something to print; if it waits for a report, the reader
    finds room. -/
theorem Orderly.exists_step (hp : p.Orderly) (hunfinished : p.finished = false) (v : Volume) :
    ∃ w, (p.step? v w).isSome = true := by
  have hwrites : p.stopped.isSome = true ∨ p.answers ≠ [] → (p.writerStep?).isSome = true := by
    intro h
    cases hanswers : p.answers with
    | cons a rest => simp [writerStep?, hunfinished, hp.listening, hanswers]
    | nil =>
      have hstopped : p.stopped.isSome = true := by simpa [hanswers] using h
      simp [writerStep?, hunfinished, hp.listening, hanswers, hstopped]
  cases hstopped : p.stopped with
  | some how => exact ⟨.writer, hwrites (Or.inl (by simp [hstopped]))⟩
  | none =>
    cases hanswering : p.answering with
    | some a =>
      by_cases hroom : p.answers.length < queueLength
      · refine ⟨.evaluator, ?_⟩
        simp [step?, evaluatorStep?, hstopped, hanswering, hp.listening, hroom]
      · have hanswers : p.answers ≠ [] := by
          intro hnil
          simp [hnil, queueLength] at hroom
        exact ⟨.writer, hwrites (Or.inr hanswers)⟩
    | none =>
      cases hreports : p.reports with
      | cons r rest =>
        refine ⟨.evaluator, ?_⟩
        simp [step?, evaluatorStep?, hstopped, hanswering, hreports]
      | nil =>
        cases hended : p.reportsEnded with
        | true =>
          refine ⟨.evaluator, ?_⟩
          simp [step?, evaluatorStep?, hstopped, hanswering, hreports, hended]
        | false =>
          refine ⟨.reader, ?_⟩
          cases hsending : p.sending with
          | some r =>
            simp [step?, readerStep?, hended, hsending, hstopped, hreports, queueLength]
          | none =>
            cases hunread : p.unread <;> simp [step?, readerStep?, hended, hsending, hunread]

/-! ### Nothing is lost on the way -/

/-- The reports that have not been handled yet, oldest first. -/
def ahead (p : Pipeline) : List PositionReport :=
  p.reports ++ p.sending.toList ++ p.unread.reduceOption

/-- The answers that have not been printed yet, oldest first. -/
def behind (p : Pipeline) : List Answer := p.answers ++ p.answering.toList

/-- The reports have been handled in their order up to some report, with no other effect on the
    guard, and the rest are still ahead. The answers are printed, or they are behind. -/
def Accounted (v : Volume) (g : Guard) (input : List PositionReport) (p : Pipeline) : Prop :=
  ∃ handled, input = handled ++ p.ahead ∧
    p.guard = handled.foldl (fun g r => (g.handle v r).guard) g ∧
    g.answers v handled = p.printed ++ p.behind

theorem accounted_new (v : Volume) (g : Guard) (lines : List (Option PositionReport)) :
    (new g lines true).Accounted v g lines.reduceOption := ⟨[], rfl, rfl, rfl⟩

/-- A step moves at most one report, or its answer, behind the others in the next place. -/
theorem Accounted.moves (ha : p.Accounted v g input) (hp : p.Orderly) (h : p.Moves v p') :
    p'.Accounted v g input := by
  obtain ⟨handled, hinput, hguard, hanswers⟩ := ha
  cases h with
  | read hopen hsending hunread =>
    next line rest =>
    refine ⟨handled, ?_, hguard, hanswers⟩
    rw [hinput]
    cases line <;> simp [ahead, hsending, hunread]
  | endReports hopen hsending hunread => exact ⟨handled, hinput, hguard, hanswers⟩
  | send hopen hsending hrunning hroom =>
    refine ⟨handled, ?_, hguard, hanswers⟩
    simp [hinput, ahead, hsending]
  | giveUp hopen hsending hstopped =>
    rw [(hp.stopped hstopped).1] at hopen
    cases hopen
  | take hrunning hanswering hreports =>
    next r rest =>
    refine ⟨handled ++ [r], ?_, ?_, ?_⟩
    · simp [hinput, ahead, hreports]
    · simp [← hguard]
    · rw [Guard.answers_append, hanswers, ← hguard]
      simp [behind, hanswering, Guard.answers]
  | answer hrunning hanswering hlistening hroom =>
    refine ⟨handled, hinput, hguard, ?_⟩
    simp [hanswers, behind, hanswering]
  | drop hrunning hanswering hleft =>
    rw [hp.listening] at hleft
    cases hleft
  | stop hrunning hanswering hreports hended => exact ⟨handled, hinput, hguard, hanswers⟩
  | print hunfinished hlistening hprinted =>
    refine ⟨handled, hinput, hguard, ?_⟩
    simp [hanswers, behind, hprinted]
  | finish hunfinished hlistening hnone hstopped => exact ⟨handled, hinput, hguard, hanswers⟩

theorem Accounted.printed_isPrefix (ha : p.Accounted v g input) :
    p.printed <+: g.answers v input := by
  obtain ⟨handled, hinput, -, hanswers⟩ := ha
  rw [hinput, Guard.answers_append, hanswers, List.append_assoc]
  exact List.prefix_append _ _

/-- The writer ends only after everything has been printed. -/
theorem Accounted.printed_eq (ha : p.Accounted v g input) (hp : p.Orderly)
    (hfinished : p.finished = true) : p.printed = g.answers v input := by
  obtain ⟨handled, hinput, -, hanswers⟩ := ha
  obtain ⟨hstopped, hnone⟩ := hp.finished hfinished
  obtain ⟨hended, hreports, hanswering⟩ := hp.stopped hstopped
  obtain ⟨hsending, hunread⟩ := hp.ended hended
  have hahead : p.ahead = [] := by simp [ahead, hreports, hsending, hunread]
  have hbehind : p.behind = [] := by simp [behind, hnone, hanswering]
  rw [hahead, List.append_nil] at hinput
  rw [hbehind, List.append_nil] at hanswers
  rw [hinput, hanswers]

/-! ### Schedules -/

/-- What every step preserves, every schedule does. -/
theorem run_induction {motive : Pipeline → Prop}
    (hmoves : ∀ p p' : Pipeline, motive p → p.Moves v p' → motive p') (hp : motive p)
    (schedule : List Worker) : motive (run v schedule p) := by
  induction schedule generalizing p with
  | nil => exact hp
  | cons w rest ih =>
    show motive (run v rest ((p.step? v w).getD p))
    cases hstep : p.step? v w with
    | none => exact ih hp
    | some p' => exact ih (hmoves p p' hp (moves_of_step? hstep))

theorem Orderly.after (hp : p.Orderly) (v : Volume) (schedule : List Worker) :
    (run v schedule p).Orderly :=
  run_induction (fun _ _ hp h => hp.moves h) hp schedule

theorem Accounted.after (ha : p.Accounted v g input) (hp : p.Orderly) (schedule : List Worker) :
    (run v schedule p).Accounted v g input := by
  have hboth := run_induction (motive := fun p => p.Orderly ∧ p.Accounted v g input) (v := v)
    (fun _ _ hp h => ⟨hp.1.moves h, hp.2.moves hp.1 h⟩) ⟨hp, ha⟩ schedule
  exact hboth.2

theorem work_run_le (v : Volume) (schedule : List Worker) (p : Pipeline) :
    (run v schedule p).work ≤ p.work := by
  refine run_induction (motive := fun q => q.work ≤ p.work) ?_ (Nat.le_refl _) schedule
  intro q q' hq h
  have := h.work_lt
  omega

/-- A schedule that names a worker that need not wait leaves less work. -/
theorem work_run_lt {schedule : List Worker} (hnamed : w ∈ schedule)
    (hstep : (p.step? v w).isSome = true) : (run v schedule p).work < p.work := by
  induction schedule with
  | nil => cases hnamed
  | cons w' rest ih =>
    show (run v rest ((p.step? v w').getD p)).work < p.work
    cases hfirst : p.step? v w' with
    | some p' =>
      have hrest := work_run_le v rest p'
      have hless := (moves_of_step? hfirst).work_lt
      simp only [Option.getD_some]
      omega
    | none =>
      -- this one waits, so it is another one that need not
      have hother : w ≠ w' := by
        intro heq
        simp [heq, hfirst] at hstep
      exact ih (List.mem_of_ne_of_mem hother hnamed)

theorem run_append (v : Volume) (first last : List Worker) (p : Pipeline) :
    run v (first ++ last) p = run v last (run v first p) := by
  induction first generalizing p with
  | nil => rfl
  | cons w rest ih => exact ih _

theorem finished_of_work (h : p.work = 0) : p.finished = true := by
  unfold work at h
  cases hfinished : p.finished with
  | true => rfl
  | false => simp [hfinished] at h

theorem Moves.finished (h : p.Moves v p') (hfinished : p.finished = true) :
    p'.finished = true := by
  cases h <;> simp_all

theorem finished_run (hfinished : p.finished = true) (v : Volume) (schedule : List Worker) :
    (run v schedule p).finished = true :=
  run_induction (motive := fun q => q.finished = true) (fun _ _ hq h => h.finished hq) hfinished
    schedule

/-- If all workers get their turns often enough, the writer ends. -/
theorem Orderly.finished_of_rounds (hp : p.Orderly) {rounds : List (List Worker)}
    (hturns : ∀ round ∈ rounds, ∀ w, w ∈ round) (hlong : p.work ≤ rounds.length) :
    (run v rounds.flatten p).finished = true := by
  induction rounds generalizing p with
  | nil => exact finished_of_work (Nat.le_zero.mp hlong)
  | cons round rest ih =>
    rw [List.flatten_cons, run_append]
    cases hfinished : p.finished with
    | true => exact finished_run (finished_run hfinished v round) v rest.flatten
    | false =>
      obtain ⟨w, hstep⟩ := hp.exists_step hfinished v
      have hless := work_run_lt (hturns round List.mem_cons_self w) hstep
      rw [List.length_cons] at hlong
      apply ih (hp.after v round)
      · exact fun r hr => hturns r (List.mem_cons_of_mem _ hr)
      · omega

/-! ### Inputs -/

/-- The lines of an input are those before the first that is not text. -/
theorem lines_ofBytes (input : List UInt8) : (Reading.ofBytes input).lines =
    (((Text.lines .ofBytes input).map fun line => String.fromUTF8? ⟨line.toArray⟩).takeWhile
      Option.isSome).reduceOption := by
  unfold Reading.ofBytes
  induction Text.lines .ofBytes input with
  | nil => rfl
  | cons line rest ih =>
    rw [Reading.ofEncoded, List.map_cons]
    cases String.fromUTF8? ⟨line.toArray⟩ with
    | none => rfl
    | some s =>
      rw [List.takeWhile_cons_of_pos rfl, List.reduceOption_cons_of_some, ← ih]

/-- A line that is not blank holds what the parser makes of it, and a blank line holds
    nothing. -/
theorem reduceOption_ofLine? (parse : PositionReport.Parser) (lines : List String) :
    (lines.map (PositionReport.ofLine? parse)).reduceOption =
      (lines.filter fun line => !Text.allBlank line.toList).filterMap fun line =>
        parse line.toList := by
  induction lines with
  | nil => rfl
  | cons line rest ih =>
    rw [List.map_cons, PositionReport.ofLine?]
    cases hblank : Text.allBlank line.toList with
    | true => simp [hblank, ih]
    | false => cases hreport : parse line.toList <;> simp [hblank, hreport, ih]

/-- The service prints what a single worker would, whatever the input, whatever the parser of
    reports, and in whatever order the workers take their steps. The reports are what the parser
    makes of the lines of the input that are not blank, up to the end or to a line that is not
    text; a line of which it makes nothing is passed over. They are handled in their order, and
    nothing else happens to the guard. At any time what has been printed is a beginning of the
    answers, the rest is on its way, and no queue is too long. When the writer has ended, all
    has been printed; until then some worker can take a step, and every step leaves less work.
    So the writer ends if all workers get their turns often enough. -/
theorem delivers_in_order (parse : PositionReport.Parser) (v : Volume) (g : Guard)
    (input : List UInt8) (schedule : List Worker) :
    let lines := (((Text.lines .ofBytes input).map fun line =>
      String.fromUTF8? ⟨line.toArray⟩).takeWhile Option.isSome).reduceOption
    let reports := (lines.filter fun line => !Text.allBlank line.toList).filterMap fun line =>
      parse line.toList
    let p := run v schedule
      (new g ((Reading.ofBytes input).lines.map (PositionReport.ofLine? parse)) true)
    p.Accounted v g reports ∧ p.reports.length ≤ queueLength ∧ p.answers.length ≤ queueLength ∧
      p.printed <+: g.answers v reports ∧
      (p.finished = true → p.printed = g.answers v reports) ∧
      (p.finished = false → ∃ w p', p.step? v w = some p' ∧ p'.work < p.work) ∧
      ∀ rounds : List (List Worker), (∀ round ∈ rounds, ∀ w, w ∈ round) →
        p.work ≤ rounds.length → (run v rounds.flatten p).finished = true ∧
          (run v rounds.flatten p).printed = g.answers v reports := by
  intro lines reports p
  have hreports : ((Reading.ofBytes input).lines.map
      (PositionReport.ofLine? parse)).reduceOption = reports := by
    rw [reduceOption_ofLine?, lines_ofBytes]
  have hp : p.Orderly := (orderly_new g _).after v schedule
  have ha : p.Accounted v g reports := by
    rw [← hreports]
    exact (accounted_new v g _).after (orderly_new g _) schedule
  refine ⟨ha, hp.reports_le, hp.answers_le, ha.printed_isPrefix, ha.printed_eq hp, ?_, ?_⟩
  · intro hunfinished
    obtain ⟨w, hstep⟩ := hp.exists_step hunfinished v
    obtain ⟨p', hp'⟩ := Option.isSome_iff_exists.mp hstep
    exact ⟨w, p', hp', (moves_of_step? hp').work_lt⟩
  · intro rounds hturns hlong
    have hfinished := hp.finished_of_rounds (v := v) hturns hlong
    exact ⟨hfinished, (ha.after hp rounds.flatten).printed_eq (hp.after v rounds.flatten) hfinished⟩

/-- An input of two reports with a blank line and a malformed one between them, and behind them
    a line that is not text and another report. -/
def travel : List UInt8 :=
  "\x7b\"lat\": 10.0, \"lon\": 1e1, \"ready\": true\x7d\n \nlat 10\n[10.57, 10]\n".toUTF8.toList ++
    0xff :: "\n[10.0, 10.0]\n".toUTF8.toList

/-- A guard that checks airports on a flat globe, started on a volume with one airport. -/
def traveller : Guard := (Guard.new .flat Guard.fieldConfig).start (Guard.fields ["0,10.03,10.0"])

/-- Close to an airport flight is forbidden, and further on it is allowed. Nothing is printed
    for the other lines. -/
theorem delivers_in_order_travel :
    (run (Guard.fields ["0,10.03,10.0"]) (schedule 4) (new traveller
      ((Reading.ofBytes travel).lines.map
        (PositionReport.ofLine? (PositionReport.ofText? JsonNumber.quick?))) true)).printed =
      [⟨.deny .airport "near airport", .ready⟩, ⟨.allow, .ready⟩] := by
  have hprinted := (delivers_in_order (PositionReport.ofText? JsonNumber.quick?)
    (Guard.fields ["0,10.03,10.0"]) traveller travel (schedule 4)).2.2.2.2.1 (by decide +kernel)
  rw [hprinted]
  decide +kernel

end Pipeline

end Airspace

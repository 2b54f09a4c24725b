import Airspace.Service.Answer

/-! # The service as a pipeline

  A reader, an evaluator and a writer work side by side, joined by two queues of
  bounded length: the reader puts the reports of the input into the first, the
  evaluator takes them out and puts the answers into the second, and the writer
  takes those out and prints them. A worker whose queue is full or empty waits. The
  end runs through the pipeline in the same way: the reader closes the first queue
  at the end of its input, the evaluator closes the second once the first is closed
  and empty, and the writer ends once the second is closed and empty.

  If nobody takes answers any more, the evaluator stops at the first one that it
  cannot hand over, and the reader's queue closes with it.
-/

namespace Airspace

/-- How the evaluator ended. -/
inductive Pipeline.Stop
  /-- There were no more reports. -/
  | endOfReports
  /-- Nobody took its answers. -/
  | answersDropped
deriving DecidableEq

/-- The service at work. -/
structure Pipeline where
  /-- What the input lines that are not read yet hold: a report, or nothing. -/
  unread : List (Option PositionReport)
  /-- The report that the reader is about to hand over. -/
  sending : Option PositionReport
  /-- The reader's queue, oldest first. -/
  reports : List PositionReport
  /-- Whether the reader's queue is closed from its side. -/
  reportsEnded : Bool
  /-- The guard that the evaluator works with. -/
  guard : Guard
  /-- The answer that the evaluator is about to hand over. -/
  answering : Option Answer
  /-- How the evaluator ended, once it has. -/
  stopped : Option Pipeline.Stop
  /-- The evaluator's queue, oldest first. -/
  answers : List Answer
  /-- Whether somebody takes answers. -/
  listening : Bool
  /-- What has been printed, oldest first. -/
  printed : List Answer
  /-- Whether the writer has ended. -/
  finished : Bool

namespace Pipeline

/-- The length of both queues. -/
def queueLength : Nat := 64

/-- The service before its first step. -/
def new (g : Guard) (lines : List (Option PositionReport)) (listening : Bool) : Pipeline where
  unread := lines
  sending := none
  reports := []
  reportsEnded := false
  guard := g
  answering := none
  stopped := none
  answers := []
  listening := listening
  printed := []
  finished := false

/-- The workers. -/
inductive Worker
  | reader
  | evaluator
  | writer
deriving DecidableEq

/-- A step of the reader: hand over the report at hand, or read the next line, or
    close the queue. It gives up when the evaluator has ended. -/
def readerStep? (p : Pipeline) : Option Pipeline :=
  if p.reportsEnded then none
  else match p.sending with
    | some r =>
      if p.stopped.isSome then some { p with sending := none, reportsEnded := true }
      else if p.reports.length < queueLength then
        some { p with sending := none, reports := p.reports ++ [r] }
      else none
    | none =>
      match p.unread with
      | line :: rest => some { p with unread := rest, sending := line }
      | [] => some { p with reportsEnded := true }

/-- A step of the evaluator: hand over the answer at hand, or take a report and
    evaluate it, or end. -/
def evaluatorStep? (v : Volume) (p : Pipeline) : Option Pipeline :=
  if p.stopped.isSome then none
  else match p.answering with
    | some a =>
      if !p.listening then some { p with answering := none, stopped := some .answersDropped }
      else if p.answers.length < queueLength then
        some { p with answering := none, answers := p.answers ++ [a] }
      else none
    | none =>
      match p.reports with
      | r :: rest =>
        let h := p.guard.handle v r
        some { p with reports := rest, guard := h.guard, answering := some h.answer }
      | [] => if p.reportsEnded then some { p with stopped := some .endOfReports } else none

/-- A step of the writer: print the next answer, or end. -/
def writerStep? (p : Pipeline) : Option Pipeline :=
  if p.finished || !p.listening then none
  else match p.answers with
    | a :: rest => some { p with answers := rest, printed := p.printed ++ [a] }
    | [] => if p.stopped.isSome then some { p with finished := true } else none

/-- A step of a worker, or `none` while it waits or after it has ended. -/
def step? (v : Volume) (p : Pipeline) : Worker → Option Pipeline
  | .reader => p.readerStep?
  | .evaluator => p.evaluatorStep? v
  | .writer => p.writerStep?

/-- Lets the workers take steps in the order of a schedule; a worker that waits is
    passed over. -/
def run (v : Volume) : List Worker → Pipeline → Pipeline
  | [], p => p
  | w :: rest, p => run v rest ((p.step? v w).getD p)

/-- A schedule in turns, long enough for an input of so many lines: in each turn the
    writer may print, the evaluator hand over and take, and the reader hand over and
    read. -/
def schedule (lines : Nat) : List Worker :=
  (List.replicate (lines + 4)
    [.reader, .reader, .evaluator, .evaluator, .writer]).flatten

/-- The service run to the end of its input. -/
def drain (v : Volume) (g : Guard) (lines : List (Option PositionReport)) (listening : Bool) :
    Pipeline :=
  run v (schedule lines.length) (new g lines listening)

end Pipeline

end Airspace

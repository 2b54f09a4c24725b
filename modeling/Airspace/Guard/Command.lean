import Airspace.Guard.Evaluate

/-! # Commands

  A guard is driven by four commands, in any order, while the volume may change
  between them. Each command gives the guard afterwards, a reply and the check-ins
  that were made.
-/

namespace Airspace.Guard

/-- What a guard is told to do. -/
inductive Command
  /-- Start over. -/
  | start
  /-- Move to a position. -/
  | locate (p : Position)
  /-- Decide whether flight is allowed. -/
  | evaluate (ready : Bool)
  /-- Load the tables, whether or not they have been loaded. -/
  | ingest

/-- What a guard replies. -/
inductive Reply
  /-- It is done. -/
  | done
  /-- The verdict. -/
  | verdict (v : Verdict)
  /-- What the load counted, or why it failed. -/
  | loaded (outcome : Except LoadFault LoadReport)

/-- What a command gives. -/
structure Response where
  /-- The guard afterwards. -/
  guard : Guard
  /-- The reply. -/
  reply : Reply
  /-- The check-ins made. -/
  checkIns : List CheckIn

/-- Does what a command says. -/
def obey (v : Volume) (g : Guard) : Command → Response
  | .start => ⟨g.start v, .done, []⟩
  | .locate p => ⟨g.locate p, .done, []⟩
  | .evaluate ready =>
    let e := g.evaluate v ready
    ⟨e.guard, .verdict e.verdict, e.checkIns⟩
  | .ingest =>
    let (g, i) := g.ingest v
    ⟨g, .loaded i.outcome, i.checkIns⟩

/-- The responses to commands given one after the other, each with the volume as it is
    then. -/
def responses (g : Guard) : List (Volume × Command) → List Response
  | [] => []
  | (v, c) :: rest =>
    let r := g.obey v c
    r :: responses r.guard rest

/-- The guard after commands given one after the other. -/
def after (g : Guard) : List (Volume × Command) → Guard
  | [] => g
  | (v, c) :: rest => after (g.obey v c).guard rest

end Airspace.Guard

import Airspace.Volume

/-! # Passes over a table

  A pass hands the lines of a table, one after the other, to a use that gathers
  something from them. It ends with the lines, with the reading's fault, with the
  first line whose use fails, or as soon as enough is gathered. What was gathered
  before a failure stays.
-/

namespace Airspace

/-- How a pass ended. -/
structure Pass (ε σ : Type) where
  /-- What was gathered. -/
  gathered : σ
  /-- How many lines were handed over. -/
  scanned : Nat
  /-- What ended the pass early, if it was a failure. -/
  failure : Option ε

namespace Pass

variable {ε σ : Type}

/-- Hands over `lines`, after `scanned` others. `ending` is the failure that waits
    behind the last line, if one does. -/
def along (use : String → EStateM ε σ Unit) (enough : σ → Bool) (ending : Option ε) :
    List String → Nat → σ → Pass ε σ
  | [], scanned, s => ⟨s, scanned, ending⟩
  | line :: rest, scanned, s =>
    match use line s with
    | .error e s => ⟨s, scanned + 1, some e⟩
    | .ok _ s =>
      if enough s then ⟨s, scanned + 1, none⟩ else along use enough ending rest (scanned + 1) s

end Pass

end Airspace

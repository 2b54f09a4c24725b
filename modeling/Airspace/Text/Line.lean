/-! # Lines

  A line ends at a line feed, and one carriage return directly before that line
  feed belongs to the ending. A last line without a line feed counts too and
  keeps whatever it ends in. The same rule splits characters and bytes, so it is
  stated over any alphabet with the two marks.
-/

namespace Airspace.Text

/-- The two characters of a line ending, in some alphabet. -/
structure LineMarks (α : Type) where
  /-- Ends a line. -/
  feed : α
  /-- Dropped once where it stands directly before a feed. -/
  carriage : α

/-- The line marks of text. -/
def LineMarks.ofChars : LineMarks Char := ⟨'\n', '\r'⟩

/-- The line marks of encoded text. -/
def LineMarks.ofBytes : LineMarks UInt8 := ⟨10, 13⟩

variable {α : Type} [BEq α]

/-- The line without one carriage return at its end. -/
def dropCarriage (m : LineMarks α) (line : List α) : List α :=
  match line.getLast? with
  | some c => if c == m.carriage then line.dropLast else line
  | none => line

/-- The lines of a content, without their endings. -/
def lines (m : LineMarks α) (cs : List α) : List (List α) :=
  match cs with
  | [] => []
  | c :: tail =>
    match _split : (c :: tail).dropWhile (· != m.feed) with
    | [] => [c :: tail]
    | _ :: rest =>
      dropCarriage m ((c :: tail).takeWhile (· != m.feed)) :: lines m rest
termination_by cs.length
decreasing_by
  have shorter := (List.dropWhile_sublist (l := c :: tail) (· != m.feed)).length_le
  rw [_split] at shorter
  exact shorter

/-- The content up to its last feed, so without a last line that has no ending. -/
def ended (m : LineMarks α) (cs : List α) : List α :=
  (cs.reverse.dropWhile (· != m.feed)).reverse

/-- The content that holds the lines with one feed between neighbours and none at
    the end. -/
def joinLines (m : LineMarks α) : List (List α) → List α
  | [] => []
  | [line] => line
  | line :: next :: rest => line ++ m.feed :: joinLines m (next :: rest)

end Airspace.Text

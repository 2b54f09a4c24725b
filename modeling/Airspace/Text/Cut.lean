/-! # Cutting a text to a number of bytes

  A text is kept in UTF-8, where a number of bytes can end within a character. So a text that
  is too long is cut at the last boundary of characters within the limit, which is searched for
  backwards, byte by byte. A boundary is where the byte begins a character or the text ends.
-/

namespace Airspace.Text

/-- The last boundary of characters at byte `i` or before it, or `none` where the search passes
    the start of the text. -/
def lastBoundary? (s : String) (i : Nat) : Option s.Pos :=
  -- decided on the byte alone
  if h : String.Pos.Raw.isValid s ⟨i⟩ then some ⟨⟨i⟩, String.Pos.Raw.isValid_eq_true_iff.mp h⟩
  else match i with
    | 0 => none
    | i + 1 => lastBoundary? s i

theorem isValid_start (s : String) : String.Pos.Raw.isValid s ⟨0⟩ = true :=
  String.Pos.Raw.isValid_eq_true_iff.mpr String.Pos.Raw.isValid_zero

/-- A text has a boundary at its start, so the search does not pass it. -/
theorem isSome_lastBoundary? (s : String) (i : Nat) : (lastBoundary? s i).isSome := by
  induction i with
  | zero => rw [lastBoundary?, dif_pos (isValid_start s), Option.isSome_some]
  | succ i ih =>
    rw [lastBoundary?]
    split
    · exact Option.isSome_some
    · exact ih

/-- The text, or what is before its last boundary within the limit if it is longer. -/
def cut (limit : Nat) (s : String) : String :=
  if s.utf8ByteSize ≤ limit then s
  else (s.sliceTo ((lastBoundary? s limit).get (isSome_lastBoundary? s limit))).copy

end Airspace.Text

/-! # Comma-separated fields

  A comma ends a field and is part of none; nothing quotes it.
-/

namespace Airspace.Text

/-- The text before the first comma and the text after it, or `none` where there
    is no comma. -/
def splitComma? (cs : List Char) : Option (List Char × List Char) :=
  match cs.dropWhile (· != ',') with
  | [] => none
  | _ :: rest => some (cs.takeWhile (· != ','), rest)

end Airspace.Text

/-! # Natural numbers in text

  A natural number is written in ASCII digits, with a plus sign before them at
  will. A minus sign is refused, even before zero.
-/

namespace Airspace.Number

/-- The value of a string of digits read in base ten. -/
def digitsValue (ds : List Char) : Nat :=
  ds.foldl (fun n d => 10 * n + (d.toNat - '0'.toNat)) 0

/-- One more than the largest number of 64 bits. -/
def wordBound : Nat := 0x10000000000000000

/-- Reads a natural number below `bound`. -/
def readNat? (bound : Nat) (cs : List Char) : Option Nat :=
  let ds := match cs with
    | '+' :: rest => rest
    | _ => cs
  if ds.isEmpty || !ds.all Char.isDigit then none
  else
    let n := digitsValue ds
    if n < bound then some n else none

end Airspace.Number

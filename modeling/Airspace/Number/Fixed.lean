import Airspace.Number.Binary

/-! # Doubles with a fixed number of decimal places

  The exact value is rounded to the nearest multiple of the last place, and a
  value halfway between two goes to the even one. A minus sign is kept where the
  rounded value is zero.
-/

namespace Airspace.Number

/-- The quotient rounded to the nearest natural number, a half to the even one. -/
def roundDiv (n d : Nat) : Nat :=
  let q := n / d
  let r := n % d
  if 2 * r < d then q
  else if d < 2 * r then q + 1
  else if q % 2 == 0 then q else q + 1

/-- How doubles are written with a fixed number of places. -/
structure FixedFormat where
  /-- Digits after the point. -/
  places : Nat
  /-- The text of not-a-number. -/
  nan : String

/-- The number of units of the last place in one. -/
def unitsOfOne (places : Nat) : Nat := Nat.pow 10 places

/-- The rounded magnitude in units of the last place. -/
def Binary.units (b : Binary) (places : Nat) : Nat :=
  if 0 ≤ b.exponent then (b.mantissa <<< b.exponent.toNat) * unitsOfOne places
  else roundDiv (b.mantissa * unitsOfOne places) (1 <<< (-b.exponent).toNat)

/-- The digits of `n` with zeros before them up to `width`. -/
def padded (width n : Nat) : List Char :=
  let ds := Nat.toDigits 10 n
  List.replicate (width - ds.length) '0' ++ ds

/-- The text of a double in a format with at least one place. -/
def FixedFormat.write (f : FixedFormat) (x : Float) : String :=
  match Binary.ofFloat? x with
  | some b =>
    let units := b.units f.places
    let whole := padded 1 (units / unitsOfOne f.places)
    let fraction := padded f.places (units % unitsOfOne f.places)
    String.ofList ((if b.negative then ['-'] else []) ++ whole ++ '.' :: fraction)
  | none => if x == x then (if x < 0.0 then "-inf" else "inf") else f.nan

end Airspace.Number

import Airspace.Number.Decimal

/-! # JSON numbers

  A number is kept as it was written. Which double it stands for is up to the reader:
  the double nearest to the exact value, or the one that a quick conversion comes to,
  which takes the leading digits as far as they fit into 64 bits and then multiplies
  or divides by a power of ten. The quick conversion rounds more than once, so it may
  miss the nearest double.
-/

namespace Airspace

/-- A number as written. -/
structure JsonNumber where
  /-- Whether a minus sign was written. -/
  negative : Bool
  /-- The digits and the power of ten. -/
  numeral : Number.Numeral

namespace JsonNumber

/-- Reads a number: no plus sign, no needless leading zero, and digits on both sides
    of a point. -/
def read? (cs : List Char) : Option JsonNumber :=
  let (negative, body) := match cs with
    | '-' :: rest => (true, rest)
    | _ => (false, cs)
  (Number.Numeral.scan? body).bind fun n =>
    let wholeOk := match n.whole with
      | [] => false
      | ['0'] => true
      | d :: _ => d != '0'
    let fractionOk := match n.fraction with
      | some ds => !ds.isEmpty
      | none => true
    if wholeOk && fractionOk then some ⟨negative, n⟩ else none

/-- The exact value. -/
def value (n : JsonNumber) : Number.Decimal := n.numeral.value n.negative

/-- Whether it was written with digits alone, after a sign at most. -/
def plain (n : JsonNumber) : Bool := n.numeral.fraction.isNone && n.numeral.power.isNone

/-! ### Doubles -/

/-- A way to make doubles of numbers; a number that is too large for it is refused. -/
abbrev Rounding := JsonNumber → Option Float

/-- The double nearest to the exact value. -/
def nearest? : Rounding := fun n =>
  let x := n.value.toFloat
  if x.isInf then none else some x

/-- Takes digits behind those of `n` as far as all of them fit into 64 bits, and gives
    the digits that are left. -/
def takeDigits (n : Nat) : List Char → Nat × List Char
  | [] => (n, [])
  | d :: ds =>
    let m := 10 * n + (d.toNat - '0'.toNat)
    if m < Number.wordBound then takeDigits m ds else (n, d :: ds)

/-- The leading digits of a numeral and the power of ten they are to be multiplied by.
    Digits that are left before the point count as zeros. Behind the point taking
    starts anew, and digits that are left there do not count. -/
def leading (n : Number.Numeral) : Nat × Int :=
  let fraction := n.fraction.getD []
  let (digits, wholeLeft) := takeDigits 0 n.whole
  let (digits, fractionLeft) := takeDigits digits fraction
  (digits, n.exponent + wholeLeft.length - (fraction.length - fractionLeft.length))

/-- The largest power of ten that a double holds. -/
def maxPower : Nat := 308

/-- A power of ten up to the largest one, as a double. -/
def powerOfTen (k : Nat) : Float := Float.ofScientific 1 false k

/-- Divides by the largest power of ten so many times, or until nothing is left. -/
def shrink (x : Float) : Nat → Float
  | 0 => x
  | k + 1 => if x == 0.0 then x else shrink (x / powerOfTen maxPower) k

/-- Multiplies by a power of ten, or divides by a negative one, unless the product is too
    large. Only zero may be multiplied by more than the largest power. -/
def scale? (x : Float) (e : Int) : Option Float :=
  if e < 0 then
    let k := (-e).toNat
    let steps := (k - 1) / maxPower
    some (shrink x steps / powerOfTen (k - maxPower * steps))
  else if e ≤ maxPower then
    let y := x * powerOfTen e.toNat
    if y.isInf then none else some y
  else if x == 0.0 then some x
  else none

/-- The double of the quick conversion. -/
def quick? : Rounding := fun n =>
  let (digits, power) := leading n.numeral
  (scale? (Float.ofNat digits) power).map fun x => if n.negative then -x else x

end JsonNumber

end Airspace

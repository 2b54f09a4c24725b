import Airspace.Number.Natural

/-! # Decimal numerals

  A numeral has a sign, digits before and after a point and a power of ten. It is
  scanned once into these written parts; the formats that accept numerals differ
  only in which parts they allow to be missing. Its value as a double is the
  double nearest to the exact decimal, which is an infinity above the largest
  double and a zero below half the smallest one.
-/

namespace Airspace.Number

/-- The exact value `(-1)^negative * digits * 10^exponent`. -/
structure Decimal where
  /-- Whether a minus sign was written; zero keeps it. -/
  negative : Bool
  /-- All digits, read as one natural number. -/
  digits : Nat
  /-- The power of ten. -/
  exponent : Int

/-- The double nearest to the decimal. Powers of ten far outside the range of a
    double are decided without computing them: a double is below `10^309`, and
    half the smallest one is above `10^(-325)`. -/
def Decimal.toFloat (d : Decimal) : Float :=
  let size : Int := (Nat.toDigits 10 d.digits).length
  let magnitude : Float :=
    if d.digits = 0 then 0.0
    else if 400 < d.exponent + size then 1.0 / 0.0
    else if d.exponent + size < -400 then 0.0
    else if 0 ≤ d.exponent then Float.ofScientific d.digits false d.exponent.toNat
    else Float.ofScientific d.digits true (-d.exponent).toNat
  if d.negative then -magnitude else magnitude

/-! ### Written parts -/

/-- A numeral as written, without its sign. -/
structure Numeral where
  /-- The digits before the point. -/
  whole : List Char
  /-- The digits after the point, where there is a point. -/
  fraction : Option (List Char)
  /-- Whether the power of ten is negative, and its digits, where there is one. -/
  power : Option (Bool × List Char)

/-- A power of ten after its letter: a sign at will, then at least one digit. -/
def scanPower? (cs : List Char) : Option (Bool × List Char) :=
  let (negative, ds) := match cs with
    | '+' :: rest => (false, rest)
    | '-' :: rest => (true, rest)
    | _ => (false, cs)
  if ds.isEmpty || !ds.all Char.isDigit then none else some (negative, ds)

/-- Scans digits, a point with digits and a power of ten, to the end of the text. -/
def Numeral.scan? (cs : List Char) : Option Numeral :=
  let whole := cs.takeWhile Char.isDigit
  let rest := cs.dropWhile Char.isDigit
  let (fraction, rest) := match rest with
    | '.' :: tail => (some (tail.takeWhile Char.isDigit), tail.dropWhile Char.isDigit)
    | _ => (none, rest)
  match rest with
  | [] => some ⟨whole, fraction, none⟩
  | c :: tail =>
    if c == 'e' || c == 'E' then (scanPower? tail).map fun p => ⟨whole, fraction, some p⟩
    else none

/-- The written power of ten, zero where there is none. -/
def Numeral.exponent (n : Numeral) : Int :=
  match n.power with
  | none => 0
  | some (true, ds) => -(digitsValue ds : Int)
  | some (false, ds) => digitsValue ds

/-- The value of a written numeral under a sign. -/
def Numeral.value (n : Numeral) (negative : Bool) : Decimal :=
  let fraction := n.fraction.getD []
  ⟨negative, digitsValue (n.whole ++ fraction), n.exponent - fraction.length⟩

/-! ### Doubles in text -/

/-- Reads a numeral with digits on at least one side of its point. -/
def readUnsigned? (negative : Bool) (cs : List Char) : Option Decimal :=
  (Numeral.scan? cs).bind fun n =>
    if n.whole.isEmpty && (n.fraction.getD []).isEmpty then none else some (n.value negative)

/-- Reads a double: a sign at will, then one of the words `inf`, `infinity` and
    `nan` in any case, or a numeral. -/
def readFloat? (cs : List Char) : Option Float :=
  let (negative, body) := match cs with
    | '+' :: rest => (false, rest)
    | '-' :: rest => (true, rest)
    | _ => (false, cs)
  let word := String.ofList (body.map Char.toLower)
  if word == "inf" || word == "infinity" then
    some (if negative then -(1.0 / 0.0) else 1.0 / 0.0)
  else if word == "nan" then some (0.0 / 0.0)
  else (readUnsigned? negative body).map Decimal.toFloat

end Airspace.Number

/-! # The exact value of a double

  A finite double is an integer times a power of two. Taking it apart gives exact
  arithmetic on it: the remainder of a division, and its digits in any number of
  places.
-/

namespace Airspace.Number

/-- The exact value `(-1)^negative * mantissa * 2^exponent`. -/
structure Binary where
  /-- The sign; zero keeps it. -/
  negative : Bool
  /-- The significand as a natural number. -/
  mantissa : Nat
  /-- The power of two. -/
  exponent : Int

/-- Takes a finite double apart; `none` for infinities and not-a-number. -/
def Binary.ofFloat? (x : Float) : Option Binary :=
  let bits := x.toBits.toNat
  let negative := bits >>> 63 == 1
  let power := (bits >>> 52) % 2048
  let fraction := bits % (1 <<< 52)
  if power == 2047 then none
  else if power == 0 then some ⟨negative, fraction, -1074⟩
  else some ⟨negative, fraction + (1 <<< 52), (power : Int) - 1075⟩

/-- The double with a value that a double can hold exactly. -/
def Binary.toFloat (b : Binary) : Float :=
  let magnitude := Float.scaleB (Float.ofNat b.mantissa) b.exponent
  if b.negative then -magnitude else magnitude

/-! ### Remainders -/

/-- The remainder of `p` divided by a `q` other than zero, the quotient truncated
    toward zero: it has the sign of `p`, and both are multiples of the smaller
    power of two, so it is exact. -/
def Binary.rem (p q : Binary) : Binary :=
  let e := min p.exponent q.exponent
  let m := p.mantissa <<< (p.exponent - e).toNat
  let n := q.mantissa <<< (q.exponent - e).toNat
  ⟨p.negative, m % n, e⟩

/-- The exact remainder of `x` divided by `y`. A finite number is its own
    remainder by an infinity; an infinite dividend and a zero divisor have none. -/
def remainder (x y : Float) : Float :=
  match Binary.ofFloat? x, Binary.ofFloat? y with
  | some p, some q => if q.mantissa = 0 then 0.0 / 0.0 else (p.rem q).toFloat
  | some _, none => if y == y then x else y
  | none, _ => 0.0 / 0.0

/-- The remainder brought into `[0, y)` by adding `y` once where it is negative. -/
def residue (x y : Float) : Float :=
  let r := remainder x y
  if r < 0.0 then r + y else r

end Airspace.Number

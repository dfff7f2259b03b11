/-!
# Doubles as exact numbers

A finite double is a mantissa times a power of two. All rounding below is done on that exact value
in natural numbers.
-/

namespace TradeGraph.Double

/-- What the bits of a double say: `finite neg m e` is `m * 2 ^ e`, negated if `neg`. -/
inductive Parts where
  | nan
  | infinite (negative : Bool)
  | finite (negative : Bool) (mantissa : Nat) (exponent : Int)
deriving DecidableEq, Repr

/-- Decode the bits of a double. -/
def parts (x : Float) : Parts :=
  let bits := x.toBits.toNat
  let negative := bits / Nat.pow 2 63 == 1
  let exponent : Nat := bits / Nat.pow 2 52 % 2048
  let fraction := bits % Nat.pow 2 52
  if exponent == 2047 then
    if fraction == 0 then .infinite negative else .nan
  else if exponent == 0 then
    .finite negative fraction (-1074)
  else
    .finite negative (fraction + Nat.pow 2 52) ((exponent : Int) - 1075)

def isFinite (x : Float) : Bool :=
  match parts x with
  | .finite .. => true
  | _ => false

/-! ## Integers -/

/-- Give a natural number a sign. -/
def signed (negative : Bool) (n : Nat) : Int :=
  if negative then -n else n

/-- The integer part, cut off toward zero. -/
def truncate? (x : Float) : Option Int :=
  match parts x with
  | .finite negative m e =>
    some (signed negative (if 0 ≤ e then m * Nat.pow 2 e.toNat else m / Nat.pow 2 (-e).toNat))
  | _ => none

/-- The integer that the double equals, if it equals one. -/
def toInt? (x : Float) : Option Int :=
  match parts x with
  | .finite negative m e =>
    if 0 ≤ e then some (signed negative (m * Nat.pow 2 e.toNat))
    else if m % Nat.pow 2 (-e).toNat == 0 then some (signed negative (m / Nat.pow 2 (-e).toNat))
    else none
  | _ => none

/-! ## Rounding -/

/-- The quotient rounded to the nearest natural number, a tie to the even one. -/
def divNearest (num den : Nat) : Nat :=
  let q := num / den
  let r := num % den
  if 2 * r < den then q
  else if den < 2 * r then q + 1
  else if q % 2 == 0 then q else q + 1

/-- Give a double a sign; zero keeps it. -/
def withSign (negative : Bool) (x : Float) : Float :=
  if negative then -x else x

/-- The nearest integer, a tie to the even one. The sign of a zero result is that of the value. -/
def roundInteger (x : Float) : Float :=
  match parts x with
  | .finite negative m e =>
    if 0 ≤ e then x
    else withSign negative (Float.ofNat (divNearest m (Nat.pow 2 (-e).toNat)))
  | _ => x

/-- The double nearest to the value rounded to decimal places, ties to even at both steps. -/
def roundPlaces (places : Nat) (x : Float) : Float :=
  match parts x with
  | .finite negative m e =>
    if 0 ≤ e then x
    else
      let units := divNearest (m * Nat.pow 10 places) (Nat.pow 2 (-e).toNat)
      withSign negative (Float.ofScientific units true places)
  | _ => x

/-! ## Decimals -/

/-- How many decimal digits the numeral of `n` has. -/
def digitCount (n : Nat) : Nat :=
  (Nat.toDigits 10 n).length

def infinity : Float := 1.0 / 0.0

/-- The double nearest to `mantissa * 10 ^ exponent`. Exponents far outside the range of doubles are
answered without forming the power. -/
def ofDecimal (negative : Bool) (mantissa : Nat) (exponent : Int) : Float :=
  let magnitude :=
    let scale := (digitCount mantissa : Int) + exponent
    if mantissa == 0 then 0.0
    else if 400 < scale then infinity
    else if scale < -400 then 0.0
    else if 0 ≤ exponent then Float.ofScientific mantissa false exponent.toNat
    else Float.ofScientific mantissa true (-exponent).toNat
  withSign negative magnitude

/-- The double nearest to an integer, infinite when the integer is out of range. -/
def ofInt (n : Int) : Float :=
  ofDecimal (n < 0) n.natAbs 0

end TradeGraph.Double

import TradeGraph.Double.Basic

/-!
# Shortest decimal text of a double

A double is written with the fewest digits that read back as the same double, and of those with the
digits nearest to its value.
-/

namespace TradeGraph.Double

/-! ## Digits -/

/-- The value `num / den` of a positive double and how far the reals that round to it reach on
either side, in the same unit. The ends belong to the interval when the mantissa is even. -/
structure Interval where
  num : Nat
  den : Nat
  below : Nat
  above : Nat
  closed : Bool

/-- The interval of `m * 2 ^ e`. Below a power of two the doubles lie twice as dense. -/
def Interval.of (m : Nat) (e : Int) : Interval :=
  let up := Nat.pow 2 e.toNat
  { num := 4 * m * up
    den := 4 * Nat.pow 2 (-e).toNat
    below := (if m == Nat.pow 2 52 && -1074 < e then 1 else 2) * up
    above := 2 * up
    closed := m % 2 == 0 }

/-- Does `c * up / down` lie in the interval? -/
def Interval.contains (i : Interval) (up down c : Nat) : Bool :=
  let point := c * up * i.den
  let low := (i.num - i.below) * down
  let high := (i.num + i.above) * down
  if i.closed then low ≤ point && point ≤ high else low < point && point < high

/-- The decimal exponent of the leading digit. -/
def Interval.leading (i : Interval) : Int :=
  let guess : Int := (digitCount i.num : Int) - digitCount i.den
  if i.den * Nat.pow 10 guess.toNat ≤ i.num * Nat.pow 10 (-guess).toNat then guess else guess - 1

/-- The point of the grid `c * 10 ^ grid` that lies in the interval and is nearest to the value, a
tie to the even one. Only the two neighbours of the value can be nearest. -/
def Interval.onGrid? (i : Interval) (grid : Int) : Option Nat :=
  let up := Nat.pow 10 grid.toNat
  let down := Nat.pow 10 (-grid).toNat
  let low := i.num * down / (i.den * up)
  let high := low + 1
  match i.contains up down low, i.contains up down high with
  | false, false => none
  | true, false => some low
  | false, true => some high
  | true, true =>
    let fromLow := i.num * down - low * up * i.den
    let fromHigh := high * up * i.den - i.num * down
    if fromLow < fromHigh then some low
    else if fromHigh < fromLow then some high
    else if low % 2 == 0 then some low else some high

/-- The fewest digits that read back, as a natural number and the exponent of its unit. Seventeen
digits always suffice. -/
def shortest (m : Nat) (e : Int) : Nat × Int :=
  let i := Interval.of m e
  let found := (List.range 17).findSome? fun (n : Nat) =>
    let grid := i.leading - n
    (i.onGrid? grid).map fun c => (c, grid)
  found.getD (0, 0)

/-! ## Layout -/

/-- Without the zeros at the end. -/
def trimZeros (ds : List Char) : List Char :=
  (ds.reverse.dropWhile (· == '0')).reverse

/-- The text of `digits` with the point after the first digit moved by `exponent`. -/
def layout (ds : List Char) (exponent : Int) : List Char :=
  if -4 ≤ exponent ∧ exponent < 16 then
    if exponent < 0 then
      ['0', '.'] ++ List.replicate (-exponent - 1).toNat '0' ++ ds
    else
      let whole := exponent.toNat + 1
      let front := ds.take whole ++ List.replicate (whole - ds.length) '0'
      let back := ds.drop whole
      front ++ ['.'] ++ (if back.isEmpty then ['0'] else back)
  else
    let mark := if exponent < 0 then ['e', '-'] else ['e', '+']
    let power := Nat.toDigits 10 exponent.natAbs
    let tail := if power.length < 2 then '0' :: power else power
    let fraction := ds.drop 1
    ds.take 1 ++ (if fraction.isEmpty then [] else '.' :: fraction) ++ mark ++ tail

/-- The shortest text of a double. -/
def text (x : Float) : String :=
  match parts x with
  | .nan => "nan"
  | .infinite negative => if negative then "-inf" else "inf"
  | .finite negative m e =>
    let body :=
      if m == 0 then ['0', '.', '0']
      else
        let (c, unit) := shortest m e
        let ds := Nat.toDigits 10 c
        layout (trimZeros ds) (unit + ds.length - 1)
    String.ofList (if negative then '-' :: body else body)

/-- The text without the fraction of an integral value: `2` for 2.0, `0.5` for 0.5. -/
def plainText (x : Float) : String :=
  match toInt? x with
  | some n => toString n
  | none => text x

end TradeGraph.Double

import TradeGraph.Program.Basic
import TradeGraph.Settings

/-!
# Sweep ranges

The range over which the tester may vary an input: from half its value to one and a half times its
value in ten steps. Integer inputs have integral ends and a step of at least one.
-/

namespace TradeGraph

/-- A range with its step. -/
structure Sweep where
  start : Float
  step : Float
  stop : Float

namespace Sweep

/-- How many steps a range has. -/
def count : Nat := 10

/-- Evenly spaced points from the low end to the high end. -/
def grid (low high : Float) : List Float :=
  let width := (high - low) / Float.ofNat count
  (List.range count).map (fun i => Float.ofNat i * width + low) ++ [high]

/-- The differences between neighbours. -/
def differences : List Float → List Float
  | a :: b :: rest => (b - a) :: differences (b :: rest)
  | _ => []

/-- The sum of ten terms, the first eight of them in pairs. -/
def total : List Float → Float
  | [a, b, c, d, e, f, g, h, i, j] => (((a + b) + (c + d)) + ((e + f) + (g + h))) + i + j
  | _ => 0.0

def meanStep (points : List Float) : Float :=
  total (differences points) / Float.ofNat count

/-- An end of the range of a double: eight decimal places. -/
def roundEnd (x : Float) : Float :=
  Double.roundInteger (x * 100000000.0) / 100000000.0

/-- The range around a value. -/
def around (integral : Bool) (value : Float) : Sweep :=
  if value == 0.0 then ⟨0.0, 0.0, 0.0⟩
  else
    let half := value * 0.5
    let more := value * 1.5
    let low := if more < half then more else half
    let high := if more < half then half else more
    let points := grid low high
    let first := points.head?.getD low
    let step := meanStep points
    if integral then
      let whole := Double.roundInteger step
      ⟨Double.roundInteger first, if 1.0 < whole then whole else 1.0, Double.roundInteger high⟩
    else ⟨roundEnd first, Double.roundPlaces 8 step, roundEnd high⟩

end Sweep

def Scalar.number : Scalar → Except Fault Float
  | .int n =>
    match Cast.number (.int n) with
    | .ok x => .ok x
    | .error _ => .error .outOfRange
  | .float x => .ok x
  | .bool b => .ok (if b then 1.0 else 0.0)
  | .text s =>
    match Cast.number (.str s) with
    | .ok x => .ok x
    | .error _ => .error .notNumeral

namespace Input

/-- Only numbers can be swept. -/
def isSwept (i : Input) : Bool :=
  (i.type == "int" || i.type == "double") &&
    (match i.value with
      | .bool _ => false
      | _ => true)

/-- The range of an input, if it has one. -/
def sweep? (i : Input) : Except Fault (Option Sweep) :=
  if i.isSwept then do
    let x ← i.value.number
    .ok (some (Sweep.around (i.type == "int") x))
  else .ok none

end Input

end TradeGraph

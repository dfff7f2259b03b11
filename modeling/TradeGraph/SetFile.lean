import TradeGraph.Log
import TradeGraph.Sweep

/-!
# Set files

The settings file of the strategy tester: one line for each input with its value, and for numbers
the range over which they may be varied.
-/

namespace TradeGraph

/-- An input and its range. -/
structure Row where
  input : Input
  value : Scalar
  sweep : Option Sweep

namespace Row

/-- The integers that a machine word holds, with or without sign. -/
def fitsWord (n : Int) : Bool :=
  decide (-(Nat.pow 2 63 : Int) ≤ n) && decide (n < (Nat.pow 2 64 : Int))

def isColumnNumber : Scalar → Bool
  | .int n => fitsWord n
  | .float _ => true
  | _ => false

def isDouble : Scalar → Bool
  | .float _ => true
  | _ => false

/-- A column of numbers with a double among them holds doubles only. -/
def unify (values : List Scalar) : List Scalar :=
  if values.all isColumnNumber && values.any isDouble then
    values.map fun
      | .int n => .float (Double.ofInt n)
      | v => v
  else values

/-- The ranges of inputs, in order. -/
def sweeps : List Input → Except Fault (List (Option Sweep))
  | [] => .ok []
  | i :: is => do
    let s ← i.sweep?
    let ss ← sweeps is
    .ok (s :: ss)

end Row

/-- The rows of inputs, in order. -/
def rows (inputs : List Input) : Except Fault (List Row) := do
  let ranges ← Row.sweeps inputs
  let values := Row.unify (inputs.map Input.value)
  .ok ((inputs.zip (values.zip ranges)).map fun (input, value, sweep) => { input, value, sweep })

/-! ## Text -/

namespace Row

/-- The value as the file gives it. -/
def valueText (r : Row) : String :=
  if r.input.type == "string" then r.value.shown else r.value.written

def numberText (integral : Bool) (x : Float) : Except Fault String :=
  if integral then
    match Double.parts x with
    | .nan => .error .notNumeral
    | .infinite _ => .error .outOfRange
    | .finite .. => .ok (toString ((Double.truncate? x).getD 0))
  else .ok (Double.plainText x)

/-- The line of a row. A range whose start is no number is left out. -/
def line (r : Row) : Except Fault String :=
  let plain := r.input.name.text ++ "=" ++ r.valueText
  match r.sweep with
  | none => .ok plain
  | some s =>
    if s.start != s.start then .ok plain
    else do
      let integral := r.input.type == "int"
      let start ← numberText integral s.start
      let step ← numberText integral s.step
      let stop ← numberText integral s.stop
      .ok (plain ++ "||" ++ start ++ "||" ++ step ++ "||" ++ stop ++
        (if r.input.optimizable then "||Y" else "||N"))

end Row

def groupedLines : Option String → List Row → Except Fault (List String)
  | _, [] => .ok []
  | current, r :: rs => do
    let group := r.input.groupName
    let line ← r.line
    let rest ← groupedLines (some group) rs
    .ok ((if current == some group then [] else ["; " ++ group]) ++ line :: rest)

/-- The set file of inputs. -/
def setText (inputs : List Input) : Except Fault String := do
  let rs ← rows inputs
  let ls ← groupedLines none rs
  .ok (Text.lines ("; generated by QuantDSL strategy compiler" :: ls) ++ "\n")

def setFileLog (inputs : List Input) : Log :=
  Log.debug .setFile ("Rendered .set file with " ++ toString inputs.length ++ " inputs (" ++
    toString (inputs.countP Input.optimizable) ++ " optimizable)")

end TradeGraph

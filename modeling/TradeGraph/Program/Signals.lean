import TradeGraph.Program.PriceAction

/-!
# Signals

Every live signal contributes one condition for buying and one for selling. The two legs of a
crossover of moving averages contribute together, once; an indicator with a filter role contributes
its filter instead of a signal.
-/

namespace TradeGraph

open Mql Mql.Platform
open Mql.Expr (var tenths)

/-- The conditions of both sides. -/
structure Conditions where
  buys : List Expr := []
  sells : List Expr := []

namespace Conditions

/-- One condition for each side. -/
def one (buy sell : Expr) : Conditions := ⟨[buy], [sell]⟩

/-- The conditions of two lists, in order. -/
def append (c d : Conditions) : Conditions := ⟨c.buys ++ d.buys, c.sells ++ d.sells⟩

instance : Append Conditions := ⟨append⟩

end Conditions

/-! ## Comparisons -/

/-- `a` is above `b`, as doubles. -/
def isAbove (a b : Expr) : Expr := .call "DoubleGT" [a, b]

/-- `a` is below `b`, as doubles. -/
def isBelow (a b : Expr) : Expr := .call "DoubleLT" [a, b]

/-- `a` is not below `b`, as doubles. -/
def notBelow (a b : Expr) : Expr := .call "DoubleGE" [a, b]

/-- `a` is not above `b`, as doubles. -/
def notAbove (a b : Expr) : Expr := .call "DoubleLE" [a, b]

def valueAt (buffer : Ident) (bar : Nat) : Expr := .index (var buffer) (bar : Int)

def chartClose (bar : Nat) : Expr := closeOf chart (bar : Int)

/-- `a` rises above `b` from one bar to the next newer one. -/
def crossesUp (a b : Nat → Expr) (bar : Nat) : Expr :=
  .group (.all [notAbove (a (bar + 1)) (b (bar + 1)), isAbove (a bar) (b bar)])

/-- `a` falls below `b` from one bar to the next newer one. -/
def crossesDown (a b : Nat → Expr) (bar : Nat) : Expr :=
  .group (.all [notBelow (a (bar + 1)) (b (bar + 1)), isBelow (a bar) (b bar)])

/-! ## Inputs of signals -/

/-- The first name that no input has yet: the stem alone, else with the numbers 2, 3 and so on. -/
def freshInput (program : Program) (stem : String) : Ident :=
  if !program.hasInput stem then stem
  else
    let candidates : List Ident :=
      (List.range (program.inputs.length + 1)).map fun k => { stem, number := some (k + 2) }
    (candidates.find? fun x => !program.hasInput x.text).getD stem

/-! ## Indicators -/

/-- Leaving a zone: up out of the oversold one, or down out of the overbought one. -/
def leavingZone (buffer : Ident) (shift : Nat) (oversold overbought : Ident) : Conditions :=
  .one (crossesUp (valueAt buffer) (fun _ => oversold) shift)
    (crossesDown (valueAt buffer) (fun _ => overbought) shift)

/-- The price on one side of a moving average. -/
def besideAverage (i bar : Nat) : Conditions :=
  let average := valueAt (indVar i "Buffer") bar
  .one (.group (isAbove (chartClose bar) average)) (.group (isBelow (chartClose bar) average))

/-- The price on one side of a moving average, and close to it. -/
def nearAverage (i bar : Nat) (limit : Ident) : Conditions :=
  let average := valueAt (indVar i "Buffer") bar
  let price := chartClose bar
  let near (distance : Expr) : Expr :=
    (Expr.group distance / average).lt (var limit / tenths 1000)
  .one (.group (.all [isAbove price average, near (price - average)]))
    (.group (.all [isBelow price average, near (average - price)]))

/-- What an indicator contributes when it needs no input of its own. -/
def Indicator.conditions (i : Nat) (signal : Signal) : Indicator → Conditions
  | .movingAverage _ => besideAverage i (signal.barShift + 1)
  | .rsi _ =>
    leavingZone (indVar i "Buffer") signal.barShift (indInput "RSI" i "Oversold")
      (indInput "RSI" i "Overbought")
  | .macd _ =>
    let main := valueAt (indVar i "MainBuffer")
    let line := valueAt (indVar i "SignalBuffer")
    .one (crossesUp main line signal.barShift) (crossesDown main line signal.barShift)
  | .bollingerBands _ =>
    let bar := signal.barShift + 1
    .one
      (.group (notAbove (lowOf chart (bar : Int)) (valueAt (indVar i "LowerBuffer") bar)))
      (.group (notBelow (highOf chart (bar : Int)) (valueAt (indVar i "UpperBuffer") bar)))
  | .atr _ =>
    let value := valueAt (indVar i "Buffer")
    let rising : Expr := .group (isAbove (value signal.barShift) (value (signal.barShift + 1)))
    .one rising rising
  | .adx _ =>
    let strong := isAbove (valueAt (indVar i "MainBuffer") signal.barShift)
      (indInput "ADX" i "TrendLevel")
    let plus := valueAt (indVar i "PlusDIBuffer") signal.barShift
    let minus := valueAt (indVar i "MinusDIBuffer") signal.barShift
    .one (.group (.all [strong, isAbove plus minus])) (.group (.all [strong, isAbove minus plus]))
  | .stochastic _ =>
    leavingZone (indVar i "MainBuffer") signal.barShift (indInput "Stoch" i "Oversold")
      (indInput "Stoch" i "Overbought")
  | .cci _ =>
    leavingZone (indVar i "Buffer") signal.barShift (indInput "CCI" i "Oversold")
      (indInput "CCI" i "Overbought")

def FilterRole.conditions (i : Nat) (shift : Nat) : FilterRole → Conditions
  | .trend =>
    let trend := valueAt (indVar i "Buffer") 0
    .one (.group (isAbove (chartClose shift) trend)) (.group (isBelow (chartClose shift) trend))
  | .confirm =>
    let value := valueAt (indVar i "Buffer") shift
    .one (isBelow value (indInput "RSI" i "Overbought"))
      (isAbove value (indInput "RSI" i "Oversold"))
  | .strength =>
    let strong := isAbove (valueAt (indVar i "MainBuffer") shift) (indInput "ADX" i "TrendLevel")
    .one strong strong

/-! ## Crossovers -/

/-- The leg of a crossover that a signal is: the id of its strategy, and whether it is the fast one.
-/
def Signal.leg? (s : Signal) : Option (String × Bool) :=
  match s.entryStrategyType, s.entryStrategyId, s.role with
  | some "ema-crossover", some id, some role =>
    if id.isEmpty then none
    else if role == "fast" then some (id, true)
    else if role == "slow" then some (id, false)
    else none
  | _, _, _ => none

/-- The place of the last signal that is a leg. -/
def legIndex? (signals : List Signal) (id : String) (fast : Bool) : Option Nat :=
  (signals.zipIdx.filter fun (s, _) => s.leg? == some (id, fast)).getLast?.map Prod.snd

/-- The places of the fast and the slow leg of a strategy that has both. -/
def crossoverPair? (signals : List Signal) (id : String) : Option (Nat × Nat) :=
  match legIndex? signals id true, legIndex? signals id false with
  | some fast, some slow => some (fast, slow)
  | _, _ => none

/-- The pair to which the signal at a place belongs. -/
def pairAt? (signals : List Signal) (i : Nat) : Option (Nat × Nat) :=
  match signals[i]?.bind Signal.leg? with
  | some (id, _) =>
    match crossoverPair? signals id with
    | some (fast, slow) => if i = fast ∨ i = slow then some (fast, slow) else none
    | none => none
  | none => none

/-- The fast average crosses the slow one on closed bars. -/
def crossing (fast slow : Nat) : Conditions :=
  let a := valueAt (indVar fast "Buffer")
  let b := valueAt (indVar slow "Buffer")
  .one (crossesUp a b 1) (crossesDown a b 1)

/-- The averages are far enough apart. -/
def isSeparated (fast slow : Nat) (limit : Ident) : Expr :=
  (magnitude (valueAt (indVar fast "Buffer") 1 - valueAt (indVar slow "Buffer") 1) /
    .group (point * pipFactor)).ge limit

/-! ## Price action -/

def PriceAction.conditions (i : Nat) : PriceAction → Conditions
  | .rangeBreakout _ =>
    .one (.group (paVar i "BreakoutUp")) (.group (paVar i "BreakoutDown"))
  | .candlestickPattern _ => .one (.group (paVar i "BuySignal")) (.group (paVar i "SellSignal"))
  | .supportResistance _ =>
    .one (.group (paVar i "NearSupport")) (.group (paVar i "NearResistance"))

/-! ## All conditions -/

/-- Conditions and the inputs that they need. -/
structure SignalCode where
  conditions : Conditions := {}
  inputs : List Input := []

/-- What the indicator at a place contributes. The second leg of a pair contributes nothing. -/
def indicatorPart (nodes : List (Node × Signal × Indicator)) (i : Nat)
    (entry : Node × Signal × Indicator) (program : Program) : SignalCode :=
  let (n, signal, indicator) := entry
  match pairAt? (nodes.map fun (_, s, _) => s) i with
  | some (fast, slow) =>
    if i = min fast slow then
      let (leg, legSignal, _) := nodes.getD fast entry
      let both := crossing fast slow
      if 0.0 < legSignal.minEmaSeparation then
        let name := freshInput program "InpMinEmaSeparation"
        let apart (e : Expr) : Expr := .group (.all [e, isSeparated fast slow name])
        { conditions := ⟨both.buys.map apart, both.sells.map apart⟩
          inputs :=
            [leg.doubleInput "minEmaSeparation" name legSignal.minEmaSeparation
              "Min EMA Separation (pips)" (some "EMA Crossover")] }
      else { conditions := both }
    else {}
  | none =>
    match signal.filterRole, indicator with
    | some role, _ => { conditions := role.conditions i signal.barShift }
    | none, .movingAverage _ =>
      if signal.requireEmaBuffer then
        let name := freshInput program "InpPullbackMaxDist"
        { conditions := nearAverage i (signal.barShift + 1) name
          inputs :=
            [n.doubleInput "pullbackMaxDistance" name signal.pullbackMaxDistance
              "Max Distance from EMA (%)" (some "Trend Pullback")] }
      else { conditions := indicator.conditions i signal }
    | none, _ => { conditions := indicator.conditions i signal }

/-- What all indicators from a place on contribute. -/
def signalParts (nodes : List (Node × Signal × Indicator)) :
    Nat → List (Node × Signal × Indicator) → Program → SignalCode
  | _, [], _ => {}
  | i, entry :: rest, program =>
    let part := indicatorPart nodes i entry program
    let more := signalParts nodes (i + 1) rest (program ++ { inputs := part.inputs })
    { conditions := part.conditions ++ more.conditions, inputs := part.inputs ++ more.inputs }

def Node.indicator? (n : Node) : Option (Node × Signal × Indicator) :=
  match n.data.payload with
  | .indicator signal indicator => some (n, signal, indicator)
  | _ => none

/-- What price action nodes from a place on contribute, up to the first node that is none. -/
def priceActionParts : Nat → List Node → Except Fault Conditions
  | _, [] => .ok {}
  | i, n :: ns =>
    match n.data.payload with
    | .priceAction _ action => do
      let rest ← priceActionParts (i + 1) ns
      .ok (action.conditions i ++ rest)
    | _ => .error (.unsupported .priceAction n.kind)

/-- All conditions, indicators first. The inputs are added even if a node after the indicators has a
fault. -/
def allConditions (indicators priceAction : List Node) (program : Program) :
    List Input × Except Fault Conditions :=
  match indicators.mapM Node.indicator? with
  | none => ([], .error .missingField)
  | some nodes =>
    let signals := signalParts nodes 0 nodes program
    match priceActionParts 0 priceAction with
    | .error f => (signals.inputs, .error f)
    | .ok actions => (signals.inputs, .ok (signals.conditions ++ actions))

end TradeGraph

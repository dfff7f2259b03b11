import TradeGraph.Fault
import TradeGraph.Node.EntryStrategy
import TradeGraph.Node.Indicator
import TradeGraph.Node.Management
import TradeGraph.Node.PriceAction
import TradeGraph.Node.Timing
import TradeGraph.Node.Trading

/-!
# Nodes

A node is an id, a type name, its data and a position on the canvas that is only carried along. Its
data are the fields common to all nodes, the fields of its kind, and whatever entries no field
takes.
-/

namespace TradeGraph

/-! ## Types -/

/-- The fields that all nodes share. -/
structure Common where
  label : String
  category : Option String
  optimizableFields : Option (List String)

namespace Common

/-- The fields that all nodes share. -/
def codec : Codec Common where
  schema :=
    [.text "label" "label" "",
      .maybeText "category" "category",
      ⟨"optimizableFields", "optimizable_fields", .optional (.list .text), none⟩]
  ofRecord := fun (label, category, optimizableFields, _) => { label, category, optimizableFields }
  toRecord x := (x.label, x.category, x.optimizableFields, ())

instance : Inhabited Common := ⟨codec.initial⟩

/-- May the optimizer vary the field? Without a list it may vary all. -/
def isOptimizable (c : Common) (field : String) : Bool :=
  match c.optimizableFields with
  | none => true
  | some fields => fields.contains field

end Common

/-- What a node says beyond the fields common to all. -/
inductive Payload where
  | timing (useServerTime : Bool) (rule : TimingRule)
  | filter (maxSpreadPips : Float)
  | indicator (signal : Signal) (indicator : Indicator)
  | priceAction (timeframe : Option String) (action : PriceAction)
  | trading (action : Trading)
  | management (rule : Management)
  | entry (plan : EntryPlan) (signals : EntrySignals)

structure NodeData where
  common : Common
  payload : Payload
  extras : Entries := []

/-- A node of a strategy graph. -/
structure Node where
  id : String
  type : String
  data : NodeData
  position : Json := .null

/-! ## Kinds -/

namespace Payload

def kind : Payload → Kind
  | .timing _ .always => .always
  | .timing _ (.session _) => .tradingSession
  | .timing _ (.custom _) => .customTimes
  | .filter _ => .maxSpread
  | .indicator _ (.movingAverage _) => .movingAverage
  | .indicator _ (.rsi _) => .rsi
  | .indicator _ (.macd _) => .macd
  | .indicator _ (.bollingerBands _) => .bollingerBands
  | .indicator _ (.atr _) => .atr
  | .indicator _ (.adx _) => .adx
  | .indicator _ (.stochastic _) => .stochastic
  | .indicator _ (.cci _) => .cci
  | .priceAction _ (.rangeBreakout _) => .rangeBreakout
  | .priceAction _ (.candlestickPattern _) => .candlestickPattern
  | .priceAction _ (.supportResistance _) => .supportResistance
  | .trading (.order .buy _) => .placeBuy
  | .trading (.order .sell _) => .placeSell
  | .trading (.stopLoss _) => .stopLoss
  | .trading (.takeProfit _) => .takeProfit
  | .trading (.closeCondition _) => .closeCondition
  | .trading (.timeExit _) => .timeExit
  | .management (.breakeven _) => .breakevenStop
  | .management (.trailing _) => .trailingStop
  | .management (.partialClose _) => .partialClose
  | .management (.lockProfit _) => .lockProfit
  | .management (.multiTarget _) => .multiLevelTarget
  | .entry _ (.emaCrossover _) => .emaCrossoverEntry
  | .entry _ (.trendPullback _) => .trendPullbackEntry
  | .entry _ (.rsiReversal _) => .rsiReversalEntry
  | .entry _ (.macdCrossover _) => .macdCrossoverEntry
  | .entry _ (.rangeBreakout _) => .rangeBreakoutEntry

end Payload

/-- How the fields of a kind make a payload. -/
structure Shape where
  body : Type
  codec : Codec body
  make : body → Payload

/-- The fields of each kind, those of its category first. -/
def Kind.shape : Kind → Shape
  | .always => ⟨_, clockCodec, fun clock => .timing clock .always⟩
  | .tradingSession =>
    ⟨_, clockCodec.pair SessionRule.codec, fun (clock, r) => .timing clock (.session r)⟩
  | .customTimes =>
    ⟨_, clockCodec.pair CustomRule.codec, fun (clock, r) => .timing clock (.custom r)⟩
  | .maxSpread => ⟨_, spreadCodec, .filter⟩
  | .movingAverage =>
    ⟨_, Signal.codec.pair MovingAverage.codec, fun (s, p) => .indicator s (.movingAverage p)⟩
  | .rsi => ⟨_, Signal.codec.pair Rsi.codec, fun (s, p) => .indicator s (.rsi p)⟩
  | .macd => ⟨_, Signal.codec.pair Macd.codec, fun (s, p) => .indicator s (.macd p)⟩
  | .bollingerBands =>
    ⟨_, Signal.codec.pair BollingerBands.codec, fun (s, p) => .indicator s (.bollingerBands p)⟩
  | .atr => ⟨_, Signal.codec.pair Atr.codec, fun (s, p) => .indicator s (.atr p)⟩
  | .adx => ⟨_, Signal.codec.pair Adx.codec, fun (s, p) => .indicator s (.adx p)⟩
  | .stochastic =>
    ⟨_, Signal.codec.pair Stochastic.codec, fun (s, p) => .indicator s (.stochastic p)⟩
  | .cci => ⟨_, Signal.codec.pair Cci.codec, fun (s, p) => .indicator s (.cci p)⟩
  | .rangeBreakout =>
    ⟨_, chartCodec.pair RangeBreakout.codec, fun (t, p) => .priceAction t (.rangeBreakout p)⟩
  | .candlestickPattern =>
    ⟨_, chartCodec.pair CandlestickPatterns.codec,
      fun (t, p) => .priceAction t (.candlestickPattern p)⟩
  | .supportResistance =>
    ⟨_, chartCodec.pair SupportResistance.codec,
      fun (t, p) => .priceAction t (.supportResistance p)⟩
  | .placeBuy => ⟨_, Sizing.codec, fun p => .trading (.order .buy p)⟩
  | .placeSell => ⟨_, Sizing.codec, fun p => .trading (.order .sell p)⟩
  | .stopLoss => ⟨_, StopLoss.codec, fun p => .trading (.stopLoss p)⟩
  | .takeProfit => ⟨_, TakeProfit.codec, fun p => .trading (.takeProfit p)⟩
  | .closeCondition => ⟨_, closeCodec, fun d => .trading (.closeCondition d)⟩
  | .timeExit => ⟨_, TimeExit.codec, fun p => .trading (.timeExit p)⟩
  | .breakevenStop => ⟨_, Breakeven.codec, fun p => .management (.breakeven p)⟩
  | .trailingStop => ⟨_, Trailing.codec, fun p => .management (.trailing p)⟩
  | .partialClose => ⟨_, PartialClose.codec, fun p => .management (.partialClose p)⟩
  | .lockProfit => ⟨_, LockProfit.codec, fun p => .management (.lockProfit p)⟩
  | .multiLevelTarget => ⟨_, MultiTarget.codec, fun p => .management (.multiTarget p)⟩
  | .emaCrossoverEntry =>
    ⟨_, EntryPlan.codec.pair EmaCrossover.codec, fun (b, p) => .entry b (.emaCrossover p)⟩
  | .trendPullbackEntry =>
    ⟨_, EntryPlan.codec.pair TrendPullback.codec, fun (b, p) => .entry b (.trendPullback p)⟩
  | .rsiReversalEntry =>
    ⟨_, EntryPlan.codec.pair RsiReversal.codec, fun (b, p) => .entry b (.rsiReversal p)⟩
  | .macdCrossoverEntry =>
    ⟨_, EntryPlan.codec.pair MacdCrossover.codec, fun (b, p) => .entry b (.macdCrossover p)⟩
  | .rangeBreakoutEntry =>
    ⟨_, EntryPlan.codec.pair RangeEntry.codec, fun (b, p) => .entry b (.rangeBreakout p)⟩

namespace Payload

/-- The fields of a payload, those of its category first. -/
def encode : Payload → Entries
  | .timing clock .always => clockCodec.encode clock
  | .timing clock (.session r) => (clockCodec.pair SessionRule.codec).encode (clock, r)
  | .timing clock (.custom r) => (clockCodec.pair CustomRule.codec).encode (clock, r)
  | .filter pips => spreadCodec.encode pips
  | .indicator s (.movingAverage p) => (Signal.codec.pair MovingAverage.codec).encode (s, p)
  | .indicator s (.rsi p) => (Signal.codec.pair Rsi.codec).encode (s, p)
  | .indicator s (.macd p) => (Signal.codec.pair Macd.codec).encode (s, p)
  | .indicator s (.bollingerBands p) => (Signal.codec.pair BollingerBands.codec).encode (s, p)
  | .indicator s (.atr p) => (Signal.codec.pair Atr.codec).encode (s, p)
  | .indicator s (.adx p) => (Signal.codec.pair Adx.codec).encode (s, p)
  | .indicator s (.stochastic p) => (Signal.codec.pair Stochastic.codec).encode (s, p)
  | .indicator s (.cci p) => (Signal.codec.pair Cci.codec).encode (s, p)
  | .priceAction t (.rangeBreakout p) => (chartCodec.pair RangeBreakout.codec).encode (t, p)
  | .priceAction t (.candlestickPattern p) =>
    (chartCodec.pair CandlestickPatterns.codec).encode (t, p)
  | .priceAction t (.supportResistance p) =>
    (chartCodec.pair SupportResistance.codec).encode (t, p)
  | .trading (.order _ p) => Sizing.codec.encode p
  | .trading (.stopLoss p) => StopLoss.codec.encode p
  | .trading (.takeProfit p) => TakeProfit.codec.encode p
  | .trading (.closeCondition d) => closeCodec.encode d
  | .trading (.timeExit p) => TimeExit.codec.encode p
  | .management (.breakeven p) => Breakeven.codec.encode p
  | .management (.trailing p) => Trailing.codec.encode p
  | .management (.partialClose p) => PartialClose.codec.encode p
  | .management (.lockProfit p) => LockProfit.codec.encode p
  | .management (.multiTarget p) => MultiTarget.codec.encode p
  | .entry b (.emaCrossover p) => (EntryPlan.codec.pair EmaCrossover.codec).encode (b, p)
  | .entry b (.trendPullback p) => (EntryPlan.codec.pair TrendPullback.codec).encode (b, p)
  | .entry b (.rsiReversal p) => (EntryPlan.codec.pair RsiReversal.codec).encode (b, p)
  | .entry b (.macdCrossover p) => (EntryPlan.codec.pair MacdCrossover.codec).encode (b, p)
  | .entry b (.rangeBreakout p) => (EntryPlan.codec.pair RangeEntry.codec).encode (b, p)

/-- Levels must leave room between them. -/
def levelConflict? (overbought oversold : Float) : Option Conflict :=
  if overbought ≤ oversold then some .levels else none

/-- The first pair of fields that do not go together. -/
def conflict? : Payload → Option Conflict
  | .indicator _ (.rsi p) => levelConflict? p.overboughtLevel p.oversoldLevel
  | .indicator _ (.stochastic p) => levelConflict? p.overboughtLevel p.oversoldLevel
  | .indicator _ (.cci p) => levelConflict? p.overboughtLevel p.oversoldLevel
  | .indicator _ (.macd p) => if p.slowPeriod ≤ p.fastPeriod then some .periods else none
  | .entry _ (.emaCrossover p) =>
    if p.slowEma ≤ p.fastEma then some .averages
    else if p.rsiConfirmation ∧ p.rsiLongMax ≤ p.rsiShortMin then some .confirmation
    else none
  | .entry _ (.rsiReversal p) => levelConflict? p.overboughtLevel p.oversoldLevel
  | .entry _ (.macdCrossover p) => if p.macdSlow ≤ p.macdFast then some .macdPeriods else none
  | _ => none

end Payload

/-! ## Nodes -/

namespace NodeData

def fields (d : NodeData) : Entries :=
  Common.codec.encode d.common ++ d.payload.encode

/-- Is an extra entry of this name present and not absent in effect? -/
def hasExtra (d : NodeData) (key : String) : Bool :=
  (d.extras.get key).truthy

end NodeData

namespace Node

def kind (n : Node) : Kind :=
  n.data.payload.kind

def category (n : Node) : Category :=
  n.kind.category

/-- May the optimizer vary the field? -/
def isOptimizable (n : Node) (field : String) : Bool :=
  n.data.common.isOptimizable field

/-- Equality of nodes in all that they say. -/
def same (a b : Node) : Bool :=
  a.id == b.id && a.type == b.type && a.kind == b.kind &&
    (Json.obj a.data.fields).same (.obj b.data.fields) &&
    (Json.obj a.data.extras).same (.obj b.data.extras) && a.position.same b.position

end Node

end TradeGraph

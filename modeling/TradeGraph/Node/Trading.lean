import TradeGraph.Field.Schema
import TradeGraph.Node.Vocabulary

/-!
# Trading nodes

Orders with their size, the stop loss, the take profit, and two ways to end a position.
-/

namespace TradeGraph

inductive Side where
  | buy
  | sell
deriving DecidableEq, Repr

namespace Side

/-- The side as it occurs in names and labels. -/
def label : Side → String
  | .buy => "Buy"
  | .sell => "Sell"

/-- The side in lower case. -/
def lower : Side → String
  | .buy => "buy"
  | .sell => "sell"

end Side

/-- How an order is sized and placed. -/
structure Sizing where
  method : SizingMethod
  fixedLot : Float
  riskPercent : Float
  minLot : Float
  maxLot : Float
  orderType : OrderType
  pendingOffset : Float

namespace Sizing

/-- The fields of an order node. -/
def codec : Codec Sizing where
  schema :=
    [.choice "method" "method" SizingMethod.fixedLot,
      .number "fixedLot" "fixed_lot" (Bound.between 0.01 1000.0) 0.1,
      .number "riskPercent" "risk_percent" (Bound.between 0.01 100.0) 1.0,
      .number "minLot" "min_lot" (Bound.between 0.01 1000.0) 0.01,
      .number "maxLot" "max_lot" (Bound.between 0.01 1000.0) 10.0,
      .choice "orderType" "order_type" OrderType.market,
      .number "pendingOffset" "pending_offset" (Bound.between 0.0 10000.0) 10.0]
  ofRecord := fun (method, fixedLot, riskPercent, minLot, maxLot, orderType, pendingOffset, _) =>
    { method, fixedLot, riskPercent, minLot, maxLot, orderType, pendingOffset }
  toRecord x := (x.method, x.fixedLot, x.riskPercent, x.minLot, x.maxLot, x.orderType,
    x.pendingOffset, ())

instance : Inhabited Sizing := ⟨codec.initial⟩

/-- Does the order wait for a price? -/
def isPending (s : Sizing) : Bool :=
  s.orderType != .market

end Sizing

structure StopLoss where
  method : StopMethod
  fixedPips : Float
  slPercent : Float
  atrMultiplier : Float
  atrPeriod : Int
  atrTimeframe : Option String
  indicatorNodeId : Option String

def StopLoss.codec : Codec StopLoss where
  schema :=
    [.choice "method" "method" StopMethod.fixedPips,
      .number "fixedPips" "fixed_pips" (Bound.between 1.0 10000.0) 50.0,
      .number "slPercent" "sl_percent" [.atMost 100.0, .above 0.0] 1.0,
      .number "atrMultiplier" "atr_multiplier" (Bound.between 0.1 100.0) 1.5,
      .integer "atrPeriod" "atr_period" 1 1000 14,
      .maybeText "atrTimeframe" "atr_timeframe",
      .maybeText "indicatorNodeId" "indicator_node_id"]
  ofRecord := fun (method, fixedPips, slPercent, atrMultiplier, atrPeriod, atrTimeframe,
      indicatorNodeId, _) =>
    { method, fixedPips, slPercent, atrMultiplier, atrPeriod, atrTimeframe, indicatorNodeId }
  toRecord x := (x.method, x.fixedPips, x.slPercent, x.atrMultiplier, x.atrPeriod, x.atrTimeframe,
    x.indicatorNodeId, ())

instance : Inhabited StopLoss := ⟨StopLoss.codec.initial⟩

structure TakeProfit where
  method : TargetMethod
  fixedPips : Float
  riskRewardRatio : Float
  atrMultiplier : Float
  atrPeriod : Int

def TakeProfit.codec : Codec TakeProfit where
  schema :=
    [.choice "method" "method" TargetMethod.fixedPips,
      .number "fixedPips" "fixed_pips" (Bound.between 1.0 10000.0) 100.0,
      .number "riskRewardRatio" "risk_reward_ratio" (Bound.between 0.1 100.0) 2.0,
      .number "atrMultiplier" "atr_multiplier" (Bound.between 0.1 100.0) 3.0,
      .integer "atrPeriod" "atr_period" 1 1000 14]
  ofRecord := fun (method, fixedPips, riskRewardRatio, atrMultiplier, atrPeriod, _) =>
    { method, fixedPips, riskRewardRatio, atrMultiplier, atrPeriod }
  toRecord x := (x.method, x.fixedPips, x.riskRewardRatio, x.atrMultiplier, x.atrPeriod, ())

instance : Inhabited TakeProfit := ⟨TakeProfit.codec.initial⟩

def closeCodec : Codec Direction where
  schema := [.choice "closeDirection" "close_direction" Direction.both]
  ofRecord := fun (closeDirection, _) => closeDirection
  toRecord closeDirection := (closeDirection, ())

/-- An exit after a number of bars or at a time of day. -/
structure TimeExit where
  exitMode : ExitMode
  exitAfterBars : Int
  exitTimeframe : Option String
  closeHour : Int
  closeMinute : Int

def TimeExit.codec : Codec TimeExit where
  schema :=
    [.choice "exitMode" "exit_mode" ExitMode.bars,
      .integer "exitAfterBars" "exit_after_bars" 1 100000 10,
      .maybeText "exitTimeframe" "exit_timeframe",
      .integer "closeHour" "close_hour" 0 23 21,
      .integer "closeMinute" "close_minute" 0 59 0]
  ofRecord := fun (exitMode, exitAfterBars, exitTimeframe, closeHour, closeMinute, _) =>
    { exitMode, exitAfterBars, exitTimeframe, closeHour, closeMinute }
  toRecord x := (x.exitMode, x.exitAfterBars, x.exitTimeframe, x.closeHour, x.closeMinute, ())

inductive Trading where
  | order (side : Side) (sizing : Sizing)
  | stopLoss (p : StopLoss)
  | takeProfit (p : TakeProfit)
  | closeCondition (direction : Direction)
  | timeExit (p : TimeExit)

end TradeGraph

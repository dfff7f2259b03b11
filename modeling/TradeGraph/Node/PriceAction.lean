import TradeGraph.Field.Schema
import TradeGraph.Node.Vocabulary

/-!
# Price action nodes

Signals that are read off the bars themselves: breakouts of a range, candle patterns, and levels of
support and resistance.
-/

namespace TradeGraph

/-- The timeframe that all price action nodes choose. -/
def chartCodec : Codec (Option String) where
  schema := [.maybeText "timeframe" "timeframe"]
  ofRecord := fun (timeframe, _) => timeframe
  toRecord timeframe := (timeframe, ())

structure RangeBreakout where
  rangeType : RangeType
  lookbackCandles : Int
  rangeSession : RangeSession
  sessionStartHour : Int
  sessionStartMinute : Int
  sessionEndHour : Int
  sessionEndMinute : Int
  breakoutDirection : BreakoutDirection
  entryMode : BreakoutMode
  bufferPips : Float
  minRangePips : Float
  maxRangePips : Float
  useServerTime : Bool
  cancelOpposite : Bool

def RangeBreakout.codec : Codec RangeBreakout where
  schema :=
    [.choice "rangeType" "range_type" RangeType.previousCandles,
      .integer "lookbackCandles" "lookback_candles" 1 10000 20,
      .choice "rangeSession" "range_session" RangeSession.asian,
      .integer "sessionStartHour" "session_start_hour" 0 23 0,
      .integer "sessionStartMinute" "session_start_minute" 0 59 0,
      .integer "sessionEndHour" "session_end_hour" 0 23 8,
      .integer "sessionEndMinute" "session_end_minute" 0 59 0,
      .choice "breakoutDirection" "breakout_direction" BreakoutDirection.both,
      .choice "entryMode" "entry_mode" BreakoutMode.onClose,
      .number "bufferPips" "buffer_pips" (Bound.between 0.0 1000.0) 2.0,
      .number "minRangePips" "min_range_pips" (Bound.between 0.0 10000.0) 0.0,
      .number "maxRangePips" "max_range_pips" (Bound.between 0.0 10000.0) 0.0,
      .flag "useServerTime" "use_server_time" true,
      .flag "cancelOpposite" "cancel_opposite" true]
  ofRecord := fun (rangeType, lookbackCandles, rangeSession, sessionStartHour, sessionStartMinute,
      sessionEndHour, sessionEndMinute, breakoutDirection, entryMode, bufferPips, minRangePips,
      maxRangePips, useServerTime, cancelOpposite, _) =>
    { rangeType, lookbackCandles, rangeSession, sessionStartHour, sessionStartMinute,
      sessionEndHour, sessionEndMinute, breakoutDirection, entryMode, bufferPips, minRangePips,
      maxRangePips, useServerTime, cancelOpposite }
  toRecord x := (x.rangeType, x.lookbackCandles, x.rangeSession, x.sessionStartHour,
    x.sessionStartMinute, x.sessionEndHour, x.sessionEndMinute, x.breakoutDirection, x.entryMode,
    x.bufferPips, x.minRangePips, x.maxRangePips, x.useServerTime, x.cancelOpposite, ())

instance : Inhabited RangeBreakout := ⟨RangeBreakout.codec.initial⟩

structure CandlestickPatterns where
  patterns : List CandlePattern
  minBodySize : Float

def CandlestickPatterns.codec : Codec CandlestickPatterns where
  schema :=
    [⟨"patterns", "patterns", .list (.choice CandlePattern),
        [CandlePattern.engulfingBullish, CandlePattern.engulfingBearish]⟩,
      .number "minBodySize" "min_body_size" (Bound.between 0.0 1000.0) 1.0]
  ofRecord := fun (patterns, minBodySize, _) => { patterns, minBodySize }
  toRecord x := (x.patterns, x.minBodySize, ())

/-- Levels that the price has touched several times. -/
structure SupportResistance where
  lookbackPeriod : Int
  touchCount : Int
  zoneSize : Float

def SupportResistance.codec : Codec SupportResistance where
  schema :=
    [.integer "lookbackPeriod" "lookback_period" 3 10000 100,
      .integer "touchCount" "touch_count" 1 100 2,
      .number "zoneSize" "zone_size" (Bound.between 0.0 1000.0) 10.0]
  ofRecord := fun (lookbackPeriod, touchCount, zoneSize, _) =>
    { lookbackPeriod, touchCount, zoneSize }
  toRecord x := (x.lookbackPeriod, x.touchCount, x.zoneSize, ())

/-- A signal read off the bars. -/
inductive PriceAction where
  | rangeBreakout (p : RangeBreakout)
  | candlestickPattern (p : CandlestickPatterns)
  | supportResistance (p : SupportResistance)

def CandlePattern.isTriple : CandlePattern → Bool
  | .morningStar | .eveningStar | .threeWhiteSoldiers | .threeBlackCrows => true
  | _ => false

def CandlePattern.usesShadows : CandlePattern → Bool
  | .hammer | .shootingStar => true
  | _ => false

end TradeGraph

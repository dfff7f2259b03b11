import TradeGraph.Field.Schema
import TradeGraph.Node.Vocabulary

/-!
# Entry strategy nodes

An entry strategy stands for several simpler nodes: its signals, the orders, a stop and a target.
`EntryPlan` is what all strategies share; `EntrySignals` says which signals they use.
-/

namespace TradeGraph

/-- The risk side of an entry strategy. -/
structure EntryPlan where
  direction : Direction
  timeframe : Option String
  riskPercent : Float
  slMethod : EntryStop
  slFixedPips : Float
  slPercent : Float
  slAtrMultiplier : Float
  slAtrPeriod : Int
  tpRMultiple : Float

/-- The fields that all entry strategies share. -/
def EntryPlan.codec : Codec EntryPlan where
  schema :=
    [.choice "direction" "direction" Direction.both,
      ⟨"timeframe", "timeframe", .optional .text, some "H1"⟩,
      .number "riskPercent" "risk_percent" (Bound.between 0.01 100.0) 1.0,
      .choice "slMethod" "sl_method" EntryStop.atr,
      .number "slFixedPips" "sl_fixed_pips" (Bound.between 1.0 10000.0) 50.0,
      .number "slPercent" "sl_percent" [.atMost 100.0, .above 0.0] 1.0,
      .number "slAtrMultiplier" "sl_atr_multiplier" (Bound.between 0.1 100.0) 1.5,
      .integer "slAtrPeriod" "sl_atr_period" 1 1000 14,
      .number "tpRMultiple" "tp_r_multiple" (Bound.between 0.1 100.0) 2.0]
  ofRecord := fun (direction, timeframe, riskPercent, slMethod, slFixedPips, slPercent,
      slAtrMultiplier, slAtrPeriod, tpRMultiple, _) =>
    { direction, timeframe, riskPercent, slMethod, slFixedPips, slPercent, slAtrMultiplier,
      slAtrPeriod, tpRMultiple }
  toRecord x := (x.direction, x.timeframe, x.riskPercent, x.slMethod, x.slFixedPips, x.slPercent,
    x.slAtrMultiplier, x.slAtrPeriod, x.tpRMultiple, ())

/-- Two moving averages that cross. -/
structure EmaCrossover where
  fastEma : Int
  slowEma : Int
  appliedPrice : PriceField
  minEmaSeparation : Float
  htfTrendFilter : Bool
  htfTimeframe : String
  htfEma : Int
  rsiConfirmation : Bool
  rsiPeriod : Int
  rsiLongMax : Float
  rsiShortMin : Float

/-- The fields of a crossover of moving averages. -/
def EmaCrossover.codec : Codec EmaCrossover where
  schema :=
    [.integer "fastEma" "fast_ema" 1 1000 50,
      .integer "slowEma" "slow_ema" 1 1000 200,
      .choice "appliedPrice" "applied_price" PriceField.close,
      .number "minEmaSeparation" "min_ema_separation" [.atLeast 0.0] 0.0,
      .flag "htfTrendFilter" "htf_trend_filter" false,
      .text "htfTimeframe" "htf_timeframe" "H4",
      .integer "htfEma" "htf_ema" 1 1000 200,
      .flag "rsiConfirmation" "rsi_confirmation" false,
      .integer "rsiPeriod" "rsi_period" 1 1000 14,
      .number "rsiLongMax" "rsi_long_max" (Bound.between 0.0 100.0) 70.0,
      .number "rsiShortMin" "rsi_short_min" (Bound.between 0.0 100.0) 30.0]
  ofRecord := fun (fastEma, slowEma, appliedPrice, minEmaSeparation, htfTrendFilter,
      htfTimeframe, htfEma, rsiConfirmation, rsiPeriod, rsiLongMax, rsiShortMin, _) =>
    { fastEma, slowEma, appliedPrice, minEmaSeparation, htfTrendFilter, htfTimeframe, htfEma,
      rsiConfirmation, rsiPeriod, rsiLongMax, rsiShortMin }
  toRecord x := (x.fastEma, x.slowEma, x.appliedPrice, x.minEmaSeparation, x.htfTrendFilter,
    x.htfTimeframe, x.htfEma, x.rsiConfirmation, x.rsiPeriod, x.rsiLongMax, x.rsiShortMin, ())

structure TrendPullback where
  trendEma : Int
  pullbackRsiPeriod : Int
  rsiPullbackLevel : Float
  pullbackMaxDistance : Float
  requireEmaBuffer : Bool
  useAdxFilter : Bool
  adxPeriod : Int
  adxThreshold : Float

def TrendPullback.codec : Codec TrendPullback where
  schema :=
    [.integer "trendEma" "trend_ema" 1 1000 200,
      .integer "pullbackRsiPeriod" "pullback_rsi_period" 1 1000 14,
      .number "rsiPullbackLevel" "rsi_pullback_level" [.below 50.0, .above 0.0] 40.0,
      .number "pullbackMaxDistance" "pullback_max_distance" [.atMost 100.0, .above 0.0] 2.0,
      .flag "requireEmaBuffer" "require_ema_buffer" true,
      .flag "useAdxFilter" "use_adx_filter" false,
      .integer "adxPeriod" "adx_period" 1 1000 14,
      .number "adxThreshold" "adx_threshold" (Bound.between 0.0 100.0) 25.0]
  ofRecord := fun (trendEma, pullbackRsiPeriod, rsiPullbackLevel, pullbackMaxDistance,
      requireEmaBuffer, useAdxFilter, adxPeriod, adxThreshold, _) =>
    { trendEma, pullbackRsiPeriod, rsiPullbackLevel, pullbackMaxDistance, requireEmaBuffer,
      useAdxFilter, adxPeriod, adxThreshold }
  toRecord x := (x.trendEma, x.pullbackRsiPeriod, x.rsiPullbackLevel, x.pullbackMaxDistance,
    x.requireEmaBuffer, x.useAdxFilter, x.adxPeriod, x.adxThreshold, ())

/-- A reversal from an extreme of the relative strength index. -/
structure RsiReversal where
  rsiPeriod : Int
  oversoldLevel : Float
  overboughtLevel : Float
  trendFilter : Bool
  trendEma : Int

def RsiReversal.codec : Codec RsiReversal where
  schema :=
    [.integer "rsiPeriod" "rsi_period" 1 1000 14,
      .number "oversoldLevel" "oversold_level" (Bound.between 0.0 100.0) 30.0,
      .number "overboughtLevel" "overbought_level" (Bound.between 0.0 100.0) 70.0,
      .flag "trendFilter" "trend_filter" false,
      .integer "trendEma" "trend_ema" 1 1000 200]
  ofRecord := fun (rsiPeriod, oversoldLevel, overboughtLevel, trendFilter, trendEma, _) =>
    { rsiPeriod, oversoldLevel, overboughtLevel, trendFilter, trendEma }
  toRecord x := (x.rsiPeriod, x.oversoldLevel, x.overboughtLevel, x.trendFilter, x.trendEma, ())

/-- A crossover of a convergence divergence and its signal line. -/
structure MacdCrossover where
  macdFast : Int
  macdSlow : Int
  macdSignal : Int

/-- The fields of a crossover of a convergence divergence. -/
def MacdCrossover.codec : Codec MacdCrossover where
  schema :=
    [.integer "macdFast" "macd_fast" 1 1000 12,
      .integer "macdSlow" "macd_slow" 1 1000 26,
      .integer "macdSignal" "macd_signal" 1 1000 9]
  ofRecord := fun (macdFast, macdSlow, macdSignal, _) => { macdFast, macdSlow, macdSignal }
  toRecord x := (x.macdFast, x.macdSlow, x.macdSignal, ())

structure RangeEntry where
  rangePeriod : Int
  rangeMethod : RangeMethod
  rangeTimeframe : String
  customStartHour : Int
  customStartMinute : Int
  customEndHour : Int
  customEndMinute : Int
  entryMode : BreakoutMode
  bufferPips : Float
  minRangePips : Float
  maxRangePips : Float
  htfTrendFilter : Bool
  htfTimeframe : String
  htfEma : Int
  cancelOpposite : Bool

/-- The fields of a breakout strategy. -/
def RangeEntry.codec : Codec RangeEntry where
  schema :=
    [.integer "rangePeriod" "range_period" 1 10000 20,
      .choice "rangeMethod" "range_method" RangeMethod.candles,
      .text "rangeTimeframe" "range_timeframe" "H1",
      .integer "customStartHour" "custom_start_hour" 0 23 0,
      .integer "customStartMinute" "custom_start_minute" 0 59 0,
      .integer "customEndHour" "custom_end_hour" 0 23 8,
      .integer "customEndMinute" "custom_end_minute" 0 59 0,
      .choice "entryMode" "entry_mode" BreakoutMode.onClose,
      .number "bufferPips" "buffer_pips" (Bound.between 0.0 1000.0) 2.0,
      .number "minRangePips" "min_range_pips" (Bound.between 0.0 10000.0) 0.0,
      .number "maxRangePips" "max_range_pips" (Bound.between 0.0 10000.0) 0.0,
      .flag "htfTrendFilter" "htf_trend_filter" false,
      .text "htfTimeframe" "htf_timeframe" "H4",
      .integer "htfEma" "htf_ema" 1 1000 200,
      .flag "cancelOpposite" "cancel_opposite" true]
  ofRecord := fun (rangePeriod, rangeMethod, rangeTimeframe, customStartHour, customStartMinute,
      customEndHour, customEndMinute, entryMode, bufferPips, minRangePips, maxRangePips,
      htfTrendFilter, htfTimeframe, htfEma, cancelOpposite, _) =>
    { rangePeriod, rangeMethod, rangeTimeframe, customStartHour, customStartMinute,
      customEndHour, customEndMinute, entryMode, bufferPips, minRangePips, maxRangePips,
      htfTrendFilter, htfTimeframe, htfEma, cancelOpposite }
  toRecord x := (x.rangePeriod, x.rangeMethod, x.rangeTimeframe, x.customStartHour,
    x.customStartMinute, x.customEndHour, x.customEndMinute, x.entryMode, x.bufferPips,
    x.minRangePips, x.maxRangePips, x.htfTrendFilter, x.htfTimeframe, x.htfEma,
    x.cancelOpposite, ())

inductive EntrySignals where
  | emaCrossover (p : EmaCrossover)
  | trendPullback (p : TrendPullback)
  | rsiReversal (p : RsiReversal)
  | macdCrossover (p : MacdCrossover)
  | rangeBreakout (p : RangeEntry)

end TradeGraph

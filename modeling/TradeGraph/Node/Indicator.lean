import TradeGraph.Field.Schema
import TradeGraph.Node.Vocabulary

/-!
# Indicator nodes

- `Signal`: what all indicators share: timeframe, signal mode, and the markers of an indicator that
  belongs to an entry strategy
- one structure for the parameters of each indicator, and `Indicator` over all of them
-/

namespace TradeGraph

/-! ## Shared fields -/

/-- The fields that all indicators share. -/
structure Signal where
  timeframe : Option String
  signalMode : SignalMode
  entryStrategyType : Option String
  entryStrategyId : Option String
  role : Option String
  filterRole : Option FilterRole
  minEmaSeparation : Float
  requireEmaBuffer : Bool
  pullbackMaxDistance : Float

namespace Signal

/-- The fields that all indicators share. -/
def codec : Codec Signal where
  schema :=
    [.maybeText "timeframe" "timeframe",
      .choice "signalMode" "signal_mode" SignalMode.everyTick,
      .maybeText "entryStrategyType" "entry_strategy_type",
      .maybeText "entryStrategyId" "entry_strategy_id",
      .maybeText "role" "role",
      ⟨"filterRole", "filter_role", .optional (.choice FilterRole), none⟩,
      .number "minEmaSeparation" "min_ema_separation" [] 0.0,
      .flag "requireEmaBuffer" "require_ema_buffer" false,
      .number "pullbackMaxDistance" "pullback_max_distance" [] 2.0]
  ofRecord := fun (timeframe, signalMode, entryStrategyType, entryStrategyId, role, filterRole,
      minEmaSeparation, requireEmaBuffer, pullbackMaxDistance, _) =>
    { timeframe, signalMode, entryStrategyType, entryStrategyId, role, filterRole,
      minEmaSeparation, requireEmaBuffer, pullbackMaxDistance }
  toRecord x := (x.timeframe, x.signalMode, x.entryStrategyType, x.entryStrategyId, x.role,
    x.filterRole, x.minEmaSeparation, x.requireEmaBuffer, x.pullbackMaxDistance, ())

instance : Inhabited Signal := ⟨codec.initial⟩

/-- The newest bar that the signal reads: the forming one, or the last closed one. -/
def barShift (s : Signal) : Nat :=
  match s.signalMode with
  | .everyTick => 0
  | .candleClose => 1

end Signal

/-! ## Parameters -/

structure MovingAverage where
  period : Int
  method : Smoothing
  appliedPrice : PriceField
  shift : Int

def MovingAverage.codec : Codec MovingAverage where
  schema :=
    [.integer "period" "period" 1 1000 20,
      .choice "method" "method" Smoothing.sma,
      .choice "appliedPrice" "applied_price" PriceField.close,
      .integer "shift" "shift" 0 1000 0]
  ofRecord := fun (period, method, appliedPrice, shift, _) =>
    { period, method, appliedPrice, shift }
  toRecord x := (x.period, x.method, x.appliedPrice, x.shift, ())

instance : Inhabited MovingAverage := ⟨MovingAverage.codec.initial⟩

/-- A relative strength index. -/
structure Rsi where
  overboughtLevel : Float
  oversoldLevel : Float
  period : Int
  appliedPrice : PriceField

/-- The fields of a relative strength index. -/
def Rsi.codec : Codec Rsi where
  schema :=
    [.number "overboughtLevel" "overbought_level" [] 70.0,
      .number "oversoldLevel" "oversold_level" [] 30.0,
      .integer "period" "period" 1 1000 14,
      .choice "appliedPrice" "applied_price" PriceField.close]
  ofRecord := fun (overboughtLevel, oversoldLevel, period, appliedPrice, _) =>
    { overboughtLevel, oversoldLevel, period, appliedPrice }
  toRecord x := (x.overboughtLevel, x.oversoldLevel, x.period, x.appliedPrice, ())

instance : Inhabited Rsi := ⟨Rsi.codec.initial⟩

/-- A moving average convergence divergence. -/
structure Macd where
  fastPeriod : Int
  slowPeriod : Int
  signalPeriod : Int
  appliedPrice : PriceField

/-- The fields of a moving average convergence divergence. -/
def Macd.codec : Codec Macd where
  schema :=
    [.integer "fastPeriod" "fast_period" 1 1000 12,
      .integer "slowPeriod" "slow_period" 1 1000 26,
      .integer "signalPeriod" "signal_period" 1 1000 9,
      .choice "appliedPrice" "applied_price" PriceField.close]
  ofRecord := fun (fastPeriod, slowPeriod, signalPeriod, appliedPrice, _) =>
    { fastPeriod, slowPeriod, signalPeriod, appliedPrice }
  toRecord x := (x.fastPeriod, x.slowPeriod, x.signalPeriod, x.appliedPrice, ())

instance : Inhabited Macd := ⟨Macd.codec.initial⟩

structure BollingerBands where
  period : Int
  deviation : Float
  appliedPrice : PriceField
  shift : Int

def BollingerBands.codec : Codec BollingerBands where
  schema :=
    [.integer "period" "period" 1 1000 20,
      .number "deviation" "deviation" (Bound.between 0.1 10.0) 2.0,
      .choice "appliedPrice" "applied_price" PriceField.close,
      .integer "shift" "shift" 0 1000 0]
  ofRecord := fun (period, deviation, appliedPrice, shift, _) =>
    { period, deviation, appliedPrice, shift }
  toRecord x := (x.period, x.deviation, x.appliedPrice, x.shift, ())

/-- An average true range, known by its period. -/
structure Atr where
  period : Int

/-- The field of an average true range. -/
def Atr.codec : Codec Atr where
  schema := [.integer "period" "period" 1 1000 14]
  ofRecord := fun (period, _) => { period }
  toRecord x := (x.period, ())

/-- An average directional index. -/
structure Adx where
  period : Int
  trendLevel : Float

/-- The fields of an average directional index. -/
def Adx.codec : Codec Adx where
  schema :=
    [.integer "period" "period" 1 1000 14,
      .number "trendLevel" "trend_level" (Bound.between 0.0 100.0) 25.0]
  ofRecord := fun (period, trendLevel, _) => { period, trendLevel }
  toRecord x := (x.period, x.trendLevel, ())

structure Stochastic where
  overboughtLevel : Float
  oversoldLevel : Float
  kPeriod : Int
  dPeriod : Int
  slowing : Int
  maMethod : Smoothing
  priceField : StochasticPrice

/-- The fields of a stochastic oscillator. -/
def Stochastic.codec : Codec Stochastic where
  schema :=
    [.number "overboughtLevel" "overbought_level" [] 80.0,
      .number "oversoldLevel" "oversold_level" [] 20.0,
      .integer "kPeriod" "k_period" 1 1000 5,
      .integer "dPeriod" "d_period" 1 1000 3,
      .integer "slowing" "slowing" 1 1000 3,
      .choice "maMethod" "ma_method" Smoothing.sma,
      .choice "priceField" "price_field" StochasticPrice.lowHigh]
  ofRecord := fun (overboughtLevel, oversoldLevel, kPeriod, dPeriod, slowing, maMethod,
    priceField, _) =>
    { overboughtLevel, oversoldLevel, kPeriod, dPeriod, slowing, maMethod, priceField }
  toRecord x := (x.overboughtLevel, x.oversoldLevel, x.kPeriod, x.dPeriod, x.slowing, x.maMethod,
    x.priceField, ())

/-- A commodity channel index. -/
structure Cci where
  overboughtLevel : Float
  oversoldLevel : Float
  period : Int
  appliedPrice : PriceField

/-- The fields of a commodity channel index. -/
def Cci.codec : Codec Cci where
  schema :=
    [.number "overboughtLevel" "overbought_level" [] 100.0,
      .number "oversoldLevel" "oversold_level" [] (-100.0),
      .integer "period" "period" 1 1000 14,
      .choice "appliedPrice" "applied_price" PriceField.typical]
  ofRecord := fun (overboughtLevel, oversoldLevel, period, appliedPrice, _) =>
    { overboughtLevel, oversoldLevel, period, appliedPrice }
  toRecord x := (x.overboughtLevel, x.oversoldLevel, x.period, x.appliedPrice, ())

inductive Indicator where
  | movingAverage (p : MovingAverage)
  | rsi (p : Rsi)
  | macd (p : Macd)
  | bollingerBands (p : BollingerBands)
  | atr (p : Atr)
  | adx (p : Adx)
  | stochastic (p : Stochastic)
  | cci (p : Cci)

end TradeGraph

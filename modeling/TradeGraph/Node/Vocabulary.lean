import TradeGraph.Field.Type

/-!
# Vocabularies of the node fields

The finite types that node fields range over, each with the words by which a document names its
members.
-/

namespace TradeGraph

/-- How a moving average weighs its prices. -/
inductive Smoothing where
  | sma
  | ema
  | smma
  | lwma
deriving DecidableEq, Repr

instance : Vocabulary Smoothing where
  all := [.sma, .ema, .smma, .lwma]
  word
    | .sma => "SMA"
    | .ema => "EMA"
    | .smma => "SMMA"
    | .lwma => "LWMA"

/-- The price of a bar that an indicator is computed from. -/
inductive PriceField where
  | close
  | opening
  | high
  | low
  | median
  | typical
  | weighted
deriving DecidableEq, Repr

instance : Vocabulary PriceField where
  all := [.close, .opening, .high, .low, .median, .typical, .weighted]
  word
    | .close => "CLOSE"
    | .opening => "OPEN"
    | .high => "HIGH"
    | .low => "LOW"
    | .median => "MEDIAN"
    | .typical => "TYPICAL"
    | .weighted => "WEIGHTED"

/-- Which sides a rule trades or closes. -/
inductive Direction where
  | buy
  | sell
  | both
deriving DecidableEq, Repr

instance : Vocabulary Direction where
  all := [.buy, .sell, .both]
  word
    | .buy => "BUY"
    | .sell => "SELL"
    | .both => "BOTH"

/-- Whether a signal is read on every tick or on closed bars only. -/
inductive SignalMode where
  | everyTick
  | candleClose
deriving DecidableEq, Repr

instance : Vocabulary SignalMode where
  all := [.everyTick, .candleClose]
  word
    | .everyTick => "every_tick"
    | .candleClose => "candle_close"

/-- A named trading session. -/
inductive Session where
  | london
  | newYork
  | tokyo
  | sydney
  | overlap
deriving DecidableEq, Repr

instance : Vocabulary Session where
  all := [.london, .newYork, .tokyo, .sydney, .overlap]
  word
    | .london => "LONDON"
    | .newYork => "NEW_YORK"
    | .tokyo => "TOKYO"
    | .sydney => "SYDNEY"
    | .overlap => "LONDON_NY_OVERLAP"

/-- What an indicator filters when it is no signal of its own. -/
inductive FilterRole where
  | trend
  | confirm
  | strength
deriving DecidableEq, Repr

instance : Vocabulary FilterRole where
  all := [.trend, .confirm, .strength]
  word
    | .trend => "htf-trend"
    | .confirm => "rsi-confirm"
    | .strength => "adx-trend-strength"

inductive StochasticPrice where
  | lowHigh
  | closeClose
deriving DecidableEq, Repr

instance : Vocabulary StochasticPrice where
  all := [.lowHigh, .closeClose]
  word
    | .lowHigh => "LOWHIGH"
    | .closeClose => "CLOSECLOSE"

/-- Where a price range comes from. -/
inductive RangeType where
  | previousCandles
  | session
  | timeWindow
deriving DecidableEq, Repr

instance : Vocabulary RangeType where
  all := [.previousCandles, .session, .timeWindow]
  word
    | .previousCandles => "PREVIOUS_CANDLES"
    | .session => "SESSION"
    | .timeWindow => "TIME_WINDOW"

inductive RangeSession where
  | asian
  | london
  | newYork
  | custom
deriving DecidableEq, Repr

instance : Vocabulary RangeSession where
  all := [.asian, .london, .newYork, .custom]
  word
    | .asian => "ASIAN"
    | .london => "LONDON"
    | .newYork => "NEW_YORK"
    | .custom => "CUSTOM"

/-- The sides of a range on which a breakout counts. -/
inductive BreakoutDirection where
  | buyOnHigh
  | sellOnLow
  | both
deriving DecidableEq, Repr

instance : Vocabulary BreakoutDirection where
  all := [.buyOnHigh, .sellOnLow, .both]
  word
    | .buyOnHigh => "BUY_ON_HIGH"
    | .sellOnLow => "SELL_ON_LOW"
    | .both => "BOTH"

inductive BreakoutMode where
  | immediate
  | onClose
  | afterRetest
deriving DecidableEq, Repr

instance : Vocabulary BreakoutMode where
  all := [.immediate, .onClose, .afterRetest]
  word
    | .immediate => "IMMEDIATE"
    | .onClose => "ON_CLOSE"
    | .afterRetest => "AFTER_RETEST"

inductive CandlePattern where
  | engulfingBullish
  | engulfingBearish
  | doji
  | hammer
  | shootingStar
  | morningStar
  | eveningStar
  | threeWhiteSoldiers
  | threeBlackCrows
deriving DecidableEq, Repr

instance : Vocabulary CandlePattern where
  all := [.engulfingBullish, .engulfingBearish, .doji, .hammer, .shootingStar, .morningStar,
    .eveningStar, .threeWhiteSoldiers, .threeBlackCrows]
  word
    | .engulfingBullish => "ENGULFING_BULLISH"
    | .engulfingBearish => "ENGULFING_BEARISH"
    | .doji => "DOJI"
    | .hammer => "HAMMER"
    | .shootingStar => "SHOOTING_STAR"
    | .morningStar => "MORNING_STAR"
    | .eveningStar => "EVENING_STAR"
    | .threeWhiteSoldiers => "THREE_WHITE_SOLDIERS"
    | .threeBlackCrows => "THREE_BLACK_CROWS"

/-- How the volume of an order is found. -/
inductive SizingMethod where
  | fixedLot
  | riskPercent
deriving DecidableEq, Repr

instance : Vocabulary SizingMethod where
  all := [.fixedLot, .riskPercent]
  word
    | .fixedLot => "FIXED_LOT"
    | .riskPercent => "RISK_PERCENT"

/-- How an order enters the market. -/
inductive OrderType where
  | market
  | stop
  | limit
deriving DecidableEq, Repr

instance : Vocabulary OrderType where
  all := [.market, .stop, .limit]
  word
    | .market => "MARKET"
    | .stop => "STOP"
    | .limit => "LIMIT"

/-- How the distance of a stop loss is found. -/
inductive StopMethod where
  | fixedPips
  | atrBased
  | percent
  | indicator
  | rangeOpposite
deriving DecidableEq, Repr

instance : Vocabulary StopMethod where
  all := [.fixedPips, .atrBased, .percent, .indicator, .rangeOpposite]
  word
    | .fixedPips => "FIXED_PIPS"
    | .atrBased => "ATR_BASED"
    | .percent => "PERCENT"
    | .indicator => "INDICATOR"
    | .rangeOpposite => "RANGE_OPPOSITE"

/-- How the distance of a take profit is found. -/
inductive TargetMethod where
  | fixedPips
  | riskReward
  | atrBased
deriving DecidableEq, Repr

instance : Vocabulary TargetMethod where
  all := [.fixedPips, .riskReward, .atrBased]
  word
    | .fixedPips => "FIXED_PIPS"
    | .riskReward => "RISK_REWARD"
    | .atrBased => "ATR_BASED"

/-- What ends a position by time. -/
inductive ExitMode where
  | bars
  | closeAtTime
deriving DecidableEq, Repr

instance : Vocabulary ExitMode where
  all := [.bars, .closeAtTime]
  word
    | .bars => "BARS"
    | .closeAtTime => "CLOSE_AT_TIME"

/-- What arms a breakeven stop. -/
inductive BreakevenTrigger where
  | pips
  | atr
  | percentage
deriving DecidableEq, Repr

instance : Vocabulary BreakevenTrigger where
  all := [.pips, .atr, .percentage]
  word
    | .pips => "PIPS"
    | .atr => "ATR"
    | .percentage => "PERCENTAGE"

/-- How far a trailing stop follows. -/
inductive TrailMethod where
  | fixedPips
  | atrBased
  | percentage
deriving DecidableEq, Repr

instance : Vocabulary TrailMethod where
  all := [.fixedPips, .atrBased, .percentage]
  word
    | .fixedPips => "FIXED_PIPS"
    | .atrBased => "ATR_BASED"
    | .percentage => "PERCENTAGE"

inductive PartialTrigger where
  | pips
  | percent
  | riskMultiple
deriving DecidableEq, Repr

instance : Vocabulary PartialTrigger where
  all := [.pips, .percent, .riskMultiple]
  word
    | .pips => "PIPS"
    | .percent => "PERCENT"
    | .riskMultiple => "R_MULTIPLE"

/-- How much profit is locked in. -/
inductive LockMethod where
  | percentage
  | fixedPips
deriving DecidableEq, Repr

instance : Vocabulary LockMethod where
  all := [.percentage, .fixedPips]
  word
    | .percentage => "PERCENTAGE"
    | .fixedPips => "FIXED_PIPS"

inductive AfterFirstTarget where
  | nothing
  | breakeven
  | trail
deriving DecidableEq, Repr

instance : Vocabulary AfterFirstTarget where
  all := [.nothing, .breakeven, .trail]
  word
    | .nothing => "NONE"
    | .breakeven => "BREAKEVEN"
    | .trail => "TRAIL"

inductive EntryStop where
  | atr
  | pips
  | percent
  | rangeOpposite
deriving DecidableEq, Repr

instance : Vocabulary EntryStop where
  all := [.atr, .pips, .percent, .rangeOpposite]
  word
    | .atr => "ATR"
    | .pips => "PIPS"
    | .percent => "PERCENT"
    | .rangeOpposite => "RANGE_OPPOSITE"

inductive RangeMethod where
  | candles
  | asianSession
  | londonSession
  | newYorkSession
  | customTime
deriving DecidableEq, Repr

instance : Vocabulary RangeMethod where
  all := [.candles, .asianSession, .londonSession, .newYorkSession, .customTime]
  word
    | .candles => "CANDLES"
    | .asianSession => "ASIAN_SESSION"
    | .londonSession => "LONDON_SESSION"
    | .newYorkSession => "NEW_YORK_SESSION"
    | .customTime => "CUSTOM_TIME"

end TradeGraph

/-!
# Kinds of nodes

- `Category`: the seven families of nodes
- `Kind`: what a node is; a kind belongs to one category
- `Kind.name`, `Kind.typeName`: how a document names a kind, inside its category and on its own
-/

namespace TradeGraph

/-- A family of nodes. -/
inductive Category where
  | timing
  | filter
  | indicator
  | priceAction
  | trading
  | management
  | entryStrategy
deriving DecidableEq, Repr

namespace Category

/-- All categories. -/
def all : List Category :=
  [.timing, .filter, .indicator, .priceAction, .trading, .management, .entryStrategy]

/-- The name of the category in a document. -/
def name : Category → String
  | .timing => "timing"
  | .filter => "filter"
  | .indicator => "indicator"
  | .priceAction => "priceaction"
  | .trading => "trading"
  | .management => "trademanagement"
  | .entryStrategy => "entrystrategy"

def ofName? (s : String) : Option Category :=
  all.find? fun c => c.name == s

end Category

/-- What a node is. -/
inductive Kind where
  | always
  | tradingSession
  | customTimes
  | maxSpread
  | movingAverage
  | rsi
  | macd
  | bollingerBands
  | atr
  | adx
  | stochastic
  | cci
  | rangeBreakout
  | candlestickPattern
  | supportResistance
  | placeBuy
  | placeSell
  | stopLoss
  | takeProfit
  | closeCondition
  | timeExit
  | breakevenStop
  | trailingStop
  | partialClose
  | lockProfit
  | multiLevelTarget
  | emaCrossoverEntry
  | trendPullbackEntry
  | rsiReversalEntry
  | macdCrossoverEntry
  | rangeBreakoutEntry
deriving DecidableEq, Repr

namespace Kind

/-- All kinds, category by category. -/
def all : List Kind :=
  [.always, .tradingSession, .customTimes, .maxSpread, .movingAverage, .rsi, .macd, .bollingerBands,
    .atr, .adx, .stochastic, .cci, .rangeBreakout, .candlestickPattern,
    .supportResistance, .placeBuy, .placeSell, .stopLoss, .takeProfit, .closeCondition, .timeExit,
    .breakevenStop, .trailingStop, .partialClose, .lockProfit, .multiLevelTarget,
    .emaCrossoverEntry, .trendPullbackEntry, .rsiReversalEntry, .macdCrossoverEntry,
    .rangeBreakoutEntry]

def category : Kind → Category
  | .always | .tradingSession | .customTimes => .timing
  | .maxSpread => .filter
  | .movingAverage | .rsi | .macd | .bollingerBands | .atr | .adx | .stochastic | .cci => .indicator
  | .rangeBreakout | .candlestickPattern | .supportResistance => .priceAction
  | .placeBuy | .placeSell | .stopLoss | .takeProfit | .closeCondition | .timeExit => .trading
  | .breakevenStop | .trailingStop | .partialClose | .lockProfit | .multiLevelTarget => .management
  | .emaCrossoverEntry | .trendPullbackEntry | .rsiReversalEntry | .macdCrossoverEntry
  | .rangeBreakoutEntry => .entryStrategy

/-- The name of a kind inside its category. -/
def name : Kind → String
  | .always => "always"
  | .tradingSession => "trading-session"
  | .customTimes => "custom-times"
  | .maxSpread => "max-spread"
  | .movingAverage => "moving-average"
  | .rsi => "rsi"
  | .macd => "macd"
  | .bollingerBands => "bollinger-bands"
  | .atr => "atr"
  | .adx => "adx"
  | .stochastic => "stochastic"
  | .cci => "cci"
  | .rangeBreakout => "range-breakout"
  | .candlestickPattern => "candlestick-pattern"
  | .supportResistance => "support-resistance"
  | .placeBuy => "place-buy"
  | .placeSell => "place-sell"
  | .stopLoss => "stop-loss"
  | .takeProfit => "take-profit"
  | .closeCondition => "close-condition"
  | .timeExit => "time-exit"
  | .breakevenStop => "breakeven-stop"
  | .trailingStop => "trailing-stop"
  | .partialClose => "partial-close"
  | .lockProfit => "lock-profit"
  | .multiLevelTarget => "multi-level-tp"
  | .emaCrossoverEntry => "ema-crossover"
  | .trendPullbackEntry => "trend-pullback"
  | .rsiReversalEntry => "rsi-reversal"
  | .macdCrossoverEntry => "macd-crossover"
  | .rangeBreakoutEntry => "range-breakout"

/-- The ending that tells entry strategies from other kinds of the same name. -/
def entryEnding : String := "-entry"

/-- The name of a kind as a node type of its own. -/
def typeName (k : Kind) : String :=
  if k.category = .entryStrategy then k.name ++ entryEnding else k.name

/-- The kind of a category with a name. -/
def ofName? (c : Category) (s : String) : Option Kind :=
  all.find? fun k => k.category == c && k.name == s

def ofTypeName? (s : String) : Option Kind :=
  all.find? fun k => k.typeName == s

end Kind

end TradeGraph

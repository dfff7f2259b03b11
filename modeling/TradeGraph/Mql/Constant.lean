import TradeGraph.Mql.Expr

/-!
# Constants and calls of the target platform

- `period`, `sweptPeriod`: the constants for a chart timeframe given by its short name
- prices, bars and predefined variables as expressions
-/

namespace TradeGraph.Mql

/-! ## Timeframes -/

/-- The short names of the chart timeframes. -/
def timeframes : List String :=
  ["M1", "M2", "M3", "M4", "M5", "M6", "M10", "M12", "M15", "M20", "M30", "H1", "H2", "H3", "H4",
    "H6", "H8", "H12", "D1", "W1", "MN1"]

def sweptTimeframes : List String :=
  ["M1", "M5", "M15", "M30", "H1", "H4", "D1", "W1", "MN1"]

/-- The timeframe constant of a short name; the chart's own for an unknown one. -/
def period (timeframe : String) : String :=
  if timeframes.contains timeframe then "PERIOD_" ++ timeframe else "PERIOD_CURRENT"

/-- The sweepable timeframe constant of a short name; one hour for an unknown one. -/
def sweptPeriod (timeframe : String) : String :=
  if sweptTimeframes.contains timeframe then "TF_" ++ timeframe else "TF_H1"

/-! ## Predefined variables and calls -/

namespace Platform

def symbol : Expr := "_Symbol"

def point : Expr := "_Point"

def digits : Expr := "_Digits"

def pipFactor : Expr := "_pipFactor"

def chart : Expr := "PERIOD_CURRENT"

/-- What a failed indicator creation returns. -/
def invalidHandle : Expr := "INVALID_HANDLE"

def symbolDouble (property : Expr) : Expr := .call "SymbolInfoDouble" [symbol, property]

def symbolInteger (property : Expr) : Expr := .call "SymbolInfoInteger" [symbol, property]

/-- The price at which a buy is filled. -/
def ask : Expr := symbolDouble "SYMBOL_ASK"

/-- The price at which a sell is filled. -/
def bid : Expr := symbolDouble "SYMBOL_BID"

/-- A property of the selected position. -/
def positionDouble (property : Expr) : Expr := .call "PositionGetDouble" [property]

def positionInteger (property : Expr) : Expr := .call "PositionGetInteger" [property]

def accountDouble (property : Expr) : Expr := .call "AccountInfoDouble" [property]

/-- A price rounded to the digits of the symbol. -/
def normalizePrice (price : Expr) : Expr := .call "NormalizeDouble" [price, digits]

/-- The larger of two numbers. -/
def larger (a b : Expr) : Expr := .call "MathMax" [a, b]

/-- The smaller of two numbers. -/
def smaller (a b : Expr) : Expr := .call "MathMin" [a, b]

/-- The distance of a number from zero. -/
def magnitude (a : Expr) : Expr := .call "MathAbs" [a]

def closeOf (timeframe bar : Expr) : Expr := .call "iClose" [symbol, timeframe, bar]

def openOf (timeframe bar : Expr) : Expr := .call "iOpen" [symbol, timeframe, bar]

def highOf (timeframe bar : Expr) : Expr := .call "iHigh" [symbol, timeframe, bar]

def lowOf (timeframe bar : Expr) : Expr := .call "iLow" [symbol, timeframe, bar]

/-- The opening time of a bar. -/
def timeOf (timeframe bar : Expr) : Expr := .call "iTime" [symbol, timeframe, bar]

end Platform

end TradeGraph.Mql

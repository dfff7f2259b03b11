import TradeGraph.Mql.Constant
import TradeGraph.Program.Emission

/-!
# Indicators

Each live indicator has a handle, one or more buffers and inputs for its parameters. All names carry
its number.
-/

namespace TradeGraph

open Mql Mql.Platform

/-! ## Handles and buffers -/

/-- A variable of an indicator. -/
def indVar (i : Nat) (tail : String) : Ident := { stem := "ind", number := some i, tail }

def indHandle (i : Nat) : Ident := indVar i "Handle"

/-- How many values are copied: the forming bar, the last closed bar and the one before. -/
def copiedBars : Nat := 3

/-- Refresh a buffer of an indicator. -/
def copyBuffer (handle : Ident) (buffer : Nat) (count : Nat) (target : Ident) : Expr :=
  .call "CopyBuffer" [handle, (buffer : Int), 0, (count : Int), target]

/-- Create an indicator under its handle, with buffers that are refreshed on every tick. `what`
names it in the message of a failure. -/
def indicatorParts (i : Nat) (what : String) (create : Expr) (buffers : List String) : Program where
  globals :=
    .scalar "int" (indHandle i) none none ::
      buffers.map fun b => .array "double" (indVar i b) none
  init :=
    [.assign (indHandle i) create,
      .branch ((Expr.name (indHandle i)).eq invalidHandle)
        [.run (.call "Print" [.quote ("Failed to create " ++ what ++ " handle")]),
          .act (.retWith "INIT_FAILED")]] ++
      buffers.map fun b => .run (.call "ArraySetAsSeries" [indVar i b, true])
  deinit := [.run (.call "IndicatorRelease" [indHandle i])]
  tick := buffers.zipIdx.map fun (b, k) =>
    .run (copyBuffer (indHandle i) k copiedBars (indVar i b))

/-! ## Inputs -/

def indInput (stem : String) (i : Nat) (tail : String) : Ident :=
  { stem := "Inp" ++ stem, number := some i, tail }

/-- The constant of a timeframe that may be missing. -/
def periodOf (timeframe : Option String) : Expr :=
  .name (period (timeframe.getD ""))

def priceOf (p : PriceField) : Expr := .name ("PRICE_" ++ Vocabulary.word p)

def smoothingOf (s : Smoothing) : Expr := .name ("MODE_" ++ Vocabulary.word s)

def stochasticPriceOf (p : StochasticPrice) : Expr := .name ("STO_" ++ Vocabulary.word p)

/-- The part of the program for an indicator. -/
def indicatorCode (n : Node) (i : Nat) (timeframe : Option String) : Indicator → Program
  | .movingAverage p =>
    let title := "MA " ++ toString (i + 1)
    let x := indInput "MA" i
    { inputs :=
        [n.intInput "period" (x "Period") p.period (title ++ " Period"),
          n.intInput "shift" (x "Shift") p.shift (title ++ " Shift")]
      bars := (p.period + p.shift).toNat } ++
      indicatorParts i title
        (.call "iMA" [symbol, periodOf timeframe, x "Period", x "Shift", smoothingOf p.method,
          priceOf p.appliedPrice]) ["Buffer"]
  | .rsi p =>
    let title := "RSI " ++ toString (i + 1)
    let x := indInput "RSI" i
    { inputs :=
        [n.intInput "period" (x "Period") p.period (title ++ " Period"),
          n.doubleInput "overboughtLevel" (x "Overbought") p.overboughtLevel
            (title ++ " Overbought"),
          n.doubleInput "oversoldLevel" (x "Oversold") p.oversoldLevel (title ++ " Oversold")]
      bars := p.period.toNat } ++
      indicatorParts i title
        (.call "iRSI" [symbol, periodOf timeframe, x "Period", priceOf p.appliedPrice]) ["Buffer"]
  | .macd p =>
    let title := "MACD " ++ toString (i + 1)
    let x := indInput "MACD" i
    { inputs :=
        [n.intInput "fastPeriod" (x "Fast") p.fastPeriod (title ++ " Fast Period"),
          n.intInput "slowPeriod" (x "Slow") p.slowPeriod (title ++ " Slow Period"),
          n.intInput "signalPeriod" (x "Signal") p.signalPeriod (title ++ " Signal Period")]
      bars := (p.slowPeriod + p.signalPeriod).toNat } ++
      indicatorParts i title
        (.call "iMACD" [symbol, periodOf timeframe, x "Fast", x "Slow", x "Signal",
          priceOf p.appliedPrice]) ["MainBuffer", "SignalBuffer"]
  | .bollingerBands p =>
    let title := "BB " ++ toString (i + 1)
    let x := indInput "BB" i
    { inputs :=
        [n.intInput "period" (x "Period") p.period (title ++ " Period"),
          n.doubleInput "deviation" (x "Deviation") p.deviation (title ++ " Deviation"),
          n.intInput "shift" (x "Shift") p.shift (title ++ " Shift")]
      bars := (p.period + p.shift).toNat } ++
      indicatorParts i ("Bollinger Bands " ++ toString (i + 1))
        (.call "iBands" [symbol, periodOf timeframe, x "Period", x "Shift", x "Deviation",
          priceOf p.appliedPrice]) ["MiddleBuffer", "UpperBuffer", "LowerBuffer"]
  | .atr p =>
    let title := "ATR " ++ toString (i + 1)
    let x := indInput "ATR" i
    { inputs := [n.intInput "period" (x "Period") p.period (title ++ " Period")]
      bars := p.period.toNat } ++
      indicatorParts i title (.call "iATR" [symbol, periodOf timeframe, x "Period"]) ["Buffer"]
  | .adx p =>
    let title := "ADX " ++ toString (i + 1)
    let x := indInput "ADX" i
    { inputs :=
        [n.intInput "period" (x "Period") p.period (title ++ " Period"),
          n.doubleInput "trendLevel" (x "TrendLevel") p.trendLevel (title ++ " Trend Level")]
      bars := (p.period * 2).toNat } ++
      indicatorParts i title (.call "iADX" [symbol, periodOf timeframe, x "Period"])
        ["MainBuffer", "PlusDIBuffer", "MinusDIBuffer"]
  | .stochastic p =>
    let title := "Stochastic " ++ toString (i + 1)
    let x := indInput "Stoch" i
    { inputs :=
        [n.intInput "kPeriod" (x "K") p.kPeriod (title ++ " %K Period"),
          n.intInput "dPeriod" (x "D") p.dPeriod (title ++ " %D Period"),
          n.intInput "slowing" (x "Slowing") p.slowing (title ++ " Slowing"),
          n.doubleInput "overboughtLevel" (x "Overbought") p.overboughtLevel
            (title ++ " Overbought"),
          n.doubleInput "oversoldLevel" (x "Oversold") p.oversoldLevel (title ++ " Oversold")]
      bars := (p.kPeriod + p.dPeriod + p.slowing).toNat } ++
      indicatorParts i title
        (.call "iStochastic" [symbol, periodOf timeframe, x "K", x "D", x "Slowing",
          smoothingOf p.maMethod, stochasticPriceOf p.priceField]) ["MainBuffer", "SignalBuffer"]
  | .cci p =>
    let title := "CCI " ++ toString (i + 1)
    let x := indInput "CCI" i
    { inputs :=
        [n.intInput "period" (x "Period") p.period (title ++ " Period"),
          n.doubleInput "overboughtLevel" (x "Overbought") p.overboughtLevel
            (title ++ " Overbought"),
          n.doubleInput "oversoldLevel" (x "Oversold") p.oversoldLevel (title ++ " Oversold")]
      bars := p.period.toNat } ++
      indicatorParts i title
        (.call "iCCI" [symbol, periodOf timeframe, x "Period", priceOf p.appliedPrice]) ["Buffer"]

/-- The part of the program for the `i`-th live indicator. -/
def emitIndicator (n : Node) (i : Nat) : Emission :=
  match n.data.payload with
  | .indicator signal indicator =>
    { code := indicatorCode n i signal.timeframe indicator
      log := Log.debug .indicators
        ("Indicator " ++ toString i ++ ": " ++ n.kind.name ++ " '" ++ n.id ++ "'") }
  | _ => Emission.fail (.unsupported .indicator n.kind)

end TradeGraph

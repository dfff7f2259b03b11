import TradeGraph.Program.Indicators

/-!
# Price action

Breakouts of a range, candle patterns, and levels of support and resistance. Each sets two flags,
one for each side. All names carry the number of the node.
-/

namespace TradeGraph

open Mql Mql.Platform
open Mql.Expr (var tenths)

/-- A variable of a price action node. -/
def paVar (i : Nat) (tail : String) : Ident := { stem := "pa", number := some i, tail }

/-! ## Helper functions -/

/-- The high and the low of a window of the day, the last one that is complete. -/
def sessionRange : Function where
  title := some "High/low of a clock-time window (last completed occurrence)"
  spaced := true
  result := "void"
  name := "GetSessionRange"
  params :=
    [{ type := "ENUM_TIMEFRAMES", name := "tf" }, { type := "int", name := "startHour" },
      { type := "int", name := "startMin" }, { type := "int", name := "endHour" },
      { type := "int", name := "endMin" },
      { type := "double", name := "high", byReference := true },
      { type := "double", name := "low", byReference := true },
      { type := "bool", name := "useGMT", value := some false }]
  body :=
    [.assign "high" 0,
      .assign "low" 0,
      .blank,
      .declareOnly "MqlDateTime" "dt",
      .declare "datetime" "now"
        (.choice "useGMT" (.call "TimeGMT" []) (.call "TimeCurrent" [])),
      .run (.call "TimeToStruct" ["now", "dt"]),
      .blank,
      .assign (.member "dt" "hour") "startHour",
      .assign (.member "dt" "min") "startMin",
      .assign (.member "dt" "sec") 0,
      .declare "datetime" "startTime" (.call "StructToTime" ["dt"]),
      .blank,
      .assign (.member "dt" "hour") "endHour",
      .assign (.member "dt" "min") "endMin",
      .declare "datetime" "endTime" (.call "StructToTime" ["dt"]),
      .blank,
      .note "Window spans midnight: it started the previous day",
      .guardBelow ((var "endTime").le "startTime") (.subtract "startTime" 86400),
      .blank,
      .note "Today's window is not finished yet: use yesterday's",
      .branch ((var "now").lt "endTime")
        [.act (.subtract "startTime" 86400), .act (.subtract "endTime" 86400)],
      .blank,
      .declare "int" "startBar" (.call "iBarShift" [symbol, "tf", "startTime", false]),
      .declare "int" "endBar" (.call "iBarShift" [symbol, "tf", "endTime", false]),
      .guardBelow
        (.any [(var "startBar").lt 0, (var "endBar").lt 0, (var "startBar").le "endBar"]) .ret,
      .blank,
      .note "endBar itself opens at the window end and extends past it",
      .declare "int" "count" (var "startBar" - var "endBar"),
      .declare "int" "highestBar"
        (.call "iHighest" [symbol, "tf", "MODE_HIGH", "count", var "endBar" + 1]),
      .declare "int" "lowestBar"
        (.call "iLowest" [symbol, "tf", "MODE_LOW", "count", var "endBar" + 1]),
      .guardBelow (.any [(var "highestBar").lt 0, (var "lowestBar").lt 0]) .ret,
      .blank,
      .assign "high" (highOf "tf" "highestBar"),
      .assign "low" (lowOf "tf" "lowestBar")]

/-- Remember a price as a level. -/
def addLevel (price : Expr) : Action :=
  .assign (.index "levels" (.increasing "levelCount")) price

/-- A loop over the levels. -/
def eachLevel (i : Ident) : Loop :=
  .count i 0 ((var i).lt "levelCount") true

/-- The nearest levels below and above the price that were touched often enough. -/
def findLevels : Function where
  title := some "Nearest clustered swing levels below / above the current price"
  spaced := true
  result := "void"
  name := "FindSupportResistance"
  params :=
    [{ type := "ENUM_TIMEFRAMES", name := "tf" }, { type := "int", name := "lookback" },
      { type := "int", name := "minTouches" }, { type := "double", name := "zonePips" },
      { type := "double", name := "support", byReference := true },
      { type := "double", name := "resistance", byReference := true }]
  body :=
    [.assign "support" 0,
      .assign "resistance" 0,
      .declare "double" "currentPrice" bid,
      .declare "double" "zonePoints" (var "zonePips" * pipFactor * point),
      .blank,
      .act (.declareArray "double" "levels"),
      .declare "int" "levelCount" 0,
      .run (.call "ArrayResize" ["levels", var "lookback" * 2]),
      .blank,
      .note "Swing points: a high/low that is extreme against both neighbours",
      .loop (.count "i" 2 ((var "i").lt (var "lookback" - 1)) true)
        [.declare "double" "high_i" (highOf "tf" "i"),
          .act (.declare "double" "low_i" (some (lowOf "tf" "i")) 1),
          .blank,
          .guardBelow
            (.all [(var "high_i").ge (highOf "tf" (var "i" + 1)),
              (var "high_i").ge (highOf "tf" (var "i" - 1))])
            (addLevel "high_i"),
          .blank,
          .guardBelow
            (.all [(var "low_i").le (lowOf "tf" (var "i" + 1)),
              (var "low_i").le (lowOf "tf" (var "i" - 1))])
            (addLevel "low_i")],
      .blank,
      .guard ((var "levelCount").eq 0) .ret,
      .blank,
      .note "Cluster: every level within the zone of level i counts as a touch of i",
      .loop (eachLevel "i")
        [.declare "int" "touches" 0,
          .declare "double" "levelSum" 0,
          .blank,
          .loop (eachLevel "j")
            [.branch
              ((magnitude (.index "levels" "j" - .index "levels" "i")).le "zonePoints")
              [.act (.increment "touches"), .act (.add "levelSum" (.index "levels" "j"))]],
          .blank,
          .guard ((var "touches").lt "minTouches") .skip,
          .blank,
          .declare "double" "avgLevel" (var "levelSum" / var "touches"),
          .guardBelow
            (.all [(var "avgLevel").lt "currentPrice",
              .group (.any [(var "support").eq 0, (var "avgLevel").gt "support"])])
            (.assign "support" "avgLevel"),
          .guardBelow
            (.all [(var "avgLevel").gt "currentPrice",
              .group (.any [(var "resistance").eq 0, (var "avgLevel").lt "resistance"])])
            (.assign "resistance" "avgLevel")]]

/-! ## Range breakouts -/

/-- A window of the day by the clock. -/
structure Window where
  startHour : Int
  startMinute : Int
  endHour : Int
  endMinute : Int

def sessionWindow? (p : RangeBreakout) : Option Window :=
  match p.rangeType, p.rangeSession with
  | .session, .asian => some ⟨0, 0, 8, 0⟩
  | .session, .london => some ⟨8, 0, 16, 0⟩
  | .session, .newYork => some ⟨13, 0, 21, 0⟩
  | _, _ => none

def rangeInput (i : Nat) (tail : String) : Ident :=
  { stem := "InpRange", number := some i, tail }

/-- Is there a largest size of the range? -/
def RangeBreakout.isLimited (p : RangeBreakout) : Bool :=
  0.0 < p.maxRangePips

def rangeSizeInputs (n : Node) (i : Nat) (p : RangeBreakout) : List Input :=
  let title := "Range " ++ toString (i + 1)
  [n.doubleInput "bufferPips" (rangeInput i "Buffer") p.bufferPips (title ++ " Buffer (pips)"),
    n.doubleInput "minRangePips" (rangeInput i "MinRange") p.minRangePips
      (title ++ " Min Size (pips)")] ++
    (if p.isLimited then
      [n.doubleInput "maxRangePips" (rangeInput i "MaxRange") p.maxRangePips
        (title ++ " Max Size (pips)")]
    else [])

/-- The inputs of the window of a range, in a group of their own. -/
def windowInputs (n : Node) (i : Nat) (p : RangeBreakout) : List Input :=
  let title := "Range " ++ toString (i + 1)
  [n.intInput "sessionStartHour" (rangeInput i "StartHour") p.sessionStartHour
      (title ++ " Start Hour") (some title),
    n.intInput "sessionStartMinute" (rangeInput i "StartMin") p.sessionStartMinute
      (title ++ " Start Minute") (some title),
    n.intInput "sessionEndHour" (rangeInput i "EndHour") p.sessionEndHour
      (title ++ " End Hour") (some title),
    n.intInput "sessionEndMinute" (rangeInput i "EndMin") p.sessionEndMinute
      (title ++ " End Minute") (some title)]

/-- The high and the low of the last candles. -/
def candleRange (i : Nat) (tf : Expr) : List Stmt :=
  let v := paVar i
  [.declare "int" (v "HighBar")
      (.call "iHighest" [symbol, tf, "MODE_HIGH", rangeInput i "Lookback", 1]),
    .declare "int" (v "LowBar")
      (.call "iLowest" [symbol, tf, "MODE_LOW", rangeInput i "Lookback", 1]),
    .assign (v "High")
      (.choice (.group ((var (v "HighBar")).ge 0)) (highOf tf (v "HighBar")) 0),
    .assign (v "Low") (.choice (.group ((var (v "LowBar")).ge 0)) (lowOf tf (v "LowBar")) 0)]

/-- The high and the low of a window. -/
def windowRange (i : Nat) (tf : Expr) (p : RangeBreakout) : Stmt :=
  let bounds : List Expr :=
    match sessionWindow? p with
    | some w => [w.startHour, w.startMinute, w.endHour, w.endMinute]
    | none => ["StartHour", "StartMin", "EndHour", "EndMin"].map fun t => var (rangeInput i t)
  .run (.call "GetSessionRange" ([tf] ++ bounds ++
    [var (paVar i "High"), var (paVar i "Low"), !p.useServerTime]))

/-- The distance beyond the range that a breakout needs. -/
def rangeBuffer (i : Nat) : Expr :=
  var (rangeInput i "Buffer") * pipFactor * point

def breakoutAbove (i : Nat) (tf : Expr) (mode : BreakoutMode) : List Expr :=
  let high := var (paVar i "High")
  let edge := high + rangeBuffer i
  match mode with
  | .immediate => [ask.gt edge]
  | .onClose => [(closeOf tf 1).gt edge]
  | .afterRetest => [(closeOf tf 2).gt edge, (lowOf tf 1).le edge, (closeOf tf 1).gt high]

def breakoutBelow (i : Nat) (tf : Expr) (mode : BreakoutMode) : List Expr :=
  let low := var (paVar i "Low")
  let edge := low - rangeBuffer i
  match mode with
  | .immediate => [bid.lt edge]
  | .onClose => [(closeOf tf 1).lt edge]
  | .afterRetest => [(closeOf tf 2).lt edge, (highOf tf 1).ge edge, (closeOf tf 1).lt low]

def rangeValid (i : Nat) (p : RangeBreakout) : Expr :=
  let size := var (paVar i "Size")
  .group (.all ([(var (paVar i "High")).gt 0, (var (paVar i "Low")).gt 0, size.gt 0,
    size.ge (rangeInput i "MinRange")] ++
    (if p.isLimited then [size.le (rangeInput i "MaxRange")] else [])))

/-- A flag of a breakout: false on a side that does not count. -/
def breakoutFlag (i : Nat) (tail : String) (counts : Bool) (parts : List Expr) : Stmt :=
  .assign (paVar i tail) (if counts then .all (var (paVar i "Valid") :: parts) else false)

/-- The part of the program for a range breakout. -/
def rangeCode (n : Node) (i : Nat) (timeframe : Option String) (p : RangeBreakout) : Program :=
  let tf := periodOf timeframe
  let v := paVar i
  let fromCandles := p.rangeType == .previousCandles
  let isTunable := !fromCandles && (sessionWindow? p).isNone
  { inputs :=
      (if fromCandles then
        [n.intInput "lookbackCandles" (rangeInput i "Lookback") p.lookbackCandles
          ("Range " ++ toString (i + 1) ++ " Lookback Candles")]
      else []) ++ rangeSizeInputs n i p ++ (if isTunable then windowInputs n i p else [])
    globals :=
      [.scalar "double" (v "High") none none, .scalar "double" (v "Low") none none,
        .scalar "double" (v "Size") none none, .scalar "bool" (v "Valid") none none,
        .scalar "bool" (v "BreakoutUp") none none, .scalar "bool" (v "BreakoutDown") none none]
    tick :=
      [.note ("Range Breakout " ++ toString (i + 1))] ++
        (if fromCandles then candleRange i tf else [windowRange i tf p]) ++
        [.remarked
            (.assign (v "Size")
              (.group (var (v "High") - var (v "Low")) / .group (point * pipFactor)))
            "Range size in pips",
          .assign (v "Valid") (rangeValid i p)] ++
        (if p.entryMode == .afterRetest then
          [.note ("Retest: bar 2 closed beyond the range, bar 1 came back to the level and " ++
            "closed outside again")]
        else []) ++
        [breakoutFlag i "BreakoutUp" (p.breakoutDirection != .sellOnLow)
            (breakoutAbove i tf p.entryMode),
          breakoutFlag i "BreakoutDown" (p.breakoutDirection != .buyOnHigh)
            (breakoutBelow i tf p.entryMode),
          .blank]
    helpers := if fromCandles then [] else [.ofFunction sessionRange]
    bars := if fromCandles then (p.lookbackCandles + 1).toNat else 0 }

/-! ## Candle patterns -/

/-- The statements that look for a pattern. -/
def patternBody (i : Nat) (pattern : CandlePattern) : List Stmt :=
  let v (tail : String) : Expr := var (paVar i tail)
  let buy : Action := .assign (v "BuySignal") true
  let sell : Action := .assign (v "SellSignal") true
  let half : Expr := tenths 5
  let middle : Expr := .group (v "O3" + v "C3") / 2
  match pattern with
  | .engulfingBullish =>
    [.note "Bullish Engulfing: bearish candle 2 engulfed by bullish candle 1",
      .guard (.all [(v "C2").lt (v "O2"), (v "C1").gt (v "O1"), (v "Body1").ge (v "MinBody"),
        (v "C1").gt (v "O2"), (v "O1").lt (v "C2")]) buy]
  | .engulfingBearish =>
    [.note "Bearish Engulfing: bullish candle 2 engulfed by bearish candle 1",
      .guard (.all [(v "C2").gt (v "O2"), (v "C1").lt (v "O1"), (v "Body1").ge (v "MinBody"),
        (v "C1").lt (v "O2"), (v "O1").gt (v "C2")]) sell]
  | .doji =>
    [.note "Doji: tiny body, direction taken from the candle before",
      .branch (.all [(v "Range1").gt 0, (v "Body1").le (v "Range1" * tenths 1),
          (v "Range1").ge (v "MinBody")])
        [.guard ((v "C2").lt (v "O2")) buy, .guard ((v "C2").gt (v "O2")) sell]]
  | .hammer =>
    [.note "Hammer: small body at the top, long lower shadow",
      .guard (.all [(v "Body1").ge (v "MinBody"), (v "Range1").gt 0,
        (v "LowerShadow1").ge (v "Body1" * 2), (v "UpperShadow1").le (v "Body1" * half)]) buy]
  | .shootingStar =>
    [.note "Shooting Star: small body at the bottom, long upper shadow",
      .guard (.all [(v "Body1").ge (v "MinBody"), (v "Range1").gt 0,
        (v "UpperShadow1").ge (v "Body1" * 2), (v "LowerShadow1").le (v "Body1" * half)]) sell]
  | .morningStar =>
    [.note "Morning Star: 3-candle bullish reversal",
      .guardTall (.all [(v "C3").lt (v "O3"), (v "Body3").ge (v "MinBody")])
        [(v "Body2").lt (v "Body3" * half),
          .all [(v "C1").gt (v "O1"), (v "Body1").ge (v "MinBody")], (v "C1").gt middle] buy]
  | .eveningStar =>
    [.note "Evening Star: 3-candle bearish reversal",
      .guardTall (.all [(v "C3").gt (v "O3"), (v "Body3").ge (v "MinBody")])
        [(v "Body2").lt (v "Body3" * half),
          .all [(v "C1").lt (v "O1"), (v "Body1").ge (v "MinBody")], (v "C1").lt middle] sell]
  | .threeWhiteSoldiers =>
    [.note "Three White Soldiers: 3 bullish candles with higher closes",
      .guardTall (.all [(v "C3").gt (v "O3"), (v "Body3").ge (v "MinBody")])
        [.all [(v "C2").gt (v "O2"), (v "Body2").ge (v "MinBody"), (v "C2").gt (v "C3")],
          .all [(v "C1").gt (v "O1"), (v "Body1").ge (v "MinBody"), (v "C1").gt (v "C2")]] buy]
  | .threeBlackCrows =>
    [.note "Three Black Crows: 3 bearish candles with lower closes",
      .guardTall (.all [(v "C3").lt (v "O3"), (v "Body3").ge (v "MinBody")])
        [.all [(v "C2").lt (v "O2"), (v "Body2").ge (v "MinBody"), (v "C2").lt (v "C3")],
          .all [(v "C1").lt (v "O1"), (v "Body1").ge (v "MinBody"), (v "C1").lt (v "C2")]] sell]

/-- Each pattern once, at its first place. -/
def distinctPatterns : List CandlePattern → List CandlePattern
  | [] => []
  | p :: ps => p :: (distinctPatterns ps).filter (· != p)

def barPrices (i : Nat) (tf : Expr) (bar : Nat) : List Stmt :=
  let v (tail : String) : Ident := paVar i (tail ++ toString bar)
  [.declare "double" (v "O") (openOf tf (bar : Int)),
    .declare "double" (v "C") (closeOf tf (bar : Int)),
    .declare "double" (v "H") (highOf tf (bar : Int)),
    .declare "double" (v "L") (lowOf tf (bar : Int))]

def barBody (i : Nat) (bar : Nat) : Stmt :=
  let v (tail : String) : Ident := paVar i (tail ++ toString bar)
  .declare "double" (v "Body") (magnitude (var (v "C") - var (v "O")))

def barShadows (i : Nat) : List Stmt :=
  let v := paVar i
  [.declare "double" (v "UpperBody1") (larger (v "O1") (v "C1")),
    .declare "double" (v "LowerBody1") (smaller (v "O1") (v "C1")),
    .declare "double" (v "UpperShadow1") (var (v "H1") - var (v "UpperBody1")),
    .declare "double" (v "LowerShadow1") (var (v "LowerBody1") - var (v "L1"))]

/-- The third bar, which only patterns of three candles read. -/
def thirdBar (i : Nat) (tf : Expr) : List Stmt :=
  [.declare "double" (paVar i "O3") (openOf tf 3), .declare "double" (paVar i "C3") (closeOf tf 3),
    barBody i 3]

/-- The part of the program for candle patterns. -/
def candleCode (n : Node) (i : Nat) (timeframe : Option String) (p : CandlestickPatterns) :
    Program :=
  let tf := periodOf timeframe
  let v := paVar i
  let patterns := distinctPatterns p.patterns
  let isTriple := patterns.any CandlePattern.isTriple
  let minBody : Ident := { stem := "InpCP", number := some i, tail := "MinBody" }
  { inputs :=
      [n.doubleInput "minBodySize" minBody p.minBodySize
        ("Candle Pattern " ++ toString (i + 1) ++ " Min Body (pips)")]
    globals := [.scalar "bool" (v "BuySignal") none none, .scalar "bool" (v "SellSignal") none none]
    tick :=
      [.note ("Candlestick Pattern Detection " ++ toString (i + 1)),
        .assign (v "BuySignal") false,
        .assign (v "SellSignal") false,
        .declare "double" (v "MinBody") (var minBody * pipFactor * point)] ++
        barPrices i tf 1 ++ barPrices i tf 2 ++
        [barBody i 1, barBody i 2,
          .declare "double" (v "Range1") (var (v "H1") - var (v "L1"))] ++
        (if patterns.any CandlePattern.usesShadows then barShadows i else []) ++
        (if isTriple then thirdBar i tf else []) ++
        [.blank] ++ patterns.flatMap (patternBody i) ++ [.blank]
    bars := if isTriple then 4 else 3 }

/-! ## Support and resistance -/

/-- An input of a support and resistance node. -/
def levelInput (i : Nat) (tail : String) : Ident := { stem := "InpSR", number := some i, tail }

/-- Is the price near a level? -/
def isNear (i : Nat) (level : String) : Expr :=
  let level := var (paVar i level)
  .group (.all [level.gt 0,
    (magnitude (var (paVar i "Bid") - level)).le (paVar i "ZonePoints")])

/-- The part of the program for support and resistance. The levels are searched when a bar closes.
-/
def levelCode (n : Node) (i : Nat) (timeframe : Option String) (p : SupportResistance) : Program :=
  let v := paVar i
  let title := "S/R " ++ toString (i + 1)
  { inputs :=
      [n.intInput "lookbackPeriod" (levelInput i "Lookback") p.lookbackPeriod
          (title ++ " Lookback Period"),
        n.intInput "touchCount" (levelInput i "Touches") p.touchCount (title ++ " Min Touches"),
        n.doubleInput "zoneSize" (levelInput i "ZoneSize") p.zoneSize
          (title ++ " Zone Size (pips)")]
    globals :=
      [.scalar "double" (v "Support") none none, .scalar "double" (v "Resistance") none none,
        .scalar "bool" (v "NearSupport") none none, .scalar "bool" (v "NearResistance") none none]
    tick :=
      [.note ("Support/Resistance Detection " ++ toString (i + 1)),
        .branch (.any ["isNewBar", (var (v "Support")).eq 0])
          [.run (.call "FindSupportResistance" [periodOf timeframe, levelInput i "Lookback",
            levelInput i "Touches", levelInput i "ZoneSize", v "Support", v "Resistance"])],
        .declare "double" (v "ZonePoints") (var (levelInput i "ZoneSize") * pipFactor * point),
        .declare "double" (v "Bid") bid,
        .assign (v "NearSupport") (isNear i "Support"),
        .assign (v "NearResistance") (isNear i "Resistance"),
        .blank]
    helpers := [.ofFunction findLevels]
    bars := p.lookbackPeriod.toNat }

/-- The part of the program for the `i`-th live price action node. -/
def emitPriceAction (n : Node) (i : Nat) : Emission :=
  match n.data.payload with
  | .priceAction timeframe action =>
    { code :=
        match action with
        | .rangeBreakout p => rangeCode n i timeframe p
        | .candlestickPattern p => candleCode n i timeframe p
        | .supportResistance p => levelCode n i timeframe p
      log := Log.debug .priceAction
        ("Price action " ++ toString i ++ ": " ++ n.kind.name ++ " '" ++ n.id ++ "'") }
  | _ => Emission.fail (.unsupported .priceAction n.kind)

end TradeGraph

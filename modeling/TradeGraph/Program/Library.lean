import TradeGraph.Mql.Constant
import TradeGraph.Program.Basic
import TradeGraph.Program.Context

/-!
# Helper functions of emitted programs

The functions that emitted programs bring along: counting, closing and sizing positions, placing
orders, and deleting pending ones.
-/

namespace TradeGraph.Library

open Mql Mql.Platform
open Mql.Expr (var tenths quote)

/-! ## Loops over positions and orders -/

/-- The magic number of the program. -/
def magic : Expr := "InpMagicNumber"

/-- A loop from the last item down to the first. -/
def downFrom (count : Expr) : Loop :=
  .count "i" (count - 1) ((var "i").ge 0) false

def positionLoop : Loop := downFrom (.call "PositionsTotal" [])

/-- The tests that leave only positions of this program on this symbol. -/
def ownPosition : List Stmt :=
  [.guard ((positionInteger "POSITION_MAGIC").ne magic) .skip,
    .guard ((Expr.call "PositionGetString" ["POSITION_SYMBOL"]).ne symbol) .skip]

def positionTicket : Stmt :=
  .declare "ulong" "ticket" (.call "PositionGetTicket" ["i"])

/-- A loop over the positions of this program. -/
def eachOwnPosition (body : List Stmt) : Stmt :=
  .loop positionLoop
    ([positionTicket, .guard ((var "ticket").eq 0) .skip] ++ ownPosition ++ body)

/-! ## Counting -/

/-- A function that counts positions. -/
def counting (name : Ident) (params : List Param) (body : List Stmt) : Function where
  result := "int"
  name
  params
  body := [.declare "int" "count" 0, eachOwnPosition body, .act (.retWith "count")]

/-- The number of open positions. -/
def countPositions : Function :=
  counting "CountPositions" [] [.act (.increment "count")]

/-- The number of open positions of one type. -/
def countByType : Function :=
  counting "CountPositionsByType" [{ type := "ENUM_POSITION_TYPE", name := "type" }]
    [.guard ((Expr.cast "ENUM_POSITION_TYPE" (positionInteger "POSITION_TYPE")).eq "type")
      (.increment "count")]

/-! ## Comparing doubles -/

/-- A comparison of doubles that allows for rounding. -/
def comparison (name : Ident) (difference : Expr) (limit : Expr) : Function where
  result := "bool"
  name
  params := [{ type := "double", name := "a" }, { type := "double", name := "b" }]
  body := [.act (.retWith (difference.gt limit))]

def tolerance : Expr := .lit (.power 1 (-10))

/-- Four comparisons of doubles. -/
def comparisons : List Function :=
  [comparison "DoubleGT" (var "a" - var "b") tolerance,
    comparison "DoubleLT" (var "b" - var "a") tolerance,
    comparison "DoubleGE" (var "a" - var "b") (-tolerance),
    comparison "DoubleLE" (var "b" - var "a") (-tolerance)]

/-- The helper blocks that every program has. -/
def standard : List String :=
  [countPositions.text, Text.lines (comparisons.map Function.oneLine)]

/-! ## Sizing -/

/-- A lot rounded down to a step of the broker, within the broker's limits. -/
def normalizeLot : Function where
  result := "double"
  name := "NormalizeLot"
  params := [{ type := "double", name := "lot" }]
  body :=
    [.declare "double" "minLot" (symbolDouble "SYMBOL_VOLUME_MIN"),
      .declare "double" "maxLot" (symbolDouble "SYMBOL_VOLUME_MAX"),
      .declare "double" "step" (symbolDouble "SYMBOL_VOLUME_STEP"),
      .declare "int" "digits" 2,
      .branch ((var "step").gt 0)
        [.assign "lot" (.call "MathFloor" [var "lot" / var "step"] * var "step"),
          .assign "digits"
            (.cast "int" (larger 0
              (.call "MathCeil" [-(.call "MathLog10" ["step"]) - .lit (.power 1 (-9))])))],
      .assign "lot" (larger "minLot" (smaller "maxLot" "lot")),
      .act (.retWith (.call "NormalizeDouble" ["lot", "digits"]))]

/-- The lot at which the stop costs a share of the balance. -/
def lotSize : Function where
  result := "double"
  name := "CalculateLotSize"
  params := [{ type := "double", name := "riskPercent" }, { type := "double", name := "slPoints" }]
  body :=
    [.declare "double" "minLot" (symbolDouble "SYMBOL_VOLUME_MIN"),
      .guard ((var "slPoints").le 0) (.retWith "minLot"),
      .blank,
      .declare "double" "riskAmount"
        (accountDouble "ACCOUNT_BALANCE" * var "riskPercent" / tenths 1000),
      .declare "double" "tickValue" (symbolDouble "SYMBOL_TRADE_TICK_VALUE"),
      .declare "double" "tickSize" (symbolDouble "SYMBOL_TRADE_TICK_SIZE"),
      .guard (.any [(var "tickValue").le 0, (var "tickSize").le 0]) (.retWith "minLot"),
      .blank,
      .declare "double" "valuePerPoint" (var "tickValue" * .group (point / var "tickSize")),
      .act (.retWith (.call "NormalizeLot"
        [var "riskAmount" / .group (var "slPoints" * var "valuePerPoint")]))]

/-! ## Closing and deleting -/

def deletePending : Function where
  result := "void"
  name := "DeletePendingOrders"
  body :=
    [.loop (downFrom (.call "OrdersTotal" []))
      [.declare "ulong" "ticket" (.call "OrderGetTicket" ["i"]),
        .guard ((var "ticket").eq 0) .skip,
        .guard ((Expr.call "OrderGetInteger" ["ORDER_MAGIC"]).ne magic) .skip,
        .guard ((Expr.call "OrderGetString" ["ORDER_SYMBOL"]).ne symbol) .skip,
        .run (.send "trade" "OrderDelete" ["ticket"])]]

/-- Does the label name the buying side? -/
def isBuy (label : String) : Bool :=
  label == Side.buy.label

def closePositions (label : String) : Function :=
  let name := "Close" ++ label ++ "Positions"
  { result := "void"
    name
    body :=
      [eachOwnPosition
        [.guard ((positionInteger "POSITION_TYPE").ne
            (var (if isBuy label then "POSITION_TYPE_BUY" else "POSITION_TYPE_SELL"))) .skip,
          .guardBelow (.not (.send "trade" "PositionClose" ["ticket"]))
            (.run (.call "Print" [quote (name ++ ": failed to close #"), "ticket",
              quote ", retcode ", .send "trade" "ResultRetcode" []]))]] }

/-! ## Orders -/

def fillPrice (label : String) : Expr :=
  if isBuy label then ask else bid

/-- A distance from a price, on the side of the stop or of the target. -/
def away (above : Bool) (price distance : Expr) : Expr :=
  if above then price + distance else price - distance

/-- A level at a distance in points, or none for a distance of zero. -/
def levelAt (above : Bool) (price points : Expr) : Expr :=
  .choice (.group (points.gt 0)) (normalizePrice (away above price (points * point))) 0

/-- The stop and the target of an order at a price. -/
def protection (label : String) (price : Expr) : List Stmt :=
  [.declare "double" "sl" (levelAt (!isBuy label) price "slPoints"),
    .declare "double" "tp" (levelAt (isBuy label) price "tpPoints")]

def orderParams : List Param :=
  [{ type := "double", name := "lot" }, { type := "double", name := "slPoints" },
    { type := "double", name := "tpPoints" }]

/-- Open a position at the market, again after a requote, at most as often as the options say. -/
def openOrder (label : String) (options : Options) : Function where
  result := "bool"
  name := "Open" ++ label
  params := orderParams
  body :=
    [.declare "int" "attempt" 0,
      .loop (.during ((var "attempt").lt options.maxOrderRetries))
        ([.act (.increment "attempt"), .declare "double" "price" (fillPrice label)] ++
          protection label "price" ++
          [.blank,
            .branch (.send "trade" (if isBuy label then "Buy" else "Sell")
                ["lot", symbol, "price", "sl", "tp", "InpTradeComment"])
              [.declare "uint" "done" (.send "trade" "ResultRetcode" []),
                .guardBelow
                  (.any [(var "done").eq "TRADE_RETCODE_DONE",
                    (var "done").eq "TRADE_RETCODE_PLACED"])
                  (.retWith true)],
            .blank,
            .declare "uint" "retcode" (.send "trade" "ResultRetcode" []),
            .guardBelow
              (.all [(var "retcode").ne "TRADE_RETCODE_REQUOTE",
                (var "retcode").ne "TRADE_RETCODE_PRICE_OFF"])
              .stop,
            .run (.call "Sleep" [options.retryDelayMs])]),
      .run (.call "Print" [quote ("Open" ++ label ++ " failed after "), "attempt",
        quote " attempt(s), retcode ", .send "trade" "ResultRetcode" []]),
      .act (.retWith false)]

def pendingExpiry : Function where
  result := "datetime"
  name := "GetPendingExpiry"
  body :=
    [.guard ((var "InpPendingExpiryHours").le 0) (.retWith 0),
      .act (.retWith (.call "TimeCurrent" [] + var "InpPendingExpiryHours" * 3600))]

/-- The kind of a pending order as it occurs in names. -/
def pendingLabel (isStop : Bool) : String :=
  if isStop then "Stop" else "Limit"

/-- Is the entry above the price? A stop order lies beyond the price in the direction of the trade,
a limit order behind it. -/
def entersAbove (label : String) (isStop : Bool) : Bool :=
  isBuy label == isStop

/-- Place a pending order at an offset from the price, no closer than the broker allows. -/
def pendingOrder (label : String) (isStop : Bool) : Function :=
  let kind := pendingLabel isStop
  let name := "Place" ++ label ++ kind
  { result := "bool"
    name
    params := orderParams ++ [{ type := "double", name := "offsetPips" }]
    body :=
      [.declare "double" "price" (fillPrice label),
        .declare "double" "offset" (var "offsetPips" * pipFactor * point),
        .declare "double" "stopsLevel" (symbolInteger "SYMBOL_TRADE_STOPS_LEVEL" * point),
        .guard (.all [(var "stopsLevel").gt 0, (var "offset").lt "stopsLevel"])
          (.assign "offset" "stopsLevel"),
        .declare "double" "entry"
          (normalizePrice (away (entersAbove label isStop) "price" "offset"))] ++
        protection label "entry" ++
        [.declare "datetime" "expiry" (.call "GetPendingExpiry" []),
          .declare "ENUM_ORDER_TYPE_TIME" "timeType"
            (.choice (.group ((var "expiry").gt 0)) "ORDER_TIME_SPECIFIED" "ORDER_TIME_GTC"),
          .blank,
          .guardBelow (.send "trade" (label ++ kind)
              ["lot", "entry", symbol, "sl", "tp", "timeType", "expiry", "InpTradeComment"])
            (.retWith true),
          .run (.call "Print" [quote (name ++ " failed, retcode "),
            .send "trade" "ResultRetcode" []]),
          .act (.retWith false)] }

end TradeGraph.Library

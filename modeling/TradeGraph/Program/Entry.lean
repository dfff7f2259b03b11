import TradeGraph.Program.Risk
import TradeGraph.Program.Signals

/-!
# Entries

The entry block opens positions: it joins the conditions of each side, tests the gates once, and
places at most one order per side. Limits per day are counted here too.
-/

namespace TradeGraph

open Mql Mql.Platform
open Mql.Expr (var tenths)

/-- Conditions joined as a mode says; none at all never holds. -/
def joined (mode : ConditionMode) (es : List Expr) : Expr :=
  if es.isEmpty then false
  else
    match mode with
    | .all => .all es
    | .any => .any es

/-! ## Limits per day -/

/-- Is the number of trades per day limited? -/
def Settings.limitsTrades (s : Settings) : Bool :=
  0 < s.maxTradesPerDay

/-- Is the profit or the loss of a day limited? -/
def Settings.limitsResult (s : Settings) : Bool :=
  0.0 < s.maxDailyProfitPercent || 0.0 < s.maxDailyLossPercent

/-- The opening time of the day. -/
def dayStart : Expr := timeOf "PERIOD_D1" 0

/-- Count the trades of a day. -/
def dailyCounter : Program where
  globals :=
    [.scalar "datetime" "lastTradeDay" (some 0) none, .scalar "int" "tradesToday" (some 0) none]
  tick :=
    [.blank,
      .heading "Daily trade counter (resets on a new trading day)",
      .declare "datetime" "today" dayStart,
      .branch ((var "today").ne "lastTradeDay")
        [.assign "lastTradeDay" "today", .assign "tradesToday" 0]]

/-- Compare the result of a day with its limits. -/
def dailyLimits (s : Settings) : Program :=
  let limit (name : Ident) (value : Float) (comment : String) : Input :=
    { name, type := "double", value := .float value, comment, optimizable := false
      group := some "Risk Management" }
  let hit (test : Expr) : Stmt := .guard test (.assign "dailyLimitHit" true)
  let gains := 0.0 < s.maxDailyProfitPercent
  let losses := 0.0 < s.maxDailyLossPercent
  { inputs :=
      (if gains then
        [limit "InpMaxDailyProfitPct" s.maxDailyProfitPercent "Max daily profit (%)"]
      else []) ++
      (if losses then [limit "InpMaxDailyLossPct" s.maxDailyLossPercent "Max daily loss (%)"]
      else [])
    globals :=
      [.scalar "datetime" "plDayStart" (some 0) none,
        .scalar "double" "dayStartBalance" (some 0) none]
    tick :=
      [.blank,
        .heading "Daily profit / loss limits (realized + floating)",
        .declare "datetime" "plDay" dayStart,
        .branch ((var "plDay").ne "plDayStart")
          [.assign "plDayStart" "plDay",
            .assign "dayStartBalance" (accountDouble "ACCOUNT_BALANCE")],
        .declare "double" "dayPLPercent" 0,
        .guardBelow ((var "dayStartBalance").gt 0)
          (.assign "dayPLPercent"
            (.group (accountDouble "ACCOUNT_EQUITY" - var "dayStartBalance") /
              var "dayStartBalance" * tenths 1000)),
        .declare "bool" "dailyLimitHit" false] ++
        (if gains then [hit ((var "dayPLPercent").ge "InpMaxDailyProfitPct")] else []) ++
        (if losses then [hit ((var "dayPLPercent").le (-var "InpMaxDailyLossPct"))] else []) }

/-! ## Orders -/

def orderFunction (side : Side) (s : Sizing) (options : Options) : Function :=
  if s.isPending then Library.pendingOrder side.label (s.orderType == .stop)
  else Library.openOrder side.label options

def placeOrder (side : Side) (s : Sizing) (options : Options) (stop target : Expr) : Expr :=
  .call (orderFunction side s options).name
    ([var (lotVar side), stop, target] ++
      (if s.isPending then [var (sideInput side "PendingOffset")] else []))

/-- The constant of the positions of a side. -/
def positionType : Side → Expr
  | .buy => "POSITION_TYPE_BUY"
  | .sell => "POSITION_TYPE_SELL"

def Side.other : Side → Side
  | .buy => .sell
  | .sell => .buy

/-- The number of open positions of a side. -/
def positionsOf (side : Side) : Expr :=
  .call "CountPositionsByType" [positionType side]

def conditionVar (side : Side) : Ident := side.lower ++ "Condition"

def Settings.ceiling (s : Settings) : Side → Int
  | .buy => s.maxBuyPositions
  | .sell => s.maxSellPositions

/-- What a side needs in order to open a position. -/
def sideGate (s : Settings) (side : Side) : Expr :=
  .all ([var (conditionVar side), (positionsOf side).lt (s.ceiling side)] ++
    (if s.allowHedging then [] else [(positionsOf side.other).eq 0]))

/-- The target of a side: a multiple of the stop follows the stop of the side. -/
def targetExpr (side : Side) (program : Program) : Expr :=
  if side = .sell ∧ program.sidedStop ∧ program.targetMethod = some .riskReward then
    .group (var "slSellPips" * var "InpRiskReward")
  else "tpPips"

/-- What is done when an order went through. -/
def afterOrder (s : Settings) : List Stmt :=
  .assign "lastEntryBar" "currentBarTime" ::
    (if s.limitsTrades then [.act (.increment "tradesToday")] else [])

/-- Place the order of a side. -/
def sideBlock (ctx : Context) (program : Program) (side : Side) (s : Sizing) : Stmt :=
  .branch (sideGate ctx.settings side)
    [.branch
      (placeOrder side s ctx.options (stopVar side program.sidedStop) (targetExpr side program))
      (afterOrder ctx.settings)]

/-! ## The entry block -/

/-- The orders of the two sides. -/
structure Orders where
  buy : Option Node
  sell : Option Node

/-- What is said when a side has an order but no condition while the other side has some. -/
def missingSignal (side : Side) : Stmt :=
  .note ("WARNING: no signal produces a " ++ side.lower ++ " condition, " ++ side.lower ++
    " orders are never opened")

/-- Declare the conditions of the sides that have an order. -/
def conditionStmts (mode : ConditionMode) (orders : Orders) (c : Conditions) : List Stmt :=
  let declared (side : Side) (es : List Expr) : Stmt :=
    .declare "bool" (conditionVar side) (joined mode es)
  (if orders.buy.isSome then
    (if orders.sell.isSome && c.buys.isEmpty && !c.sells.isEmpty then [missingSignal .buy]
      else []) ++
      [declared .buy c.buys]
  else []) ++
  (if orders.sell.isSome then
    (if orders.buy.isSome && c.sells.isEmpty && !c.buys.isEmpty then [missingSignal .sell]
      else []) ++
      [declared .sell c.sells]
  else [])

def entryGates (ctx : Context) (program : Program) : List Expr :=
  let s := ctx.settings
  let timing : List Expr := if ctx.hasTiming then ["isTradingTime"] else []
  timing ++
    [(var "positionsCount").lt s.maxOpenTrades, "newBar"] ++ program.gates ++
    (if s.limitsTrades then [(var "tradesToday").lt s.maxTradesPerDay] else []) ++
    (if s.limitsResult then [.not "dailyLimitHit"] else [])

/-- Everything before the orders: conditions, the bar of the last entry, limits per day. -/
def entryOpening (ctx : Context) (orders : Orders) (c : Conditions) : Program :=
  let s := ctx.settings
  let conditions : Program :=
    { globals :=
        [.scalar "datetime" "lastEntryBar" (some 0) (some "Prevent multiple entries per bar")]
      tick :=
        [.blank, .heading "Entry Logic"] ++ conditionStmts s.conditionMode orders c ++
          [.blank, .heading "One entry per bar",
            .declare "bool" "newBar" (.group ((var "currentBarTime").ne "lastEntryBar"))] }
  conditions ++ (if s.limitsTrades then dailyCounter else {}) ++
    (if s.limitsResult then dailyLimits s else {})

def Node.sizing? (n : Node) : Option Sizing :=
  match n.data.payload with
  | .trading (.order _ s) => some s
  | _ => none

/-- Each side with its size; a node that is no order has none. -/
def orderSizes (orders : Orders) : Except Fault (List (Side × Sizing)) :=
  let size (side : Side) : Option Node → Except Fault (List (Side × Sizing))
    | none => .ok []
    | some n =>
      match n.sizing? with
      | some s => .ok [(side, s)]
      | none => .error .missingField
  do
    let buy ← size .buy orders.buy
    let sell ← size .sell orders.sell
    .ok (buy ++ sell)

/-- What pending orders need: an expiry, and a way to delete them. -/
def pendingNeeds (program : Program) : Program where
  inputs :=
    if program.hasInput "InpPendingExpiryHours" then []
    else
      [{ name := "InpPendingExpiryHours", type := "int", value := .int 24
         comment := "Pending Order Expiry (hours, 0=no expiry)", optimizable := false
         group := some "Pending Orders" }]
  helpers := [.ofFunction Library.pendingExpiry, .ofFunction Library.deletePending]

/-- Should one order cancel the other? For a node without such a field an extra entry counts. -/
def Node.cancelsOpposite (n : Node) : Bool :=
  match n.data.payload with
  | .priceAction _ (.rangeBreakout p) => p.cancelOpposite
  | _ => n.data.hasExtra "cancel_opposite"

/-- The orders behind their gates. -/
def executeBlock (ctx : Context) (program : Program) (sizes : List (Side × Sizing)) : Stmt :=
  let isPending := sizes.any fun (_, s) => s.isPending
  .branch (.all (entryGates ctx program))
    ((if isPending then
        [.remarked (.run (.call "DeletePendingOrders" [])) "replace stale pending orders"]
      else []) ++
      sizes.map fun (side, s) => sideBlock ctx program side s)

/-- The orders of an entry, and what they need. `program` is the program before the entry. -/
def entryOrders (ctx : Context) (program : Program) (inputs : List Input)
    (sizes : List (Side × Sizing)) (priceAction : List Node) : Emission :=
  let pending := sizes.filter fun (_, s) => s.isPending
  let support : Program :=
    if pending.isEmpty then {} else pendingNeeds (program ++ { inputs })
  let block : Program :=
    { tick := [.blank, .heading "Execute Entry", executeBlock ctx program sizes]
      helpers := .ofFunction Library.countByType ::
        sizes.map fun (side, s) => .ofFunction (orderFunction side s ctx.options) }
  let cancel : Program :=
    if !pending.isEmpty && priceAction.any Node.cancelsOpposite then
      { tick :=
          [.blank,
            .heading "One cancels other: drop the remaining pending orders once a position is open",
            .guard ((var "positionsCount").gt 0) (.run (.call "DeletePendingOrders" []))] }
    else {}
  { code := support ++ block ++ cancel
    log :=
      if pending.isEmpty then []
      else Log.debug .entries ("Entry logic: pending " ++
        "/".intercalate (pending.map fun (_, s) => Vocabulary.word s.orderType) ++ " order(s)") }

/-- The entry block. Without an order there is none. -/
def emitEntry (indicators priceAction : List Node) (orders : Orders) (ctx : Context) : Step :=
  fun program =>
    if orders.buy.isNone && orders.sell.isNone then {}
    else
      match allConditions indicators priceAction program with
      | (inputs, .error f) => { code := { inputs }, fault := some f }
      | (inputs, .ok c) =>
        let opening : Program := { inputs } ++ entryOpening ctx orders c
        let log := Log.debug .entries ("Entry logic: " ++ toString c.buys.length ++ " buy / " ++
          toString c.sells.length ++ " sell expressions joined with " ++
          ctx.settings.conditionMode.word)
        match orderSizes orders with
        | .error f => { code := opening, log, fault := some f }
        | .ok sizes =>
          let rest := entryOrders ctx program inputs sizes priceAction
          { code := opening ++ rest.code, log := log ++ rest.log }

end TradeGraph

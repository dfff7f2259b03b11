import TradeGraph.Liveness
import TradeGraph.Program.Atr
import TradeGraph.Program.Library
import TradeGraph.Program.PriceAction

/-!
# Risk: stop loss, take profit, size

The stop sets `slPips` and, where the two sides differ, `slSellPips`; the target sets `tpPips`; each
order sets its lot. Distances are in points. The stop comes first, because sizes depend on it.
-/

namespace TradeGraph

open Mql Mql.Platform
open Mql.Expr (var tenths)

/-! ## The indicator of a stop -/

/-- The place of the last node with an id. -/
def lastIndex? (nodes : List Node) (id : String) : Option Nat :=
  (nodes.zipIdx.filter fun (n, _) => n.id == id).getLast?.map Prod.snd

structure Numbered where
  node : Node
  index : Nat

/-- The number of the node at a place: that of the first node that says the same. -/
def numbered? (nodes : List Node) (place : Nat) : Option Numbered :=
  nodes[place]?.map fun n =>
    { node := n
      index := ((nodes.take place).findIdx? fun m => m.same n).getD place }

/-- The place of the indicator that a stop refers to: the one it names, else the first one at the
other end of one of its edges. A name must be one of the known ids. -/
def stopIndicator (id : String) (stop : StopLoss) (indicators : List Node) (edges : List Edge)
    (known : List String) : Except Fault (Option Nat) :=
  let linked := (neighbours id edges).findSome? (lastIndex? indicators)
  match stop.indicatorNodeId with
  | none => .ok linked
  | some name =>
    if name.isEmpty then .ok linked
    else if !known.contains name then .error (.inNode id (.unknownIndicator name))
    else .ok (lastIndex? indicators name <|> linked)

/-! ## Stop loss -/

def stopGroup : Option String := some "Stop Loss"

def atLeastTenPips (distance : Expr) : Expr :=
  larger distance (10 * pipFactor)

def fixedStop (n : Node) (pips : Float) (remark : String) : Program where
  inputs := [n.doubleInput "fixedPips" "InpStopLoss" pips "Stop Loss (pips)" stopGroup]
  tick := [.remarked (.declare "double" "slPips" (var "InpStopLoss" * pipFactor)) remark]

/-- A stop at a share of the price. -/
def percentStop (n : Node) (percent : Float) : Program :=
  let share (price : Expr) : Expr :=
    .group (price * var "InpSLPercent" / tenths 1000) / point
  { inputs := [n.doubleInput "slPercent" "InpSLPercent" percent "Stop Loss (%)" stopGroup]
    tick := [.declare "double" "slPips" (share ask), .declare "double" "slSellPips" (share bid)]
    sidedStop := true }

/-- A stop at a multiple of the average true range. -/
def atrStop (n : Node) (p : StopLoss) : Program :=
  { inputs :=
      [n.input "atrTimeframe" "InpATRSLTimeframe" "ENUM_AS_TIMEFRAMES"
          (.text (sweptPeriod (p.atrTimeframe.getD ""))) "ATR Timeframe for SL" stopGroup,
        n.intInput "atrPeriod" "InpATRPeriod" p.atrPeriod "ATR Period for SL" stopGroup,
        n.doubleInput "atrMultiplier" "InpATRMultiplier" p.atrMultiplier "ATR Multiplier for SL"
          stopGroup]
    tick :=
      [stopAtr.refresh "atrOk",
        .declare "double" "slPips" (.choice "atrOk" (stopAtr.points "InpATRMultiplier") 0)]
    gates := ["atrOk"]
    bars := p.atrPeriod.toNat } ++
    stopAtr.setup (.cast "ENUM_TIMEFRAMES" "InpATRSLTimeframe") "InpATRPeriod" "SL"

def rangeStop (i : Nat) : Program where
  tick :=
    [.heading "Range Opposite SL: use range high/low as stop loss",
      .declare "double" "slPips"
        (atLeastTenPips (.group (ask - var (paVar i "Low")) / point)),
      .declare "double" "slSellPips"
        (atLeastTenPips (.group (var (paVar i "High") - bid) / point))]
  sidedStop := true

/-- An input of a stop that no node's field stands behind. -/
def stopInput (name : Ident) (value : Scalar) (comment : String) : Input where
  name
  type := "double"
  value
  comment
  optimizable := false
  group := stopGroup

/-- A stop measured by an indicator; one that measures no distance leaves the fixed distance. -/
def indicatorStop (n : Node) (fixedPips : Float) (indicator : Numbered) : Program :=
  let newest (tail : String) : Expr := .index (var (indVar indicator.index tail)) 0
  let measured : Option Program :=
    match indicator.node.data.payload with
    | .indicator _ (.bollingerBands _) =>
      let buffer : Expr := .group (var "InpBBSLBuffer" * pipFactor)
      some
        { inputs := [stopInput "InpBBSLBuffer" (.int 5) "Additional buffer pips for BB SL"]
          tick :=
            [.note "Indicator-based SL using Bollinger Bands (direction-aware)",
              .declare "double" "slPrice" bid,
              .declare "double" "distToLower"
                (magnitude (var "slPrice" - newest "LowerBuffer") / point),
              .declare "double" "distToUpper"
                (magnitude (newest "UpperBuffer" - var "slPrice") / point),
              .remarked (.declare "double" "slPips" (atLeastTenPips (var "distToLower" + buffer)))
                "Buy direction",
              .remarked
                (.declare "double" "slSellPips" (atLeastTenPips (var "distToUpper" + buffer)))
                "Sell direction"]
          sidedStop := true }
    | .indicator _ (.movingAverage _) =>
      some
        { inputs := [stopInput "InpMASLMultiplier" (.float 1.5) "MA SL distance multiplier"]
          tick :=
            [.note "Indicator-based SL using Moving Average",
              .declare "double" "distToMA" (magnitude (bid - newest "Buffer") / point),
              .remarked
                (.declare "double" "slPips"
                  (atLeastTenPips (var "distToMA" * var "InpMASLMultiplier")))
                "Minimum 10 pips SL"] }
    | .indicator _ (.atr _) =>
      some
        { inputs := [stopInput "InpATRSLMultiplier" (.float 1.5) "ATR SL multiplier"]
          tick :=
            [.note "Indicator-based SL using ATR",
              .declare "double" "slPips"
                (.group (newest "Buffer" / point) * var "InpATRSLMultiplier")] }
    | .indicator _ (.adx _) =>
      some
        { inputs :=
            [stopInput "InpADXSLBase" (.int 50) "Base SL pips when ADX is at trend level"]
          tick :=
            [.note "Indicator-based SL using ADX: stronger trend, tighter stop",
              .remarked
                (.declare "double" "slMultiplier"
                  (tenths 20 - .group (newest "MainBuffer" / tenths 1000)))
                "1.0 .. 2.0",
              .declare "double" "slPips" (var "InpADXSLBase" * var "slMultiplier" * pipFactor)] }
    | _ => none
  measured.getD
    (fixedStop n fixedPips (indicator.node.kind.name ++ " not suitable for SL calculation"))

/-- The part of the program for a stop that refers to an indicator. -/
def emitIndicatorStop (n : Node) (p : StopLoss) (indicators : List Node) (edges : List Edge)
    (known : List String) (ctx : Context) : Emission :=
  match stopIndicator n.id p indicators edges known with
  | .error f => Emission.fail f
  | .ok place =>
    match place.bind (numbered? indicators) with
    | some hit =>
      { code := indicatorStop n p.fixedPips hit
        log := Log.debug .trading ("Stop loss '" ++ n.id ++ "' uses indicator '" ++ hit.node.id ++
          "' (" ++ hit.node.kind.name ++ ")") }
    | none =>
      if ctx.options.strictStopLoss then Emission.fail (.inNode n.id .noIndicator)
      else
        { code :=
            { tick :=
                [.remarked (.declare "double" "slPips" 0)
                  ("WARNING: indicator-based stop loss has no connected indicator, no stop " ++
                    "loss is set")] }
          log := Log.warning .trading ("Stop loss '" ++ n.id ++ "' is indicator-based but no " ++
            "indicator is connected; trading without a stop") }

def Node.isRangeBreakout (n : Node) : Bool :=
  n.kind == .rangeBreakout

/-- The part of the program for a stop. Its method counts as chosen even if the stop has a fault. -/
def emitStopLoss (n : Node) (indicators priceAction : List Node) (edges : List Edge)
    (known : List String) (ctx : Context) : Emission :=
  match n.data.payload with
  | .trading (.stopLoss p) =>
    let e : Emission :=
      match p.method with
      | .fixedPips => { code := fixedStop n p.fixedPips "Convert to points" }
      | .percent => { code := percentStop n p.slPercent }
      | .atrBased => { code := atrStop n p }
      | .rangeOpposite =>
        match priceAction.findIdx? Node.isRangeBreakout with
        | some i => { code := rangeStop i }
        | none => Emission.fail (.inNode n.id .noRange)
      | .indicator => emitIndicatorStop n p indicators edges known ctx
    { e with code := { stopMethod := some p.method } ++ e.code }
  | _ => Emission.fail (.unsupported .stopLoss n.kind)

/-! ## Take profit -/

def targetGroup : Option String := some "Take Profit"

/-- A target at a multiple of the average true range, with the handle of the stop if there is one.
-/
def atrTarget (n : Node) (p : TakeProfit) (shared : Bool) : Program :=
  let factor :=
    n.doubleInput "atrMultiplier" "InpTPATRMultiplier" p.atrMultiplier "ATR Multiplier for TP"
      targetGroup
  let distance (ready : Expr) (names : AtrNames) : Stmt :=
    .declare "double" "tpPips" (.choice ready (names.points "InpTPATRMultiplier") 0)
  if shared then { inputs := [factor], tick := [distance "atrOk" stopAtr] }
  else
    { inputs :=
        [factor, n.intInput "atrPeriod" "InpTPATRPeriod" p.atrPeriod
        "ATR Period for TP" targetGroup]
      tick := [targetAtr.refresh "tpAtrOk", distance "tpAtrOk" targetAtr]
      gates := ["tpAtrOk"]
      bars := p.atrPeriod.toNat } ++
      targetAtr.setup chart "InpTPATRPeriod" "TP"

/-- The part of the program for a target. -/
def emitTakeProfit (n : Node) : Step := fun program =>
  match n.data.payload with
  | .trading (.takeProfit p) =>
    let code : Program :=
      match p.method with
      | .fixedPips =>
        { inputs :=
            [n.doubleInput "fixedPips" "InpTakeProfit" p.fixedPips "Take Profit (pips)" targetGroup]
          tick :=
            [.remarked (.declare "double" "tpPips" (var "InpTakeProfit" * pipFactor))
              "Convert to points"] }
      | .riskReward =>
        { inputs :=
            [n.doubleInput "riskRewardRatio" "InpRiskReward" p.riskRewardRatio "Risk:Reward Ratio"
              targetGroup]
          tick := [.declare "double" "tpPips" (var "slPips" * var "InpRiskReward")] }
      | .atrBased => atrTarget n p (program.mentions "int atrHandle")
    { code := { targetMethod := some p.method } ++ code }
  | _ => Emission.fail (.unsupported .takeProfit n.kind)

/-! ## Size -/

def sideInput (side : Side) (tail : String) : Ident := "Inp" ++ side.label ++ tail

def lotVar (side : Side) : Ident := side.lower ++ "LotSize"

/-- The distance of the stop of a side. -/
def stopVar (side : Side) (sided : Bool) : Expr :=
  if side = .sell ∧ sided then "slSellPips" else "slPips"

/-- The lot that risks a share of the balance at a distance of the stop. -/
def riskLot (side : Side) (distance : Expr) : Expr :=
  .call "CalculateLotSize" [sideInput side "RiskPercent", distance]

/-- A percent stop of a pending order is measured from the price at which it will enter. -/
def pendingRisk (side : Side) (isStop : Bool) : Stmt :=
  .scope
    [.declare "double" "pendEntry"
        (Library.away (Library.entersAbove side.label isStop) (Library.fillPrice side.label)
          (var (sideInput side "PendingOffset") * pipFactor * point)),
      .declare "double" "adjSlPips"
        (.group (var "pendEntry" * var "InpSLPercent" / tenths 1000) / point),
      .assign (lotVar side) (riskLot side "adjSlPips")]

/-- The part of the program that finds the lot of a side. -/
def sizingCode (n : Node) (side : Side) (s : Sizing) (program : Program) : Program :=
  let group := some (side.label ++ " Order")
  let number (field tail : String) (value : Float) (comment : String) : Input :=
    n.doubleInput field (sideInput side tail) value (side.label ++ " " ++ comment) group
  let offset :=
    if s.isPending then
      [number "pendingOffset" "PendingOffset" s.pendingOffset "Pending Offset (pips)"]
    else []
  let start : Program :=
    match s.method with
    | .fixedLot =>
      { inputs := offset ++ [number "fixedLot" "LotSize" s.fixedLot "Lot Size"]
        tick := [.declare "double" (lotVar side) (sideInput side "LotSize")] }
    | .riskPercent =>
      { inputs := offset ++ [number "riskPercent" "RiskPercent" s.riskPercent "Risk %"]
        tick :=
          .declare "double" (lotVar side) (riskLot side (stopVar side program.sidedStop)) ::
            (if s.isPending && program.stopMethod == some .percent then
              [pendingRisk side (s.orderType == .stop)]
            else [])
        helpers := [.ofFunction Library.lotSize] }
  start ++
    { inputs :=
        [number "minLot" "MinLot" s.minLot "Minimum Lot",
          number "maxLot" "MaxLot" s.maxLot "Maximum Lot"]
      tick :=
        [.assign (lotVar side)
          (.call "NormalizeLot"
            [larger (sideInput side "MinLot") (smaller (sideInput side "MaxLot") (lotVar side))])]
      helpers := [.ofFunction Library.normalizeLot] }

/-- The part of the program that finds the lot of a side, for an order node of either side. -/
def emitOrder (side : Side) (n : Node) : Step := fun program =>
  match n.data.payload with
  | .trading (.order _ s) => { code := sizingCode n side s program }
  | _ => Emission.fail (.unsupported .position n.kind)

end TradeGraph

import TradeGraph.Graph
import TradeGraph.Log

/-!
# Expansion of entry strategies

Every entry strategy node is replaced by its signals, its orders, a stop loss and a take profit.
Edges that touched it now touch every one of its signals.
-/

namespace TradeGraph

/-- A node to be made: its role, its label, the flags of its fields and its payload. -/
structure Part where
  role : String
  label : String
  flags : Option (List String)
  payload : Payload

/-- The fields of the new node that the optimizer may vary: those whose source may be varied. Each
pair is a field of the strategy and the field that it becomes. -/
def carryFlags (common : Common) (pairs : List (String × String)) : Option (List String) :=
  common.optimizableFields.map fun fields =>
    pairs.filterMap fun (source, target) => if fields.contains source then some target else none

/-! ## Signals -/

/-- What a signal needs to know of its strategy. -/
structure Origin where
  id : String
  kind : Kind
  common : Common

namespace Origin

/-- The shared fields of a signal that belongs to the strategy: it is read on closed bars. -/
def signal (o : Origin) (role : String) (timeframe : Option String) : Signal :=
  { (default : Signal) with
    timeframe
    signalMode := .candleClose
    entryStrategyType := some o.kind.name
    entryStrategyId := some o.id
    role := some role }

/-- The flags of a new node. -/
def flags (o : Origin) (pairs : List (String × String)) : Option (List String) :=
  carryFlags o.common pairs

/-- A moving average on a higher timeframe that only filters. -/
def trendFilter (o : Origin) (timeframe : String) (period : Int) (price : PriceField) : Part where
  role := "htf-ema"
  label := "HTF EMA(" ++ toString period ++ ")"
  flags := o.flags [("htfEma", "period")]
  payload :=
    .indicator { o.signal "htf-ema" (some timeframe) with filterRole := some .trend }
      (.movingAverage
        { (default : MovingAverage) with period, method := .ema, appliedPrice := price })

/-- The signals of a crossover of moving averages. -/
def emaCrossover (o : Origin) (plan : EntryPlan) (p : EmaCrossover) : List Part :=
  let leg (role position label source : String) (period : Int) : Part :=
    { role
      label := label ++ " EMA(" ++ toString period ++ ")"
      flags := o.flags [(source, "period")]
      payload :=
        .indicator
          { o.signal position plan.timeframe with minEmaSeparation := p.minEmaSeparation }
          (.movingAverage
            { (default : MovingAverage) with
              period, method := .ema, appliedPrice := p.appliedPrice }) }
  let confirmation : Part :=
    { role := "rsi-confirm"
      label := "RSI(" ++ toString p.rsiPeriod ++ ") confirmation"
      flags := o.flags [("rsiPeriod", "period"), ("rsiLongMax", "overboughtLevel"),
        ("rsiShortMin", "oversoldLevel")]
      payload :=
        .indicator { o.signal "rsi-confirm" plan.timeframe with filterRole := some .confirm }
          (.rsi
            { (default : Rsi) with
              period := p.rsiPeriod
              overboughtLevel := p.rsiLongMax
              oversoldLevel := p.rsiShortMin }) }
  [leg "ma-fast" "fast" "Fast" "fastEma" p.fastEma, leg "ma-slow" "slow" "Slow" "slowEma" p.slowEma]
    ++ (if p.htfTrendFilter then [o.trendFilter p.htfTimeframe p.htfEma p.appliedPrice] else [])
    ++ (if p.rsiConfirmation then [confirmation] else [])

def trendPullback (o : Origin) (plan : EntryPlan) (p : TrendPullback) : List Part :=
  let trend : Part :=
    { role := "trend-ema"
      label := "Trend EMA(" ++ toString p.trendEma ++ ")"
      flags := o.flags [("trendEma", "period")]
      payload :=
        .indicator
          { o.signal "trend" plan.timeframe with
            requireEmaBuffer := p.requireEmaBuffer
            pullbackMaxDistance := p.pullbackMaxDistance }
          (.movingAverage { (default : MovingAverage) with period := p.trendEma, method := .ema }) }
  let pullback : Part :=
    { role := "rsi"
      label := "Pullback RSI(" ++ toString p.pullbackRsiPeriod ++ ")"
      flags := o.flags [("pullbackRsiPeriod", "period"), ("rsiPullbackLevel", "oversoldLevel")]
      payload :=
        .indicator (o.signal "pullback" plan.timeframe)
          (.rsi
            { (default : Rsi) with
              period := p.pullbackRsiPeriod
              oversoldLevel := p.rsiPullbackLevel
              overboughtLevel := 100.0 - p.rsiPullbackLevel }) }
  let strength : Part :=
    { role := "adx"
      label := "ADX(" ++ toString p.adxPeriod ++ ") filter"
      flags := o.flags [("adxPeriod", "period"), ("adxThreshold", "trendLevel")]
      payload :=
        .indicator { o.signal "adx" plan.timeframe with filterRole := some .strength }
          (.adx { period := p.adxPeriod, trendLevel := p.adxThreshold }) }
  [trend, pullback] ++ (if p.useAdxFilter then [strength] else [])

def rsiReversal (o : Origin) (plan : EntryPlan) (p : RsiReversal) : List Part :=
  let reversal : Part :=
    { role := "rsi"
      label := "RSI(" ++ toString p.rsiPeriod ++ ")"
      flags := o.flags [("rsiPeriod", "period"), ("overboughtLevel", "overboughtLevel"),
        ("oversoldLevel", "oversoldLevel")]
      payload :=
        .indicator (o.signal "reversal" plan.timeframe)
          (.rsi
            { (default : Rsi) with
              period := p.rsiPeriod
              overboughtLevel := p.overboughtLevel
              oversoldLevel := p.oversoldLevel }) }
  let trend : Part :=
    { role := "trend-ema"
      label := "Trend EMA(" ++ toString p.trendEma ++ ")"
      flags := o.flags [("trendEma", "period")]
      payload :=
        .indicator { o.signal "trend" plan.timeframe with filterRole := some .trend }
          (.movingAverage { (default : MovingAverage) with period := p.trendEma, method := .ema }) }
  reversal :: (if p.trendFilter then [trend] else [])

/-- The signal of a crossover of a convergence divergence. -/
def macdCrossover (o : Origin) (plan : EntryPlan) (p : MacdCrossover) : List Part :=
  [{ role := "macd"
     label := "MACD(" ++ toString p.macdFast ++ "," ++ toString p.macdSlow ++ "," ++
       toString p.macdSignal ++ ")"
     flags := o.flags [("macdFast", "fastPeriod"), ("macdSlow", "slowPeriod"),
       ("macdSignal", "signalPeriod")]
     payload :=
       .indicator (o.signal "crossover" plan.timeframe)
         (.macd
           { (default : Macd) with
             fastPeriod := p.macdFast
             slowPeriod := p.macdSlow
             signalPeriod := p.macdSignal }) }]

/-- Where the range of a breakout strategy comes from. -/
def rangeSource : RangeMethod → RangeType × RangeSession
  | .candles => (.previousCandles, .asian)
  | .asianSession => (.session, .asian)
  | .londonSession => (.session, .london)
  | .newYorkSession => (.session, .newYork)
  | .customTime => (.timeWindow, .custom)

def rangeBreakout (o : Origin) (p : RangeEntry) : List Part :=
  let source := rangeSource p.rangeMethod
  let range : Part :=
    { role := "range"
      label := "Range Breakout"
      flags := o.flags [("rangePeriod", "lookbackCandles"), ("bufferPips", "bufferPips"),
        ("minRangePips", "minRangePips"), ("maxRangePips", "maxRangePips"),
        ("customStartHour", "sessionStartHour"), ("customStartMinute", "sessionStartMinute"),
        ("customEndHour", "sessionEndHour"), ("customEndMinute", "sessionEndMinute")]
      payload :=
        .priceAction (some p.rangeTimeframe)
          (.rangeBreakout
            { (default : RangeBreakout) with
              rangeType := source.1
              rangeSession := source.2
              lookbackCandles := p.rangePeriod
              sessionStartHour := p.customStartHour
              sessionStartMinute := p.customStartMinute
              sessionEndHour := p.customEndHour
              sessionEndMinute := p.customEndMinute
              breakoutDirection := .both
              entryMode := p.entryMode
              bufferPips := p.bufferPips
              minRangePips := p.minRangePips
              maxRangePips := p.maxRangePips
              cancelOpposite := p.cancelOpposite }) }
  range :: (if p.htfTrendFilter then [o.trendFilter p.htfTimeframe p.htfEma .close] else [])

def signals (o : Origin) (plan : EntryPlan) : EntrySignals → List Part
  | .emaCrossover p => o.emaCrossover plan p
  | .trendPullback p => o.trendPullback plan p
  | .rsiReversal p => o.rsiReversal plan p
  | .macdCrossover p => o.macdCrossover plan p
  | .rangeBreakout p => o.rangeBreakout p

/-! ## Risk -/

/-- The order of one side, sized by risk. -/
def order (o : Origin) (plan : EntryPlan) (side : Side) : Part where
  role := side.lower
  label := "Place " ++ side.label
  flags := o.flags [("riskPercent", "riskPercent")]
  payload :=
    .trading (.order side
      { (default : Sizing) with
        method := .riskPercent
        riskPercent := plan.riskPercent
        minLot := 0.01
        maxLot := 100.0 })

/-- The orders of the sides that the strategy trades. -/
def orders (o : Origin) (plan : EntryPlan) : List Part :=
  (if plan.direction != .sell then [o.order plan .buy] else []) ++
    (if plan.direction != .buy then [o.order plan .sell] else [])

/-- How the stop of a strategy is found. -/
def stopMethod : EntryStop → StopMethod
  | .atr => .atrBased
  | .pips => .fixedPips
  | .percent => .percent
  | .rangeOpposite => .rangeOpposite

/-- The stop loss of a strategy. -/
def stop (o : Origin) (plan : EntryPlan) : Part where
  role := "sl"
  label := "Stop Loss"
  flags := o.flags [("slFixedPips", "fixedPips"), ("slPercent", "slPercent"),
    ("slAtrMultiplier", "atrMultiplier"), ("slAtrPeriod", "atrPeriod")]
  payload :=
    .trading (.stopLoss
      { (default : StopLoss) with
        method := stopMethod plan.slMethod
        fixedPips := plan.slFixedPips
        slPercent := plan.slPercent
        atrMultiplier := plan.slAtrMultiplier
        atrPeriod := plan.slAtrPeriod
        atrTimeframe := plan.timeframe })

/-- The take profit of a strategy: a multiple of its stop. -/
def target (o : Origin) (plan : EntryPlan) : Part where
  role := "tp"
  label := "Take Profit"
  flags := o.flags [("tpRMultiple", "riskRewardRatio")]
  payload :=
    .trading (.takeProfit
      { (default : TakeProfit) with
        method := .riskReward
        riskRewardRatio := plan.tpRMultiple })

end Origin

/-! ## Subgraphs -/

/-- The nodes that replace a strategy, and the edges between them. -/
structure Subgraph where
  signals : List Node
  nodes : List Node
  edges : List Edge

/-- The id of a node that belongs to another one. -/
def partId (id role : String) : String :=
  id ++ "__" ++ role

def Part.toNode (p : Part) (id : String) (position : Json) : Node where
  id := partId id p.role
  type := p.payload.kind.name
  data :=
    { common := { label := p.label, category := none, optimizableFields := p.flags }
      payload := p.payload }
  position

/-- Edges between pairs of ids, numbered in order. -/
def wire (id : String) (pairs : List (String × String)) : List Edge :=
  pairs.zipIdx.map fun ((source, target), i) =>
    { id := partId id ("e" ++ toString i), source, target }

/-- The subgraph of a node, if it is an entry strategy: signals lead to orders, and orders to the
stop and the target. -/
def Node.expand (n : Node) : Option Subgraph :=
  match n.data.payload with
  | .entry plan signals =>
    let origin : Origin := { id := n.id, kind := n.kind, common := n.data.common }
    let node (p : Part) : Node := p.toNode n.id n.position
    let signalNodes := (origin.signals plan signals).map node
    let orders := (origin.orders plan).map node
    let stop := node (origin.stop plan)
    let target := node (origin.target plan)
    let toOrders := signalNodes.flatMap fun s => orders.map fun o => (s.id, o.id)
    let toRisk := orders.flatMap fun o => [(o.id, stop.id), (o.id, target.id)]
    some
      { signals := signalNodes
        nodes := signalNodes ++ orders ++ [stop, target]
        edges := wire n.id (toOrders ++ toRisk) }
  | _ => none

/-- Is the node an entry strategy? -/
def Node.isComposite (n : Node) : Bool :=
  n.category == .entryStrategy

/-! ## Graphs -/

/-- The ids that stand for an id after expansion: those of the signals of the last strategy of that
id, the id itself if there is none. -/
def standIns (nodes : List Node) (id : String) : List String :=
  match (nodes.filter fun n => n.isComposite && n.id == id).getLast? with
  | some n => (n.expand.map fun s => s.signals.map Node.id).getD [id]
  | none => [id]

/-- The edges that replace an edge. -/
def fanOut (nodes : List Node) (e : Edge) : List Edge :=
  let sources := standIns nodes e.source
  let targets := standIns nodes e.target
  if sources = [e.source] ∧ targets = [e.target] then [e]
  else
    let pairs := sources.flatMap fun s => targets.map fun t => (s, t)
    pairs.zipIdx.map fun ((source, target), i) =>
      { id := partId e.id (toString i), source, target }

/-- A graph without entry strategies, and what was logged on the way. -/
structure Expanded where
  nodes : List Node
  edges : List Edge
  log : Log

def expandNode (n : Node) : List Node :=
  match n.expand with
  | some s => s.nodes
  | none => [n]

/-- What is said of an expanded node. -/
def expansionLog (n : Node) : Log :=
  match n.expand with
  | some s =>
    Log.debug .expansion ("Expanded " ++ n.kind.name ++ " '" ++ n.id ++ "' into " ++
      toString s.nodes.length ++ " nodes (" ++ ", ".intercalate (s.nodes.map Node.id) ++ ")")
  | none => []

/-- Replace every entry strategy. -/
def expand (nodes : List Node) (edges : List Edge) : Expanded :=
  let composites := nodes.filter Node.isComposite
  { nodes := nodes.flatMap expandNode
    edges := edges.flatMap (fanOut nodes) ++
      nodes.flatMap fun n => (n.expand.map Subgraph.edges).getD []
    log := nodes.flatMap expansionLog ++
      (if composites.isEmpty then []
       else Log.info .expansion
        ("Decomposed " ++ toString composites.length ++ " entry strategy node(s)")) }

end TradeGraph

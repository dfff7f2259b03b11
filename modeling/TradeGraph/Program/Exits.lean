import TradeGraph.Program.Entry
import TradeGraph.Program.Timing

/-!
# Exits

A close condition closes positions when a node joined to it gives the opposite signal. A time exit
closes them after a number of bars or at a time of day; from that time on no position is opened.
-/

namespace TradeGraph

open Mql Mql.Platform
open Mql.Expr (var quote)

/-! ## Opposite signals -/

/-- Entering a zone: up into the overbought one closes buys, down into the oversold one sells. -/
def enteringZone (buffer : Ident) (shift : Nat) (overbought oversold : Ident) : Conditions :=
  let value := valueAt buffer
  .one
    (.group (.all
      [isBelow (value (shift + 1)) overbought, notBelow (value shift) overbought]))
    (.group (.all [isAbove (value (shift + 1)) oversold, notAbove (value shift) oversold]))

/-- The signal of an indicator that closes each side. The average true range has no direction. -/
def Indicator.reversal (i : Nat) (signal : Signal) : Indicator → Conditions
  | .movingAverage _ =>
    let bar := signal.barShift + 1
    let average := valueAt (indVar i "Buffer") bar
    .one (.group (isBelow (chartClose bar) average)) (.group (isAbove (chartClose bar) average))
  | .rsi _ =>
    enteringZone (indVar i "Buffer") signal.barShift (indInput "RSI" i "Overbought")
      (indInput "RSI" i "Oversold")
  | .stochastic _ =>
    enteringZone (indVar i "MainBuffer") signal.barShift (indInput "Stoch" i "Overbought")
      (indInput "Stoch" i "Oversold")
  | .cci _ =>
    enteringZone (indVar i "Buffer") signal.barShift (indInput "CCI" i "Overbought")
      (indInput "CCI" i "Oversold")
  | .macd _ =>
    let main := valueAt (indVar i "MainBuffer")
    let line := valueAt (indVar i "SignalBuffer")
    .one (crossesDown main line signal.barShift) (crossesUp main line signal.barShift)
  | .bollingerBands _ =>
    let bar := signal.barShift + 1
    .one
      (.group (notBelow (highOf chart (bar : Int)) (valueAt (indVar i "UpperBuffer") bar)))
      (.group (notAbove (lowOf chart (bar : Int)) (valueAt (indVar i "LowerBuffer") bar)))
  | .adx _ =>
    let weak : Expr :=
      .group (isBelow (valueAt (indVar i "MainBuffer") signal.barShift)
        (indInput "ADX" i "TrendLevel"))
    .one weak weak
  | .atr _ => {}

/-- The signal of a price action node that closes each side. -/
def PriceAction.reversal (i : Nat) : PriceAction → Conditions
  | .candlestickPattern _ => .one (.group (paVar i "SellSignal")) (.group (paVar i "BuySignal"))
  | .supportResistance _ =>
    .one (.group (paVar i "NearResistance")) (.group (paVar i "NearSupport"))
  | .rangeBreakout p =>
    { buys := if p.breakoutDirection = .buyOnHigh then [] else [.group (paVar i "BreakoutDown")]
      sells := if p.breakoutDirection = .sellOnLow then [] else [.group (paVar i "BreakoutUp")] }

/-- The signals that a joined node closes on. Of an id in both lists the indicator counts; a node in
neither gives none. -/
def exitSignal (indicators priceAction : List Node) (id : String) : Except Fault Conditions :=
  match lastIndex? indicators id with
  | some i =>
    match indicators[i]?.bind Node.indicator? with
    | some (_, signal, indicator) => .ok (indicator.reversal i signal)
    | none => .error .missingField
  | none =>
    match lastIndex? priceAction id with
    | none => .ok {}
    | some i =>
      match priceAction[i]? with
      | none => .ok {}
      | some n =>
        match n.data.payload with
        | .priceAction _ action => .ok (action.reversal i)
        | _ => .error (.unsupported .priceAction n.kind)

/-- The signals of all joined nodes, in order. -/
def exitSignals (indicators priceAction : List Node) : List String → Except Fault Conditions
  | [] => .ok {}
  | id :: ids => do
    let c ← exitSignal indicators priceAction id
    let rest ← exitSignals indicators priceAction ids
    .ok (c ++ rest)

/-! ## Close conditions -/

/-- A name with the number of an exit; the first has none. -/
def exitName (stem : String) (i : Nat) : Ident where
  stem
  number := if i = 0 then none else some (i + 1)

def closeCall (side : Side) : Action :=
  .run (.call (Library.closePositions side.label).name [])

/-- Close the positions of a side when one of the signals is given. -/
def closeSide (i : Nat) (side : Side) (signals : List Expr) : List Stmt :=
  let flag := exitName ("close" ++ side.label ++ "Condition") i
  [.declare "bool" flag (joined .any signals), .guard flag (closeCall side)]

def Direction.sides : Direction → List Side
  | .buy => [.buy]
  | .sell => [.sell]
  | .both => [.buy, .sell]

def Conditions.of (c : Conditions) : Side → List Expr
  | .buy => c.buys
  | .sell => c.sells

/-- The part of the program that closes positions on signals. -/
def closeCode (i : Nat) (sides : List Side) (c : Conditions) : Program where
  tick :=
    [.blank, .heading "Exit Signal Conditions",
      .branch ((var "positionsCount").gt 0) (sides.flatMap fun s => closeSide i s (c.of s))]
  helpers := sides.map fun s => .ofFunction (Library.closePositions s.label)

def emitCloseCondition (n : Node) (i : Nat) (indicators priceAction : List Node)
    (edges : List Edge) : Emission :=
  match n.data.payload with
  | .trading (.closeCondition direction) =>
    match exitSignals indicators priceAction (neighbours n.id edges) with
    | .error f => Emission.fail f
    | .ok c =>
      if c.buys.isEmpty && c.sells.isEmpty then
        { code :=
            { tick :=
                [.blank, .heading "Exit Signal: no indicator or price action connected"] }
          log := Log.debug .exits ("Close condition '" ++ n.id ++ "' has no usable source") }
      else { code := closeCode i direction.sides c }
  | _ => Emission.fail (.unsupported .closeCondition n.kind)

/-! ## Time exits -/

def timeExitGroup : Option String := some "Time Exit"

/-- Close positions that are older than a number of bars. -/
def closeAfterBars (n : Node) (p : TimeExit) (i : Nat) : Program :=
  let limit := exitName "InpTimeExitBars" i
  { inputs :=
      [n.intInput "exitAfterBars" limit p.exitAfterBars "Exit After N Bars" timeExitGroup]
    tick :=
      [.heading "Time-Based Exit (bars since entry)",
        Library.eachOwnPosition
          [.declare "datetime" "openTime" (.cast "datetime" (positionInteger "POSITION_TIME")),
            .declare "int" "barsSinceEntry"
              (.call "iBarShift" [symbol, periodOf p.exitTimeframe, "openTime"]),
            .remarked (.guard ((var "barsSinceEntry").lt 0) .skip) "iBarShift failed",
            .branch ((var "barsSinceEntry").ge limit)
              [.guardBelow (.not (.send "trade" "PositionClose" ["ticket"]))
                (.run (.call "Print"
                  [quote "Time exit: failed to close #", "ticket", quote ", retcode ",
                    .send "trade" "ResultRetcode" []]))]]] }

/-- The flag that the close time of an exit has passed. -/
def closeFlag (i : Nat) : Ident := exitName "pastCloseTime" i

/-- The close time of an exit, with the clock it is read on. -/
def closeClock (p : TimeExit) (useServerTime : Bool) : String :=
  "(" ++ Text.clock p.closeHour p.closeMinute ++ " " ++ clockLabel useServerTime ++ ")"

/-- Set the flag of an exit, unless it is set already. -/
def closeTimeCheck (n : Node) (p : TimeExit) (i : Nat) (ctx : Context) (program : Program) :
    Program :=
  let hour := exitName "InpCloseHour" i
  let minute := exitName "InpCloseMinute" i
  let now : Ident := if ctx.usesServerTime then "TimeCurrent" else "TimeGMT"
  if program.hasInput hour.text then {}
  else
    { inputs :=
        [n.intInput "closeHour" hour p.closeHour "Close Hour" timeExitGroup,
          n.intInput "closeMinute" minute p.closeMinute "Close Minute" timeExitGroup]
      tick :=
        [.heading ("Close time reached " ++ closeClock p ctx.usesServerTime),
          .declare "bool" (closeFlag i) false,
          .scope
            [.declareOnly "MqlDateTime" "exitDt",
              .run (.call "TimeToStruct" [.call now [], "exitDt"]),
              .assign (closeFlag i)
                (.group
                  ((Expr.member "exitDt" "hour" * 60 + .member "exitDt" "min").ge
                    (var hour * 60 + var minute)))]] }

def Node.closeTime? (n : Node) : Option TimeExit :=
  match n.data.payload with
  | .trading (.timeExit p) => if p.exitMode = .closeAtTime then some p else none
  | _ => none

/-- The flags of the exits at a time of day, and their names. -/
def closeTimeChecks (ctx : Context) : Nat → List Node → Program → Program × List Ident
  | _, [], _ => ({}, [])
  | i, n :: ns, program =>
    match n.closeTime? with
    | none => closeTimeChecks ctx (i + 1) ns program
    | some p =>
      let code := closeTimeCheck n p i ctx program
      let (rest, flags) := closeTimeChecks ctx (i + 1) ns (program ++ code)
      (code ++ rest, closeFlag i :: flags)

/-- No position is opened after a close time. -/
def emitCloseTimeGate (nodes : List Node) (ctx : Context) : Step := fun program =>
  match closeTimeChecks ctx 0 nodes program with
  | (_, []) => {}
  | (code, flags) =>
    { code := code ++ { tick := [.blank], gates := flags.map fun x => .not (var x) } }

def closeAtTime (n : Node) (p : TimeExit) (i : Nat) (ctx : Context) (program : Program) : Program :=
  closeTimeCheck n p i ctx program ++
    { tick :=
        [.heading ("Close At Time " ++ closeClock p ctx.usesServerTime),
          .branch (closeFlag i)
            [.branch ((var "positionsCount").gt 0)
              [.act (closeCall .buy), .act (closeCall .sell)],
              .run (.call "DeletePendingOrders" [])]]
      helpers :=
        [.ofFunction (Library.closePositions Side.buy.label),
          .ofFunction (Library.closePositions Side.sell.label),
          .ofFunction Library.deletePending] }

def emitTimeExit (n : Node) (i : Nat) (ctx : Context) : Step := fun program =>
  match n.data.payload with
  | .trading (.timeExit p) =>
    let code :=
      match p.exitMode with
      | .bars => closeAfterBars n p i
      | .closeAtTime => closeAtTime n p i ctx program
    { code := { tick := [.blank] } ++ code }
  | _ => Emission.fail (.unsupported .timeExit n.kind)

end TradeGraph

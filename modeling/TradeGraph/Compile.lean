import TradeGraph.Expansion
import TradeGraph.Program.Exits
import TradeGraph.Program.Management
import TradeGraph.Program.Source
import TradeGraph.Roles

/-!
# Compiling a strategy graph

A document is read, composite nodes are expanded, nodes that nothing leads to are dropped, and the
rest is sorted by role. Then every part of the program is emitted in a fixed order: a part may look
at what the parts before it have added.
-/

namespace TradeGraph

open Mql

/-! ## Steps -/

/-- A step that adds the same whatever the program so far. -/
def always (e : Emission) : Step := fun _ => e

/-- The inputs that every program has. -/
def generalInputs (s : Settings) : Program where
  inputs :=
    [{ name := "InpMagicNumber", type := "int", value := .int s.magicNumber
       comment := "Magic Number", optimizable := false, group := some "General Settings" },
      { name := "InpTradeComment", type := "string", value := .text s.comment
        comment := "Trade Comment", optimizable := false, group := some "General Settings" },
      { name := "InpMaxSlippage", type := "int", value := .int 10
        comment := "Max Slippage (points)", optimizable := false
        group := some "Risk Management" }]

/-- A distance of zero where no node sets one. -/
def noDistance (x : Ident) (what : String) : Program where
  tick := [.remarked (.declare "double" x 0) ("No " ++ what ++ " connected")]

/-- The orders of a strategy: of each side the first. -/
def Roles.orders (r : Roles) : Orders where
  buy := r.buy.head?
  sell := r.sell.head?

/-- The step for the first stop, if there is one. -/
def stopStep (r : Roles) (edges : List Edge) (known : List String) (ctx : Context) : Step :=
  match r.stopLoss.head? with
  | some n => always (emitStopLoss n r.indicators r.priceAction edges known ctx)
  | none => always { code := noDistance "slPips" "Stop Loss" }

/-- The step for the first target, if there is one. -/
def targetStep (r : Roles) : Step :=
  match r.takeProfit.head? with
  | some n => emitTakeProfit n
  | none => always { code := noDistance "tpPips" "Take Profit" }

/-- The steps for the sizes of orders. -/
def orderSteps (o : Orders) : List Step :=
  o.buy.toList.map (emitOrder .buy) ++ o.sell.toList.map (emitOrder .sell)

/-- The steps for the stop, the target and the sizes. They are left out if there is no order. -/
def riskSteps (r : Roles) (edges : List Edge) (known : List String) (ctx : Context) : List Step :=
  if !r.hasEntry then []
  else stopStep r edges known ctx :: targetStep r :: orderSteps r.orders

/-- All steps: inputs, gates, signals, risk, entries, exits, management. -/
def plan (r : Roles) (edges : List Edge) (known : List String) (ctx : Context) : List Step :=
  [always { code := generalInputs ctx.settings }, always (emitSpread r.spread),
    always (emitTiming r.timing), emitCloseTimeGate r.timeExit ctx] ++
    r.indicators.zipIdx.map (fun (n, i) => always (emitIndicator n i)) ++
    r.priceAction.zipIdx.map (fun (n, i) => always (emitPriceAction n i)) ++
    riskSteps r edges known ctx ++
    [emitEntry r.indicators r.priceAction r.orders ctx] ++
    r.closeCondition.zipIdx.map (fun (n, i) =>
      always (emitCloseCondition n i r.indicators r.priceAction edges)) ++
    r.timeExit.zipIdx.map (fun (n, i) => emitTimeExit n i ctx) ++
    r.management.map emitManagement ++ [emitPass]

/-! ## Compiling -/

structure Compiled where
  program : Program
  context : Context

namespace Compiled

def source (c : Compiled) : String :=
  c.program.source c.context

/-- How many lines a text has. -/
def lineCount (s : String) : Nat :=
  s.toList.count '\n' + 1

/-- What is said of a compiled strategy. -/
def log (c : Compiled) : Log :=
  Log.info .compiler ("Compiled '" ++ c.context.projectName ++ "': " ++
    toString c.program.inputs.length ++ " inputs, " ++ toString c.program.helpers.length ++
    " helper blocks, " ++ toString (lineCount c.source) ++ " lines")

end Compiled

/-- The outcome of a compile: what was logged, and the program or the fault that stopped it. -/
structure Compilation where
  log : Log := []
  result : Except Fault Compiled

/-- What is said before the steps of a compile. -/
def startLog (project : String) (nodes live : List Node) (edges : List Edge) : Log :=
  Log.info .compiler ("Compiling '" ++ project ++ "': " ++ toString nodes.length ++ " nodes (" ++
    toString live.length ++ " live), " ++ toString edges.length ++ " edges")

/-- Compile a graph. Names of indicators are looked up among the ids before and after expansion. -/
def Graph.compile (g : Graph) (project : String) (options : Options := {}) : Compilation :=
  let x := expand g.nodes g.edges
  let live := keepLive x.nodes x.edges
  let known := g.nodes.map Node.id ++ x.nodes.map Node.id
  let opening := x.log ++ livenessLog x.nodes x.edges
  match Roles.sort live with
  | .error f => { log := opening, result := .error f }
  | .ok roles =>
    let context := Context.build project g.settings options roles.timing
    let e := Emission.inOrder (plan roles x.edges known context) {}
    let log := opening ++ startLog context.projectName x.nodes live x.edges ++ e.log
    match e.fault with
    | some f => { log, result := .error f }
    | none =>
      let compiled : Compiled := { program := e.code, context }
      { log := log ++ compiled.log, result := .ok compiled }

def compile (document : Json) (project : String) (options : Options := {}) : Compilation :=
  match Graph.load document with
  | .error f => { result := .error f }
  | .ok g => g.compile project options

end TradeGraph

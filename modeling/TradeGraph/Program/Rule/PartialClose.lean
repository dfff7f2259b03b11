import TradeGraph.Program.Rule.Basic

/-!
# Partial closes

A part of a position is closed once; a table of tickets remembers which positions were.
-/

namespace TradeGraph.Rule

open Mql Mql.Platform
open Mql.Expr (var tenths)

/-- The table of the tickets that were partially closed. -/
def closedTable (k : RuleNumber) : Ident := k.name "partialClosedTickets"

/-- The functions of that table: look up, add, clear. -/
def closedTableFunctions (k : RuleNumber) : List Function :=
  let table := closedTable k
  let size : Expr := .call "ArraySize" [table]
  let resize (length : Expr) : Stmt := .run (.call "ArrayResize" [table, length])
  let entry (i : Expr) : Expr := .index table i
  [{ title := some "Was the ticket already partially closed"
     result := "bool"
     name := k.name "IsPartialClosed"
     params := [{ type := "ulong", name := "ticket" }]
     body :=
       [.loopBelow (Library.downFrom size)
          (.guard ((entry "i").eq "ticket") (.retWith true)),
         .act (.retWith false)] },
    { title := some "Remember a partially closed ticket"
      result := "void"
      name := k.name "MarkPartialClosed"
      params := [{ type := "ulong", name := "ticket" }]
      body :=
        [.declare "int" "size" size, resize (var "size" + 1), .assign (entry "size") "ticket"] },
    { title := some "Forget tickets whose position has closed"
      result := "void"
      name := k.name "PrunePartialClosed"
      body :=
        [.loop (Library.downFrom size)
          [.guard (selectTicket (entry "i")) .skip,
            .declare "int" "last" (size - 1),
            .assign (entry "i") (entry "last"),
            resize "last"]] }]

/-- Close a part of a position once. -/
def partialCode (n : Node) (p : PartialClose) (program : Program) : Program :=
  let k := nextRule program "InpPartialClosePercent"
  let group := "Partial Close"
  let byPoints (points : Expr) : List Stmt :=
    [.declare "double" "triggerPoints" points, triggerReached "reached"]
  let trigger : Input × List Stmt :=
    match p.triggerMethod with
    | .riskMultiple =>
      (k.double n group "rMultiple" "InpPartialCloseRMultiple" p.rMultiple
          "Partial Close at R-Multiple",
        [.declare "double" "stopSL" (positionDouble "POSITION_SL"),
          .remarked (.guard (noStop "stopSL") .ret) "an R-multiple needs a stop loss"] ++
          byPoints (magnitude (var "openPrice" - var "stopSL") / point *
            var (k.name "InpPartialCloseRMultiple")))
    | .percent =>
      (k.double n group "triggerPercent" "InpPartialCloseTriggerPercent" p.triggerPercent
          "Partial Close Trigger (% profit)",
        [declareBalance,
          .assign "reached" (shareReached (positionDouble "POSITION_PROFIT")
            (k.name "InpPartialCloseTriggerPercent"))])
    | .pips =>
      (k.double n group "triggerPips" "InpPartialCloseTriggerPips" p.triggerPips
          "Partial Close Trigger (pips)",
        byPoints (var (k.name "InpPartialCloseTriggerPips") * pipFactor))
  let protect : List Stmt :=
    if p.moveSlToBreakeven then
      [.guard (.not (selectTicket "ticket")) .ret,
        .declare "double" "slNow" (positionDouble "POSITION_SL"),
        .declare "double" "breakeven" (normalizePrice "openPrice"),
        .elseIfBelow (.all [isBuyPosition, (var "slNow").lt "breakeven"])
          (modify "breakeven" "keepTP")
          (.all [(var "posType").eq "POSITION_TYPE_SELL",
            .group (.any [(var "slNow").gt "breakeven", noStop "slNow"])])
          (modify "breakeven" "keepTP")]
    else []
  { inputs :=
      [k.double n group "closePercent" "InpPartialClosePercent" p.closePercent "Partial Close %",
        trigger.1]
    globals := [.array "ulong" (closedTable k) (some "tickets already partially closed")]
    helpers :=
      [{ key := (k.name "PartialClosedTable").text, body := .functions (closedTableFunctions k) }]
    beforeLoop := clearEvery (k.name "_prunePartialCounter") (k.name "PrunePartialClosed") } ++
    ruleCode (k.name "CheckPartialClose") "Partial close" volumeParams
      ([.guard (.call (k.name "IsPartialClosed") ["ticket"]) .ret,
          .declare "bool" "reached" false] ++ trigger.2 ++
        [.guard (.not "reached") .ret, .blank] ++ declareLots ++
        [.declare "double" "closeVolume"
            (wholeLots (var "volume" * var (k.name "InpPartialClosePercent") / tenths 1000)),
          .note "what remains open must still be a valid lot",
          keepValidLot "closeVolume",
          .guard ((var "closeVolume").lt "minLot") .ret,
          .blank,
          .declare "double" "keepTP" (positionDouble "POSITION_TP"),
          .guard (.not (.send "trade" "PositionClosePartial" ["ticket", "closeVolume"])) .ret,
          .run (.call (k.name "MarkPartialClosed") ["ticket"])] ++ protect)

end TradeGraph.Rule

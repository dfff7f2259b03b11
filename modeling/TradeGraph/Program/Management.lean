import TradeGraph.Program.Rule.PartialClose
import TradeGraph.Program.Rule.Stops
import TradeGraph.Program.Rule.Targets

/-!
# Trade management

One pass over the open positions calls all rules in order; between two rules the position is
selected again, because the first may have changed it.
-/

namespace TradeGraph

open Mql Mql.Platform Rule

/-- The part of the program for a rule. -/
def managementCode (n : Node) (program : Program) : Management → Program
  | .breakeven p => breakevenCode n p program
  | .trailing p => trailingCode n p program
  | .partialClose p => partialCode n p program
  | .lockProfit p => lockCode n p program
  | .multiTarget p => targetsCode n p program

/-- The part of the program for a management node. -/
def emitManagement (n : Node) : Step := fun program =>
  match n.data.payload with
  | .management rule =>
    { code := { helpers := [.ofFunction safeModify] } ++ managementCode n program rule
      log := Log.debug .management
        ("Trade management: " ++ n.kind.name ++ " '" ++ n.id ++ "'") }
  | _ => Emission.fail (.unsupported .management n.kind)

/-- Select the position again and read what a rule may have changed. -/
def reselect : List Stmt :=
  [.guard (.not (selectTicket "ticket")) .skip,
    .assign "currentSL" (positionDouble "POSITION_SL"),
    .assign "volume" (positionDouble "POSITION_VOLUME")]

/-- The calls of the rules, with a new selection between two of them. -/
def ruleCalls : List Stmt → List Stmt
  | [] => []
  | first :: rest => first :: rest.flatMap fun r => reselect ++ [r]

/-- The function that goes over the open positions. -/
def passFunction (program : Program) : Function where
  title := some "Apply every trade management rule in one pass"
  result := "void"
  name := "ManageOpenPositions"
  body :=
    program.beforeLoop ++ (if program.beforeLoop.isEmpty then [] else [.blank]) ++
      [.loop Library.positionLoop
        ([Library.positionTicket, .guard (.not (selectTicket "ticket")) .skip] ++
          Library.ownPosition ++
          [.blank,
            .declare "double" "openPrice" (positionDouble "POSITION_PRICE_OPEN"),
            .declare "double" "currentSL" (positionDouble "POSITION_SL"),
            .declare "double" "currentTP" (positionDouble "POSITION_TP"),
            .declare "double" "positionProfit" (positionDouble "POSITION_PROFIT"),
            .declare "double" "volume" (positionDouble "POSITION_VOLUME"),
            .declare "long" "posType" (positionInteger "POSITION_TYPE"),
            .blank] ++
          ruleCalls program.rules)]

/-- The pass over the open positions; without rules there is none. -/
def emitPass : Step := fun program =>
  if program.rules.isEmpty then {}
  else
    { code :=
        { helpers := [.ofFunction (passFunction program)]
          tick :=
            [.blank, .heading "Trade Management", .run (.call "ManageOpenPositions" [])] }
      log := Log.debug .management
        ("Trade management: " ++ toString program.rules.length ++
          " rule(s) in one position loop") }

end TradeGraph

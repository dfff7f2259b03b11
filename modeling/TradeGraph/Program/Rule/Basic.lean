import TradeGraph.Program.Atr
import TradeGraph.Program.Library

/-!
# Rules for open positions

Every rule is a function for one position, with inputs of its own. Rules of one kind are numbered.
-/

namespace TradeGraph.Rule

open Mql Mql.Platform
open Mql.Expr (var tenths quote)

/-! ## Names -/

/-- The number of a rule among those of its kind; the first has none. -/
abbrev RuleNumber := Option Nat

/-- The number of the next rule, told by an input that each rule of the kind has once. -/
def nextRule (program : Program) (marker : String) : RuleNumber :=
  match program.countInputs marker with
  | 0 => none
  | n + 1 => some (n + 2)

namespace RuleNumber

/-- A name with the number of the rule. -/
def name (k : RuleNumber) (stem : String) (tail : String := "") : Ident :=
  { stem, number := k, tail }

/-- A comment with the number of the rule. -/
def comment (k : RuleNumber) (text : String) : String :=
  match k with
  | none => text
  | some n => text ++ " " ++ toString n

/-- An input of a rule that holds a double. -/
def double (k : RuleNumber) (n : Node) (group field stem : String) (value : Float)
    (comment : String) : Input :=
  n.doubleInput field (k.name stem) value (k.comment comment) (some group)

/-- An integer input of a rule. -/
def int (k : RuleNumber) (n : Node) (group field stem : String) (value : Int) (comment : String) :
    Input :=
  n.intInput field (k.name stem) value (k.comment comment) (some group)

/-- The handle and the buffer of a rule. -/
def atr (k : RuleNumber) (stem : String) : AtrNames := ⟨k.name stem "Handle", k.name stem "Buffer"⟩

end RuleNumber

/-! ## Common code -/

def selectTicket (ticket : Expr) : Expr := .call "PositionSelectByTicket" [ticket]

def isBuyPosition : Expr := (var "posType").eq "POSITION_TYPE_BUY"

/-- A distance in points as a price difference. -/
def inPrice (points : Expr) : Expr := points * point

/-- Move stop and target of a position. -/
def modify (stop target : Expr) : Action :=
  .run (.call "SafePositionModify" ["ticket", stop, target])

def noStop (stop : Expr) : Expr := stop.eq 0

/-- The result of the position as a share of the balance reaches a limit. -/
def shareReached (profit limit : Expr) : Expr :=
  .group (.all [(var "balance").gt 0, (profit / var "balance" * tenths 1000).ge limit])

def declareBalance : Stmt := .declare "double" "balance" (accountDouble "ACCOUNT_BALANCE")

/-- Set a flag when the price has moved by `triggerPoints` in favour of the position. -/
def triggerReached (flag : Ident) : Stmt :=
  .eitherBelow isBuyPosition
    (.assign flag (.group (bid.ge (var "openPrice" + inPrice "triggerPoints"))))
    (.assign flag (.group (ask.le (var "openPrice" - inPrice "triggerPoints"))))

/-- The profit of the position in points. -/
def declareProfit : Stmt :=
  .declareTall "double" "profitPoints" (.group isBuyPosition)
    (.group (bid - var "openPrice") / point) (.group (var "openPrice" - ask) / point)

def declareLots : List Stmt :=
  [.declare "double" "lotStep" (symbolDouble "SYMBOL_VOLUME_STEP"),
    .declare "double" "minLot" (symbolDouble "SYMBOL_VOLUME_MIN")]

/-- A volume rounded down to a step of lots. -/
def wholeLots (volume : Expr) : Expr :=
  .call "MathFloor" [volume / var "lotStep"] * var "lotStep"

/-- What remains open must still be a valid lot. -/
def keepValidLot (closing : Ident) : Stmt :=
  .guard ((var "volume" - var closing).lt "minLot")
    (.assign closing (wholeLots (.group (var "volume" - var "minLot"))))

/-- Every how many ticks tables are cleared of closed positions. -/
def clearTicks : Expr := 100

/-- Call a function once in a number of ticks. -/
def clearEvery (counter prune : Ident) : List Stmt :=
  [.act (.declareStatic "int" counter 0),
    .branch ((Expr.increased counter).ge clearTicks)
      [.run (.call prune []), .assign counter 0]]

/-- Move stop and target of a position, unless the broker has them frozen. -/
def safeModify : Function :=
  let frozen (level : Ident) : Expr :=
    .group (.all [(var level).gt 0, (magnitude (var "price" - var level)).lt "freezeLevel"])
  { result := "bool"
    name := "SafePositionModify"
    params :=
      [{ type := "ulong", name := "ticket" }, { type := "double", name := "sl" },
        { type := "double", name := "tp" }]
    body :=
      [.guard (.not (selectTicket "ticket")) (.retWith false),
        .note "the broker rejects modifications inside the freeze level",
        .declare "double" "freezeLevel"
          (.cast "double" (symbolInteger "SYMBOL_TRADE_FREEZE_LEVEL") * point),
        .branch ((var "freezeLevel").gt 0)
          [.declare "long" "type" (positionInteger "POSITION_TYPE"),
            .declare "double" "price"
              (.choice (.group ((var "type").eq "POSITION_TYPE_BUY")) bid ask),
            .guardBelow (.any [frozen "sl", frozen "tp"]) (.retWith false)],
        .branch (.not (.send "trade" "PositionModify" ["ticket", "sl", "tp"]))
          [.run (.call "PrintFormat"
            [quote "PositionModify failed for #%I64u: retcode %d, SL=%.5f, TP=%.5f", "ticket",
              .send "trade" "ResultRetcode" [], "sl", "tp"]),
            .act (.retWith false)],
        .act (.retWith true)] }

/-! ## Rules -/

/-- What a rule may look at. -/
inductive RuleParam where
  | ticket
  | openPrice
  | currentSL
  | currentTP
  | positionProfit
  | volume
  | posType
deriving DecidableEq, Repr

namespace RuleParam

def type : RuleParam → String
  | .ticket => "ulong"
  | .posType => "long"
  | _ => "double"

def name : RuleParam → Ident
  | .ticket => "ticket"
  | .openPrice => "openPrice"
  | .currentSL => "currentSL"
  | .currentTP => "currentTP"
  | .positionProfit => "positionProfit"
  | .volume => "volume"
  | .posType => "posType"

end RuleParam

/-- The function of a rule, and its call in the pass. `ready` is a flag without which it is not
called. -/
def ruleCode (name : Ident) (what : String) (params : List RuleParam) (body : List Stmt)
    (ready : Option Ident := none) : Program :=
  let call : Action := .run (.call name (params.map fun p => var p.name))
  { helpers :=
      [.ofFunction
        { title := some (what ++ " for one position")
          result := "void"
          name
          params := params.map fun p => { type := p.type, name := p.name }
          body }]
    rules :=
      [match ready with
        | none => .act call
        | some flag => .guard flag call] }

/-- What rules that move the stop look at. -/
def stopParams : List RuleParam := [.ticket, .openPrice, .currentSL, .currentTP, .posType]

/-- What rules that close a part look at. -/
def volumeParams : List RuleParam := [.ticket, .openPrice, .volume, .posType]

/-- A handle of a rule, refreshed before the pass. -/
def ruleAtr (k : RuleNumber) (stem : String) (period : Ident) (what : String) : Program :=
  (k.atr stem).setup chart period what ++
    { beforeLoop := [(k.atr stem).refresh (k.name stem "Ready")] }

end TradeGraph.Rule

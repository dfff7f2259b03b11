import TradeGraph.Program.Rule.Basic

/-!
# Targets in three levels

A position is closed in three parts. A table remembers the level that each position has reached.
-/

namespace TradeGraph.Rule

open Mql Mql.Platform
open Mql.Expr (var tenths)

/-- The number of entries of the level table. -/
def levelCount : Expr := "g_mltpCount"

def levelEntry (i : Expr) : Expr := .index "g_mltpStates" i

/-- The functions of the level table: look up, set, clear. -/
def levelTableFunctions : List Function :=
  let up : Loop := .count "i" 0 ((var "i").lt levelCount) true
  let found : Expr := (Expr.member (levelEntry "i") "ticket").eq "ticket"
  let resize (length : Expr) : Stmt := .run (.call "ArrayResize" ["g_mltpStates", length])
  let level (i : Expr) : Expr := .member (levelEntry i) "level"
  [{ result := "int"
     name := "GetMLTPLevel"
     params := [{ type := "ulong", name := "ticket" }]
     body :=
       [.loopBelow up (.guard found (.retWith (level "i"))), .act (.retWith 0)] },
    { result := "void"
      name := "SetMLTPLevel"
      params := [{ type := "ulong", name := "ticket" }, { type := "int", name := "level" }]
      body :=
        [.loop up [.guardAll found [.assign (level "i") "level", .ret]],
          resize (levelCount + 1),
          .assign (.member (levelEntry levelCount) "ticket") "ticket",
          .assign (level levelCount) "level",
          .act (.increment levelCount)] },
    { result := "void"
      name := "PruneMLTPStates"
      body :=
        [.loop (Library.downFrom levelCount)
          [.guard (selectTicket (.member (levelEntry "i") "ticket")) .skip,
            .assign (levelEntry "i") (levelEntry (levelCount - 1)),
            .act (.decrement levelCount),
            resize levelCount]] }]

def levelTable : Program where
  globals :=
    [.record "SMLTPState" [("ulong", "ticket"), ("int", "level")],
      .array "SMLTPState" "g_mltpStates" none,
      .scalar "int" "g_mltpCount" (some 0) none]
  helpers := [{ key := "MLTPStateTable", body := .functions levelTableFunctions }]
  beforeLoop := clearEvery "_pruneMLTPCounter" "PruneMLTPStates"

def levelInput (k : RuleNumber) (level : Nat) (what : String) : Ident :=
  k.name ("InpMLTP" ++ toString level ++ what)

def levelInputs (k : RuleNumber) (n : Node) (level : Nat) (pips percent : Float) : List Input :=
  let tp := "tp" ++ toString level
  let title := "TP" ++ toString level
  let stem := "InpMLTP" ++ toString level
  [k.double n "Multi-Level TP" (tp ++ "Pips") (stem ++ "Pips") pips (title ++ " Distance (pips)"),
    k.double n "Multi-Level TP" (tp ++ "Percent") (stem ++ "Percent") percent
      (title ++ " Close %")]

/-- The profit reaches a level that has not been taken yet. -/
def levelReached (k : RuleNumber) (before : Expr) (level : Nat) : Expr :=
  .all [before, (var "profitPoints").ge (var (levelInput k level "Pips") * pipFactor)]

/-- After the first target the stop follows the price at the distance of that target. -/
def trailAfterFirst (k : RuleNumber) : List Stmt :=
  let move (price better : Expr) (beyond : Expr) : List Stmt :=
    [.declare "double" "newSL" (normalizePrice price),
      .guardBelow (.all [beyond, .group (.any [noStop "trailSL", better])])
        (modify "newSL" (positionDouble "POSITION_TP"))]
  [.branch ((var "tpLevel").ge 1)
      [.declare "double" "trailDist" (inPrice (var (levelInput k 1 "Pips") * pipFactor)),
        .declare "double" "trailSL" (positionDouble "POSITION_SL"),
        .branchElse isBuyPosition
          (move (bid - var "trailDist") ((var "newSL").gt "trailSL")
            ((var "newSL").gt "openPrice"))
          (move (ask + var "trailDist") ((var "newSL").lt "trailSL")
            ((var "newSL").lt "openPrice")),
        .guard (.not (selectTicket "ticket")) .ret],
    .blank]

/-- Remember the level of a position. -/
def setLevel (level : Nat) : Action :=
  .run (.call "SetMLTPLevel" ["ticket", (level : Int)])

def closesPart : Expr :=
  .all [(var "closeVol").ge "minLot",
    .send "trade" "PositionClosePartial" ["ticket", "closeVol"]]

/-- Close a position in three parts. -/
def targetsCode (n : Node) (p : MultiTarget) (program : Program) : Program :=
  let k := nextRule program "InpMLTP1Pips"
  let share (level : Nat) : Expr := var (levelInput k level "Percent")
  let protect : List Stmt :=
    if p.moveSlAfterTp1 = .nothing then []
    else
      [.guardBelow (selectTicket "ticket")
        (modify (normalizePrice "openPrice") (positionDouble "POSITION_TP"))]
  let first : Stmt :=
    .branch (levelReached k ((var "tpLevel").lt 1) 1)
      [.declare "double" "closeVol" (wholeLots (var "volume" * share 1 / tenths 1000)),
        keepValidLot "closeVol",
        .branch closesPart (.act (setLevel 1) :: protect),
        .act .ret]
  let second : Stmt :=
    .branch (levelReached k ((var "tpLevel").eq 1) 2)
      [.note "share of what is left after TP1",
        .declare "double" "rest" (share 2 + share 3),
        .declare "double" "closeVol"
          (.choice (.group ((var "rest").gt 0))
            (wholeLots (var "volume" * share 2 / var "rest")) 0),
        keepValidLot "closeVol",
        .guardBelow closesPart (setLevel 2),
        .act .ret]
  let third : Stmt :=
    .branch (levelReached k ((var "tpLevel").eq 2) 3)
      [.guard (.send "trade" "PositionClose" ["ticket"]) (setLevel 3)]
  { inputs :=
      levelInputs k n 1 p.tp1Pips p.tp1Percent ++ levelInputs k n 2 p.tp2Pips p.tp2Percent ++
        levelInputs k n 3 p.tp3Pips p.tp3Percent } ++
    (if program.mentions "SMLTPState" then {} else levelTable) ++
    ruleCode (k.name "CheckMultiLevelTP") "Multi-level take profit" volumeParams
      ([.declare "int" "tpLevel" (.call "GetMLTPLevel" ["ticket"]), declareProfit] ++
        declareLots ++ [.blank] ++
        (if p.moveSlAfterTp1 = .trail then trailAfterFirst k else []) ++
        [first, .blank, second, .blank, third])

end TradeGraph.Rule

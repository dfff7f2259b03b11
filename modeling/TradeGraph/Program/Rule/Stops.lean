import TradeGraph.Program.Rule.Basic

/-!
# Rules that move the stop

Breakeven, trailing and profit lock. The stop only ever moves in favour of the position.
-/

namespace TradeGraph.Rule

open Mql Mql.Platform
open Mql.Expr (var tenths)

/-! ## Breakeven -/

/-- Move the stop a little beyond the entry price once the position is in profit. -/
def breakevenCode (n : Node) (p : Breakeven) (program : Program) : Program :=
  let k := nextRule program "InpBELockPips"
  let group := "Breakeven Stop"
  let byPoints (points : Expr) : List Stmt :=
    [.declare "double" "triggerPoints" points, triggerReached "armed"]
  let trigger : Program × List Stmt × Option Ident :=
    match p.trigger with
    | .pips =>
      ({ inputs :=
          [k.double n group "triggerPips" "InpBETriggerPips" p.triggerPips
            "Breakeven Trigger (pips)"] },
        byPoints (var (k.name "InpBETriggerPips") * pipFactor), none)
    | .percentage =>
      ({ inputs :=
          [k.double n group "triggerPercent" "InpBETriggerPercent" p.triggerPercent
            "Breakeven Trigger (% profit)"] },
        [declareBalance,
          .assign "armed" (shareReached "positionProfit" (k.name "InpBETriggerPercent"))], none)
    | .atr =>
      ({ inputs :=
          [k.int n group "triggerAtrPeriod" "InpBEATRPeriod" p.triggerAtrPeriod
              "Breakeven ATR Period",
            k.double n group "triggerAtrMultiplier" "InpBEATRMultiplier" p.triggerAtrMultiplier
              "Breakeven ATR Multiplier"]
         bars := p.triggerAtrPeriod.toNat } ++
          ruleAtr k "beATR" (k.name "InpBEATRPeriod") "Breakeven",
        byPoints ((k.atr "beATR").points (k.name "InpBEATRMultiplier")),
        some (k.name "beATR" "Ready"))
  let newStop (price : Expr) : Stmt := .declare "double" "newSL" (normalizePrice price)
  let (code, arm, ready) := trigger
  code ++
    { inputs :=
        [k.double n group "lockPips" "InpBELockPips" p.lockPips
          "Breakeven Lock (pips beyond entry)"] } ++
    ruleCode (k.name "CheckBreakevenStop") "Breakeven stop"
      [.ticket, .openPrice, .currentSL, .currentTP, .positionProfit, .posType]
      ([.declare "double" "lockPoints" (var (k.name "InpBELockPips") * pipFactor),
          .declare "bool" "armed" false] ++ arm ++
        [.guard (.not "armed") .ret,
          .blank,
          .branchElse isBuyPosition
            [newStop (var "openPrice" + inPrice "lockPoints"),
              .guard ((var "currentSL").lt "newSL") (modify "newSL" "currentTP")]
            [newStop (var "openPrice" - inPrice "lockPoints"),
              .guard (.any [(var "currentSL").gt "newSL", noStop "currentSL"])
                (modify "newSL" "currentTP")]])
      ready

/-! ## Trailing -/

/-- Let the stop follow the price. It only ever moves in favour of the position. -/
def trailingCode (n : Node) (p : Trailing) (program : Program) : Program :=
  let k := nextRule program "InpTrailStartPips"
  let group := "Trailing Stop"
  let points (e : Expr) : Stmt := .declare "double" "trailPoints" e
  let distance : Program × List Stmt × Option Ident :=
    match p.method with
    | .atrBased =>
      ({ inputs :=
          [k.int n group "trailAtrPeriod" "InpTrailATRPeriod" p.trailAtrPeriod "Trail ATR Period",
            k.double n group "trailAtrMultiplier" "InpTrailATRMultiplier" p.trailAtrMultiplier
              "Trail ATR Multiplier"]
         bars := p.trailAtrPeriod.toNat } ++
          ruleAtr k "trailATR" (k.name "InpTrailATRPeriod") "Trailing Stop",
        [points ((k.atr "trailATR").points (k.name "InpTrailATRMultiplier"))],
        some (k.name "trailATR" "Ready"))
    | .percentage =>
      ({ inputs :=
          [k.double n group "trailPercent" "InpTrailPercent" p.trailPercent
            "Trail Distance (% of profit)"] },
        [declareProfit,
          points (larger (var "profitPoints" * var (k.name "InpTrailPercent") / tenths 1000)
            pipFactor)],
        none)
    | .fixedPips =>
      ({ inputs :=
          [k.double n group "trailPips" "InpTrailPips" p.trailPips "Trail Distance (pips)"] },
        [points (var (k.name "InpTrailPips") * pipFactor)], none)
  let follow (price : Ident) (now start stop better : Expr) : List Stmt :=
    [.declare "double" price now,
      .guard start .ret,
      .declare "double" "newSL" (normalizePrice stop),
      .guard better (modify "newSL" "currentTP")]
  let (code, measure, ready) := distance
  code ++
    { inputs :=
        [k.double n group "startAfterPips" "InpTrailStartPips" p.startAfterPips
          "Trail Start After (pips profit)"] } ++
    ruleCode (k.name "CheckTrailingStop") "Trailing stop" stopParams
      ([.declare "double" "startPoints" (var (k.name "InpTrailStartPips") * pipFactor)] ++
        measure ++
        [.blank,
          .note "the stop only ever moves in the position's favour",
          .branchElse isBuyPosition
            (follow "bid" bid ((var "bid").lt (var "openPrice" + inPrice "startPoints"))
              (var "bid" - inPrice "trailPoints") ((var "newSL").gt "currentSL"))
            (follow "ask" ask ((var "ask").gt (var "openPrice" - inPrice "startPoints"))
              (var "ask" + inPrice "trailPoints")
              (.any [(var "newSL").lt "currentSL", noStop "currentSL"]))])
      ready

/-! ## Profit lock -/

/-- Keep a part of the profit behind the stop. -/
def lockCode (n : Node) (p : LockProfit) (program : Program) : Program :=
  let k := nextRule program "InpLockCheckInterval"
  let group := "Lock Profit"
  let lock : Input × Expr :=
    match p.method with
    | .percentage =>
      (k.double n group "lockPercent" "InpLockProfitPercent" p.lockPercent "Lock Profit %",
        var "profitPoints" * var (k.name "InpLockProfitPercent") / tenths 1000)
    | .fixedPips =>
      (k.double n group "lockPips" "InpLockProfitPips" p.lockPips "Lock Profit (pips)",
        var (k.name "InpLockProfitPips") * pipFactor)
  let side (price : Ident) (now profit stop better : Expr) : List Stmt :=
    [.declare "double" price now,
      .declare "double" "profitPoints" (.group profit / point),
      .guard ((var "profitPoints").le "minPoints") .ret,
      .declare "double" "lockPoints" lock.2,
      .declare "double" "newSL" (normalizePrice stop),
      .guard better (modify "newSL" "currentTP")]
  { inputs :=
      [lock.1,
        k.double n group "checkIntervalPips" "InpLockCheckInterval" p.checkIntervalPips
          "Min Profit Before Locking (pips)"] } ++
    ruleCode (k.name "CheckLockProfit") "Lock profit" stopParams
      [.declare "double" "minPoints" (var (k.name "InpLockCheckInterval") * pipFactor),
        .branchElse isBuyPosition
          (side "bid" bid (var "bid" - var "openPrice") (var "openPrice" + inPrice "lockPoints")
            (.all [(var "newSL").gt "currentSL", (var "newSL").lt "bid"]))
          (side "ask" ask (var "openPrice" - var "ask") (var "openPrice" - inPrice "lockPoints")
            (.all [.group (.any [(var "newSL").lt "currentSL", noStop "currentSL"]),
              (var "newSL").gt "ask"]))]

end TradeGraph.Rule

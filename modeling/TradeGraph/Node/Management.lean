import TradeGraph.Field.Schema
import TradeGraph.Node.Vocabulary

/-!
# Trade management nodes

Rules that are applied to open positions on every tick.
-/

namespace TradeGraph

/-- Move the stop to the entry price once a position is far enough in profit. -/
structure Breakeven where
  trigger : BreakevenTrigger
  triggerPips : Float
  triggerPercent : Float
  triggerAtrMultiplier : Float
  triggerAtrPeriod : Int
  lockPips : Float

/-- The fields of a breakeven stop. -/
def Breakeven.codec : Codec Breakeven where
  schema :=
    [.choice "trigger" "trigger" BreakevenTrigger.pips,
      .number "triggerPips" "trigger_pips" (Bound.between 0.0 10000.0) 20.0,
      .number "triggerPercent" "trigger_percent" (Bound.between 0.0 100.0) 1.0,
      .number "triggerAtrMultiplier" "trigger_atr_multiplier" (Bound.between 0.1 100.0) 1.0,
      .integer "triggerAtrPeriod" "trigger_atr_period" 1 1000 14,
      .number "lockPips" "lock_pips" (Bound.between 0.0 10000.0) 2.0]
  ofRecord := fun (trigger, triggerPips, triggerPercent, triggerAtrMultiplier, triggerAtrPeriod,
      lockPips, _) =>
    { trigger, triggerPips, triggerPercent, triggerAtrMultiplier, triggerAtrPeriod, lockPips }
  toRecord x := (x.trigger, x.triggerPips, x.triggerPercent, x.triggerAtrMultiplier,
    x.triggerAtrPeriod, x.lockPips, ())

/-- Let the stop follow the price. -/
structure Trailing where
  method : TrailMethod
  trailPips : Float
  trailAtrMultiplier : Float
  trailAtrPeriod : Int
  trailPercent : Float
  startAfterPips : Float

/-- The fields of a trailing stop. -/
def Trailing.codec : Codec Trailing where
  schema :=
    [.choice "method" "method" TrailMethod.fixedPips,
      .number "trailPips" "trail_pips" (Bound.between 0.0 10000.0) 20.0,
      .number "trailAtrMultiplier" "trail_atr_multiplier" (Bound.between 0.1 100.0) 1.0,
      .integer "trailAtrPeriod" "trail_atr_period" 1 1000 14,
      .number "trailPercent" "trail_percent" (Bound.between 0.0 100.0) 50.0,
      .number "startAfterPips" "start_after_pips" (Bound.between 0.0 10000.0) 20.0]
  ofRecord := fun (method, trailPips, trailAtrMultiplier, trailAtrPeriod, trailPercent,
      startAfterPips, _) =>
    { method, trailPips, trailAtrMultiplier, trailAtrPeriod, trailPercent, startAfterPips }
  toRecord x := (x.method, x.trailPips, x.trailAtrMultiplier, x.trailAtrPeriod, x.trailPercent,
    x.startAfterPips, ())

structure PartialClose where
  closePercent : Float
  triggerMethod : PartialTrigger
  triggerPips : Float
  triggerPercent : Float
  rMultiple : Float
  moveSlToBreakeven : Bool

def PartialClose.codec : Codec PartialClose where
  schema :=
    [.number "closePercent" "close_percent" (Bound.between 1.0 100.0) 50.0,
      .choice "triggerMethod" "trigger_method" PartialTrigger.pips,
      .number "triggerPips" "trigger_pips" (Bound.between 0.0 10000.0) 30.0,
      .number "triggerPercent" "trigger_percent" (Bound.between 0.0 100.0) 1.0,
      .number "rMultiple" "r_multiple" [.atMost 100.0, .above 0.0] 1.0,
      .flag "moveSLToBreakeven" "move_sl_to_breakeven" true]
  ofRecord := fun (closePercent, triggerMethod, triggerPips, triggerPercent, rMultiple,
      moveSlToBreakeven, _) =>
    { closePercent, triggerMethod, triggerPips, triggerPercent, rMultiple, moveSlToBreakeven }
  toRecord x := (x.closePercent, x.triggerMethod, x.triggerPips, x.triggerPercent, x.rMultiple,
    x.moveSlToBreakeven, ())

/-- Keep a part of the profit behind the stop. -/
structure LockProfit where
  method : LockMethod
  lockPercent : Float
  lockPips : Float
  checkIntervalPips : Float

def LockProfit.codec : Codec LockProfit where
  schema :=
    [.choice "method" "method" LockMethod.percentage,
      .number "lockPercent" "lock_percent" (Bound.between 0.0 100.0) 50.0,
      .number "lockPips" "lock_pips" (Bound.between 0.0 10000.0) 10.0,
      .number "checkIntervalPips" "check_interval_pips" (Bound.between 0.0 10000.0) 10.0]
  ofRecord := fun (method, lockPercent, lockPips, checkIntervalPips, _) =>
    { method, lockPercent, lockPips, checkIntervalPips }
  toRecord x := (x.method, x.lockPercent, x.lockPips, x.checkIntervalPips, ())

/-- Close the position in three parts. -/
structure MultiTarget where
  tp1Pips : Float
  tp1Percent : Float
  tp2Pips : Float
  tp2Percent : Float
  tp3Pips : Float
  tp3Percent : Float
  moveSlAfterTp1 : AfterFirstTarget

/-- The fields of a target with three levels. -/
def MultiTarget.codec : Codec MultiTarget where
  schema :=
    [.number "tp1Pips" "tp1_pips" (Bound.between 0.0 10000.0) 20.0,
      .number "tp1Percent" "tp1_percent" (Bound.between 0.0 100.0) 50.0,
      .number "tp2Pips" "tp2_pips" (Bound.between 0.0 10000.0) 40.0,
      .number "tp2Percent" "tp2_percent" (Bound.between 0.0 100.0) 30.0,
      .number "tp3Pips" "tp3_pips" (Bound.between 0.0 10000.0) 60.0,
      .number "tp3Percent" "tp3_percent" (Bound.between 0.0 100.0) 20.0,
      .choice "moveSLAfterTP1" "move_sl_after_tp1" AfterFirstTarget.breakeven]
  ofRecord := fun (tp1Pips, tp1Percent, tp2Pips, tp2Percent, tp3Pips, tp3Percent,
    moveSlAfterTp1, _) =>
    { tp1Pips, tp1Percent, tp2Pips, tp2Percent, tp3Pips, tp3Percent, moveSlAfterTp1 }
  toRecord x := (x.tp1Pips, x.tp1Percent, x.tp2Pips, x.tp2Percent, x.tp3Pips, x.tp3Percent,
    x.moveSlAfterTp1, ())

/-- A rule for open positions. -/
inductive Management where
  | breakeven (p : Breakeven)
  | trailing (p : Trailing)
  | partialClose (p : PartialClose)
  | lockProfit (p : LockProfit)
  | multiTarget (p : MultiTarget)

end TradeGraph

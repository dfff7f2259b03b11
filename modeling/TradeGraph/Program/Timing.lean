import TradeGraph.Mql.Constant
import TradeGraph.Program.Emission

/-!
# Timing and spread

The flag `isTradingTime` says whether new positions may be opened now, and `spreadOk` whether the
spread is small enough. Exits and management do not look at them.
-/

namespace TradeGraph

open Mql Mql.Platform
open Mql.Expr (var)

/-! ## Clocks and days -/

/-- A session: its label, and start and end as hour and minute. -/
structure SessionHours where
  label : String
  startHour : Int
  startMinute : Int
  endHour : Int
  endMinute : Int

namespace SessionHours

/-- The minute of the day at which the session starts. -/
def first (s : SessionHours) : Int := s.startHour * 60 + s.startMinute

/-- The minute of the day at which the session ends. -/
def last (s : SessionHours) : Int := s.endHour * 60 + s.endMinute

end SessionHours

def sessionHours : Session → SessionHours
  | .london => ⟨"London Session", 8, 0, 17, 0⟩
  | .newYork => ⟨"New York Session", 13, 0, 22, 0⟩
  | .tokyo => ⟨"Tokyo Session", 0, 0, 9, 0⟩
  | .sydney => ⟨"Sydney Session", 22, 0, 7, 0⟩
  | .overlap => ⟨"London/New York Overlap", 13, 0, 17, 0⟩

def clockLabel (useServerTime : Bool) : String :=
  if useServerTime then "Server Time" else "GMT"

/-- Read the clock: the day, and the minutes since midnight. -/
def clockStmts (useServerTime : Bool) : List Stmt :=
  let read (now : Ident) : Stmt := .run (.call "TimeToStruct" [.call now [], "dt"])
  [.declareOnly "MqlDateTime" "dt",
    if useServerTime then .remarked (read "TimeCurrent") "Using broker server time"
    else read "TimeGMT",
    .declare "int" "currentMinutes" (.member "dt" "hour" * 60 + .member "dt" "min")]

def weekday : Expr := .member "dt" "day_of_week"

def isDay (days : List Nat) : Expr :=
  .any (days.map fun (d : Nat) => weekday.eq (d : Int))

/-- Do the minutes since midnight lie in a window? A window that does not end after its start goes
past midnight. -/
def inWindow (first last : Int) : Expr :=
  let parts := [(var "currentMinutes").ge first, (var "currentMinutes").lt last]
  if first < last then .all parts else .any parts

/-! ## One timing node -/

/-- No restriction. -/
def alwaysBody (flag : Ident) : List Stmt :=
  [.note "Timing: Always (no time restrictions)", .declare "bool" flag true]

def SessionRule.days (r : SessionRule) : List Nat :=
  match r.tradingDays with
  | some days => activeDays days
  | none => if r.tradeMondayToFriday then [1, 2, 3, 4, 5] else List.range 7

/-- A named session on its days. -/
def sessionBody (useServerTime : Bool) (r : SessionRule) (flag : Ident) : List Stmt :=
  let hours := sessionHours r.session
  let days := r.days
  let opening : List Stmt :=
    [.note ("Trading Session: " ++ hours.label ++ " (" ++
        Text.clock hours.startHour hours.startMinute ++ " - " ++
        Text.clock hours.endHour hours.endMinute ++ " " ++ clockLabel useServerTime ++ ")"),
      .declare "bool" flag false] ++ clockStmts useServerTime
  let check : Stmt := .guard (inWindow hours.first hours.last) (.assign flag true)
  if days = [1, 2, 3, 4, 5] then
    opening ++ [.note "Only trade on weekdays (Mon-Fri)",
      .branch (.all [weekday.ge 1, weekday.le 5]) [check]]
  else if days = [] then opening ++ [.note "No trading days selected"]
  else if days.length < 7 then opening ++ [.branch (isDay days) [check]]
  else opening ++ [.deeper check]

/-- The statements that set the flag in a slot of the day. -/
def slotBody (useServerTime : Bool) (slots : List TimeSlot) (flag : Ident) : List Stmt :=
  [.note ("Time slots (" ++ clockLabel useServerTime ++ ")")] ++
    slots.zipIdx.map (fun (s, i) =>
      .note ("Slot " ++ toString (i + 1) ++ ": " ++ Text.clock s.startHour s.startMinute ++ " - " ++
        Text.clock s.endHour s.endMinute)) ++
    [.guard (.any (slots.map fun s => .group (inWindow s.first s.last))) (.assign flag true)]

/-- Chosen days and slots. -/
def customBody (useServerTime : Bool) (r : CustomRule) (flag : Ident) : List Stmt :=
  let days := activeDays r.days
  let opening : List Stmt :=
    [.note "Custom Trading Times", .declare "bool" flag false] ++ clockStmts useServerTime ++
      [.blank]
  if days = [] then opening ++ [.note "No trading days selected"]
  else
    let allowed : List Stmt :=
      if days.length = 7 then
        [.note "Trading all days", .declare "bool" "isDayAllowed" true]
      else [.declare "bool" "isDayAllowed" (.group (isDay days))]
    let inside : List Stmt :=
      if r.timeSlots.isEmpty then
        [.remarked (.assign flag true) "No time slots defined, trade all day"]
      else slotBody useServerTime r.timeSlots flag
    opening ++ allowed ++ [.blank, .branch "isDayAllowed" inside]

/-- The statements that leave the flag set for a timing node. -/
def timingBody (n : Node) (flag : Ident) : Except Fault (List Stmt) :=
  match n.data.payload with
  | .timing _ .always => .ok (alwaysBody flag)
  | .timing useServerTime (.session r) => .ok (sessionBody useServerTime r flag)
  | .timing useServerTime (.custom r) => .ok (customBody useServerTime r flag)
  | _ => .error (.unsupported .timing n.kind)

/-! ## Flags -/

def timingFlag (k : Nat) : Ident := { stem := "isTradingTime", number := some k }

/-- The scope in which one of several timing nodes sets its flag. -/
def timingScope (k : Nat) (body : List Stmt) : List Stmt :=
  [.declare "bool" (timingFlag k) false, .scope (body ++ [.assign (timingFlag k) "_t"])]

/-- The scopes of timing nodes, up to the first that is none. -/
def timingScopes : Nat → List Node → List Stmt × Option Fault
  | _, [] => ([], none)
  | k, n :: ns =>
    match timingBody n "_t" with
    | .error f => ([], some f)
    | .ok body =>
      let (rest, fault) := timingScopes (k + 1) ns
      (timingScope k body ++ rest, fault)

/-- Set `isTradingTime`. With several timing nodes each sets a flag of its own, and one is enough.
-/
def emitTiming (nodes : List Node) : Emission :=
  match nodes with
  | [] => {}
  | [n] =>
    match timingBody n "isTradingTime" with
    | .error f => Emission.fail f
    | .ok body => { code := { tick := body ++ [.blank] } }
  | _ =>
    let (scopes, fault) := timingScopes 0 nodes
    match fault with
    | some f => { code := { tick := scopes }, fault := some f }
    | none =>
      let flags := (List.range nodes.length).map fun k => Expr.name (timingFlag k)
      { code := { tick := scopes ++ [.declare "bool" "isTradingTime" (.any flags), .blank] }
        log := Log.debug .timing
          ("Combined " ++ toString nodes.length ++ " timing nodes with OR") }

def Node.maxSpread? (n : Node) : Option Float :=
  match n.data.payload with
  | .filter pips => some pips
  | _ => none

def smallest : List Float → Option Float
  | [] => none
  | x :: xs => some (xs.foldl (fun a b => if b < a then b else a) x)

/-- Set `spreadOk`. Of several filters the tightest counts. -/
def emitSpread (nodes : List Node) : Emission :=
  match smallest (nodes.filterMap Node.maxSpread?) with
  | none => {}
  | some pips =>
    { code :=
        { tick :=
            [.heading "Max Spread Filter",
              .declare "int" "currentSpread" (.cast "int" (symbolInteger "SYMBOL_SPREAD")),
              .declare "bool" "spreadOk"
                (.group ((var "currentSpread").le (.lit (.real pips) * pipFactor))),
              .blank]
          gates := ["spreadOk"] } }

end TradeGraph

import Mathlib.Algebra.Order.Ring.Rat
import TradeGraph.Proofs.Definitions

/-!
# A machine for emitted code

Emitted code is run over exact numbers. The machine has the open positions, of which one is selected
at a time, and does itself what the platform does to positions: a trade succeeds if its position is
open. All else that code asks the platform for, such as prices, the balance or the elements of an
array, is answered by a market, which may answer anything and knows all that has been asked before.
So a statement about all markets is one about all prices and all tables.
-/

namespace TradeGraph

variable {ticket : ℚ} {new : Option Position} {p : Position}

def Double.exact (x : Float) : ℚ :=
  match parts x with
  | .finite negative m e => signed negative m * 2 ^ e
  | _ => 0

namespace Mql

/-! ## Values -/

/-- A value: a number, a truth value, a text, or a name that stands for itself. -/
inductive Value where
  | num (q : ℚ)
  | flag (b : Bool)
  | text (s : String)
  | constant (x : String)
deriving DecidableEq

namespace Value

/-- The value as a number. -/
def toNum : Value → ℚ
  | .num q => q
  | .flag b => if b then 1 else 0
  | .text _ | .constant _ => 0

/-- The value as a truth value. -/
def isTrue : Value → Bool
  | .num q => q ≠ 0
  | .flag b => b
  | .text _ | .constant _ => false

@[simp] theorem toNum_num (q : ℚ) : (num q).toNum = q := rfl

@[simp] theorem isTrue_flag (b : Bool) : (flag b).isTrue = b := rfl

end Value

def Literal.value : Literal → Value
  | .int n => .num n
  | .real x => .num (Double.exact x)
  | .decimal digits places => .num (digits / 10 ^ places)
  | .power m e => .num (m * 10 ^ e)
  | .flag b => .flag b
  | .text s => .text s

/-- What an operator gives. -/
def BinaryOp.apply (op : BinaryOp) (a b : Value) : Value :=
  match op with
  | .mul => .num (a.toNum * b.toNum)
  | .div => .num (a.toNum / b.toNum)
  | .add => .num (a.toNum + b.toNum)
  | .sub => .num (a.toNum - b.toNum)
  | .lt => .flag (a.toNum < b.toNum)
  | .le => .flag (a.toNum ≤ b.toNum)
  | .gt => .flag (b.toNum < a.toNum)
  | .ge => .flag (b.toNum ≤ a.toNum)
  | .eq => .flag (a = b)
  | .ne => .flag (a ≠ b)

/-- A number to some decimal places. -/
def roundTo (places : ℕ) (x : ℚ) : ℚ :=
  (x * 10 ^ places + 1 / 2).floor / 10 ^ places

/-! ## Worlds -/

/-- An open position. A stop or a target of zero is none. -/
structure Position where
  ticket : ℚ
  side : Side
  openPrice : ℚ
  stop : ℚ
  target : ℚ
  volume : ℚ
deriving DecidableEq

/-- The constant that the platform has for a side. -/
def Value.ofSide : Side → Value
  | .buy => .constant "POSITION_TYPE_BUY"
  | .sell => .constant "POSITION_TYPE_SELL"

def positionConstants : List String :=
  ["POSITION_SL", "POSITION_TP", "POSITION_PRICE_OPEN", "POSITION_VOLUME", "POSITION_TYPE",
    "POSITION_TYPE_BUY", "POSITION_TYPE_SELL"]

/-- The properties of a position that a program can change, and those that tell how it may. -/
def Position.property? (p : Position) : Value → Option Value
  | .constant "POSITION_SL" => some (.num p.stop)
  | .constant "POSITION_TP" => some (.num p.target)
  | .constant "POSITION_PRICE_OPEN" => some (.num p.openPrice)
  | .constant "POSITION_VOLUME" => some (.num p.volume)
  | .constant "POSITION_TYPE" => some (.ofSide p.side)
  | _ => none

/-- A stop that was set: the position as it was, and its new stop. -/
structure Move where
  position : Position
  stop : ℚ
deriving DecidableEq

/-- Something that code asks for: a call of a function or of a method, a field of a record or an
element of an array; or it tells what is written to one. -/
inductive Query where
  | call (f : String) (args : List Value)
  | send (receiver method : String) (args : List Value)
  | field (v : Value) (name : String)
  | element (v i : Value)
  | write (place : String) (v : Value)

/-- The answers of the platform, given all that was asked before. -/
abbrev Market := List Query → Query → Value

/-- All that outlives a call. A position is selected as it was at that time. -/
structure World where
  positions : List Position
  selected : Option Position
  globals : String → Option Value
  asked : List Query
  moves : List Move

namespace World

/-- The open position of a ticket. -/
def position? (w : World) (ticket : ℚ) : Option Position :=
  w.positions.find? fun p => p.ticket = ticket

/-- Put a question to the platform. -/
def ask (market : Market) (q : Query) (w : World) : Value × World :=
  (market w.asked q, { w with asked := w.asked ++ [q] })

/-- Select the position of a ticket. -/
def select (ticket : ℚ) (w : World) : Value × World :=
  match w.position? ticket with
  | some p => (.flag true, { w with selected := some p })
  | none => (.flag false, w)

/-- Select the position at a place, and give its ticket. -/
def selectAt (i : ℚ) (w : World) : Value × World :=
  match w.positions[i.floor.toNat]? with
  | some p => (.num p.ticket, { w with selected := some p })
  | none => (.num 0, w)

/-- Read a property of the selected position. -/
def read (market : Market) (q : Query) (property : Value) (w : World) : Value × World :=
  match w.selected.bind fun p => p.property? property with
  | some v => (v, w)
  | none => w.ask market q

/-- Put another position, or none, in the place of that of a ticket. -/
def replace (ticket : ℚ) (new : Option Position) (w : World) : World :=
  { w with positions := w.positions.filterMap fun p => if p.ticket = ticket then new else some p }

/-- Set the stop and the target of an open position. -/
def modify (ticket stop target : ℚ) (w : World) : Value × World :=
  match w.position? ticket with
  | some p =>
    (.flag true,
      { w.replace ticket (some { p with stop, target }) with moves := w.moves ++ [⟨p, stop⟩] })
  | none => (.flag false, w)

def closePart (ticket volume : ℚ) (w : World) : Value × World :=
  match w.position? ticket with
  | some p =>
    (.flag true, w.replace ticket
      (if volume < p.volume then some { p with volume := p.volume - volume } else none))
  | none => (.flag false, w)

/-- Close an open position. -/
def close (ticket : ℚ) (w : World) : Value × World :=
  match w.position? ticket with
  | some _ => (.flag true, w.replace ticket none)
  | none => (.flag false, w)

theorem find?_replaced (hnew : ∀ q ∈ new, q.ticket = ticket)
    (other : ℚ) : ∀ ps : List Position,
      (ps.filterMap fun p => if p.ticket = ticket then new else some p).find?
          (fun p => p.ticket = other) =
        if other = ticket then (ps.find? fun p => p.ticket = ticket).bind fun _ => new
        else ps.find? fun p => p.ticket = other
  | [] => by simp
  | p :: ps => by
    have ih := find?_replaced hnew other ps
    by_cases hp : p.ticket = ticket
    · cases new with
      | none =>
        simp only [List.filterMap_cons, hp, if_true, ih, List.find?_cons]
        by_cases hother : other = ticket
        · simp [hother]
        · simp [hother, Ne.symm hother]
      | some q =>
        simp only [List.filterMap_cons, hp, if_true, ih, List.find?_cons, hnew q rfl]
        by_cases hother : other = ticket
        · simp [hother]
        · simp [hother, Ne.symm hother]
    · simp only [List.filterMap_cons, hp, if_false, ih, List.find?_cons]
      by_cases hother : other = ticket
      · simp [hother, hp]
      · simp [hother]

/-- The position of a ticket after another one was put in the place of one. -/
theorem position?_replace {w : World} (hp : w.position? ticket = some p)
    (hnew : ∀ q ∈ new, q.ticket = ticket) (other : ℚ) :
    (w.replace ticket new).position? other = if other = ticket then new else w.position? other := by
  rw [position?] at hp
  rw [position?, replace, find?_replaced hnew, hp]
  rfl

theorem ticket_of_position? {w : World} (h : w.position? ticket = some p) : p.ticket = ticket := by
  simpa using List.find?_some h

theorem selectAt_num (i : ℚ) (w : World) : ∃ ticket, (w.selectAt i).1 = .num ticket := by
  rw [selectAt]
  split <;> exact ⟨_, rfl⟩

end World

/-- What the platform does when it is called. -/
def perform (market : Market) (q : Query) (w : World) : Value × World :=
  match q with
  | .call "PositionsTotal" [] => (.num w.positions.length, w)
  | .call "PositionGetTicket" [i] => w.selectAt i.toNum
  | .call "PositionSelectByTicket" [ticket] => w.select ticket.toNum
  | .call "PositionGetDouble" [property] => w.read market q property
  | .call "PositionGetInteger" [property] => w.read market q property
  | .send "trade" "PositionModify" [ticket, stop, target] =>
    w.modify ticket.toNum stop.toNum target.toNum
  | .send "trade" "PositionClosePartial" [ticket, volume] =>
    w.closePart ticket.toNum volume.toNum
  | .send "trade" "PositionClose" [ticket] => w.close ticket.toNum
  | .call "MathMax" [a, b] => (.num (max a.toNum b.toNum), w)
  | .call "MathMin" [a, b] => (.num (min a.toNum b.toNum), w)
  | .call "MathAbs" [a] => (.num |a.toNum|, w)
  | .call "MathFloor" [a] => (.num a.toNum.floor, w)
  | .call "NormalizeDouble" [x, digits] =>
    (.num (roundTo digits.toNum.floor.toNat x.toNum), w)
  | _ => w.ask market q

/-! ## Expressions -/

/-- What happens when a function is called. -/
abbrev Caller := Query → World → Value × World

/-- The state within a function. -/
structure State where
  locals : String → Option Value
  world : World

namespace State

/-- The value of a name: a constant, or a variable of the function or of the file. -/
def lookup (s : State) (x : String) : Value :=
  if x ∈ positionConstants then .constant x
  else (s.locals x <|> s.world.globals x).getD (.constant x)

theorem lookup_of_local {s : State} {x : String} {v : Value} (hx : x ∉ positionConstants)
    (h : s.locals x = some v) : s.lookup x = v := by
  rw [lookup, if_neg hx, h]
  rfl

def declare (x : String) (v : Value) (s : State) : State :=
  { s with locals := fun y => if y = x then some v else s.locals y }

/-- Set a variable of the file. -/
def setGlobal (x : String) (v : Value) (s : State) : State :=
  { s with world.globals := fun y => if y = x then some v else s.world.globals y }

/-- Set a variable, of the function or of the file. -/
def set (x : String) (v : Value) (s : State) : State :=
  if (s.locals x).isSome then s.declare x v else s.setGlobal x v

/-- Put a question to a function or to the platform. -/
def request (call : Caller) (q : Query) (s : State) : Value × State :=
  ((call q s.world).1, { s with world := (call q s.world).2 })

/-- Set what an expression names. Of what is written to an array the market is told. -/
def store (call : Caller) (target : Expr) (v : Value) (s : State) : State :=
  match target with
  | .name x => s.set x.text v
  | _ => (s.request call (.write target.text v)).2

end State

mutual

/-- The value of an expression, and the state after it. -/
def Expr.eval (call : Caller) : Expr → State → Value × State
  | .lit l, s => (l.value, s)
  | .name x, s => (s.lookup x.text, s)
  | .call f args, s =>
    let (vs, s) := Expr.evalAll call args s
    s.request call (.call f.text vs)
  | .send receiver method args, s =>
    let (vs, s) := Expr.evalAll call args s
    s.request call (.send receiver.text method.text vs)
  | .member e field, s =>
    let (v, s) := e.eval call s
    s.request call (.field v field.text)
  | .index a k, s =>
    let (v, s) := a.eval call s
    let (i, s) := k.eval call s
    s.request call (.element v i)
  | .not e, s =>
    let (v, s) := e.eval call s
    (.flag !v.isTrue, s)
  | .neg e, s =>
    let (v, s) := e.eval call s
    (.num (-v.toNum), s)
  | .increased e, s =>
    let (v, s) := e.eval call s
    (.num (v.toNum + 1), s.store call e (.num (v.toNum + 1)))
  | .increasing e, s =>
    let (v, s) := e.eval call s
    (v, s.store call e (.num (v.toNum + 1)))
  | .cast _ e, s => e.eval call s
  | .binary op a b, s =>
    let (v, s) := a.eval call s
    let (u, s) := b.eval call s
    (op.apply v u, s)
  | .all parts, s => Expr.evalAnd call parts s
  | .any parts, s => Expr.evalOr call parts s
  | .choice c yes no, s =>
    let (v, s) := c.eval call s
    if v.isTrue then yes.eval call s else no.eval call s
  | .group e, s => e.eval call s

def Expr.evalAll (call : Caller) : List Expr → State → List Value × State
  | [], s => ([], s)
  | e :: es, s =>
    let (v, s) := e.eval call s
    let (vs, s) := Expr.evalAll call es s
    (v :: vs, s)

/-- Are all parts true? None is evaluated after one that is not. -/
def Expr.evalAnd (call : Caller) : List Expr → State → Value × State
  | [], s => (.flag true, s)
  | e :: es, s =>
    let (v, s) := e.eval call s
    if v.isTrue then Expr.evalAnd call es s else (.flag false, s)

/-- Is a part true? None is evaluated after one that is. -/
def Expr.evalOr (call : Caller) : List Expr → State → Value × State
  | [], s => (.flag false, s)
  | e :: es, s =>
    let (v, s) := e.eval call s
    if v.isTrue then (.flag true, s) else Expr.evalOr call es s

end

/-! ## Statements -/

/-- How a statement ends: it runs on, goes to the next round of a loop, leaves the loop, or
returns. -/
inductive Flow where
  | on
  | skip
  | stop
  | ret (v : Value)
deriving DecidableEq

/-- Run an action. A function declares no name twice on one way through it, so that all its
variables live side by side. -/
def Action.exec (call : Caller) : Action → State → Flow × State
  | .declare _ x none _, s => (.on, s.declare x.text (.num 0))
  | .declare _ x (some e) _, s =>
    let (v, s) := e.eval call s
    (.on, s.declare x.text v)
  | .declareStatic _ x e, s =>
    if (s.world.globals x.text).isSome then (.on, s)
    else
      let (v, s) := e.eval call s
      (.on, s.setGlobal x.text v)
  | .declareArray _ _, s => (.on, s)
  | .assign target e, s =>
    let (v, s) := e.eval call s
    -- The target is evaluated for what it asks, such as the place in an array.
    (.on, (target.eval call s).2.store call target v)
  | .add target e, s =>
    let (old, s) := target.eval call s
    let (v, s) := e.eval call s
    (.on, s.store call target (.num (old.toNum + v.toNum)))
  | .subtract target e, s =>
    let (old, s) := target.eval call s
    let (v, s) := e.eval call s
    (.on, s.store call target (.num (old.toNum - v.toNum)))
  | .increment target, s =>
    let (old, s) := target.eval call s
    (.on, s.store call target (.num (old.toNum + 1)))
  | .decrement target, s =>
    let (old, s) := target.eval call s
    (.on, s.store call target (.num (old.toNum - 1)))
  | .run e, s => (.on, (e.eval call s).2)
  | .ret, s => (.ret (.num 0), s)
  | .retWith e, s =>
    let (v, s) := e.eval call s
    (.ret v, s)
  | .skip, s => (.skip, s)
  | .stop, s => (.stop, s)

/-- Run a statement after another, if the other runs on. -/
def Flow.andThen (r : Flow × State) (next : State → Flow × State) : Flow × State :=
  match r with
  | (.on, s) => next s
  | r => r

/-- Run a statement if a condition holds, or else another one. -/
def Expr.decideOn (call : Caller) (c : Expr) (yes no : State → Flow × State) (s : State) :
    Flow × State :=
  let (v, s) := c.eval call s
  if v.isTrue then yes s else no s

/-- Run actions one after the other. -/
def Action.execAll (call : Caller) : List Action → State → Flow × State
  | [], s => (.on, s)
  | a :: as, s => Flow.andThen (a.exec call s) (Action.execAll call as)

/-- Run rounds of a loop, at most as many as given. -/
def rounds (test : State → Value × State) (body : State → Flow × State) (next : State → State) :
    ℕ → State → Flow × State
  | 0, s => (.on, s)
  | n + 1, s =>
    let (v, s) := test s
    if v.isTrue then
      match body s with
      | (.on, s) | (.skip, s) => rounds test body next n (next s)
      | (.stop, s) => (.on, s)
      | (.ret v, s) => (.ret v, s)
    else (.on, s)

def Loop.exec (call : Caller) (bound : ℕ) (body : State → Flow × State) :
    Loop → State → Flow × State
  | .count i first test up, s =>
    let (v, s) := first.eval call s
    let step (s : State) : State :=
      s.set i.text (.num ((s.lookup i.text).toNum + if up then 1 else -1))
    rounds (test.eval call) body step bound (s.declare i.text v)
  | .during c, s => rounds (c.eval call) body id bound s

mutual

/-- Run a statement; loops have at most as many rounds as given. -/
def Stmt.exec (call : Caller) (bound : ℕ) : Stmt → State → Flow × State
  | .blank, s | .note _, s | .heading _, s => (.on, s)
  | .act a, s => a.exec call s
  | .remarked t _, s | .deeper t, s => t.exec call bound s
  | .guard c a, s | .guardBelow c a, s => c.decideOn call (a.exec call) (fun s => (.on, s)) s
  | .guardAll c as, s => c.decideOn call (Action.execAll call as) (fun s => (.on, s)) s
  | .eitherBelow c a b, s => c.decideOn call (a.exec call) (b.exec call) s
  | .elseIfBelow c a d b, s =>
    c.decideOn call (a.exec call) (d.decideOn call (b.exec call) fun s => (.on, s)) s
  | .guardTall c more a, s =>
    (Expr.all (c :: more)).decideOn call (a.exec call) (fun s => (.on, s)) s
  | .declareTall _ x c yes no, s =>
    let (v, s) := (Expr.choice c yes no).eval call s
    (.on, s.declare x.text v)
  | .branch c body, s => c.decideOn call (Stmt.execAll call bound body) (fun s => (.on, s)) s
  | .branchElse c yes no, s =>
    c.decideOn call (Stmt.execAll call bound yes) (Stmt.execAll call bound no) s
  | .scope body, s => Stmt.execAll call bound body s
  | .loop head body, s => head.exec call bound (Stmt.execAll call bound body) s
  | .loopBelow head t, s => head.exec call bound (t.exec call bound) s

/-- Run statements one after the other. -/
def Stmt.execAll (call : Caller) (bound : ℕ) : List Stmt → State → Flow × State
  | [], s => (.on, s)
  | t :: ts, s => Flow.andThen (t.exec call bound s) (Stmt.execAll call bound ts)

end

/-! ## Functions -/

/-- The variables of a function at its start. -/
def Function.enter (f : Function) (args : List Value) (x : String) : Option Value :=
  ((f.params.map fun p => p.name.text).zip args).lookup x

def Function.run (f : Function) (call : Caller) (bound : ℕ) (args : List Value) (w : World) :
    Value × World :=
  match Stmt.execAll call bound f.body ⟨f.enter args, w⟩ with
  | (.ret v, s) => (v, s.world)
  | (_, s) => (.num 0, s.world)

/-- A question to the platform, or a call of a function of the program. Functions call each other up
to a depth. -/
def callAt (market : Market) (functions : List Function) (bound : ℕ) : ℕ → Caller
  | depth + 1, .call f args, w =>
    if f ∈ platformCalls then perform market (.call f args) w
    else
      match functions.find? fun g => g.name.text = f with
      | some g => g.run (callAt market functions bound depth) bound args w
      | none => perform market (.call f args) w
  | _, q, w => perform market q w

end Mql

open Mql

/-- The functions of the helper blocks of a program. A call of any other goes to the market. -/
def Program.functions (p : Program) : List Function :=
  p.helpers.flatMap Helper.functions

end TradeGraph

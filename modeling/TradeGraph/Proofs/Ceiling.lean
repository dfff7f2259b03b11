import TradeGraph.Proofs.References

/-!
# Ceilings of the entry block

The entry block is run on an account: the open positions of each side and the trades of the day. The
ceiling of all positions and that of the trades of a day are tested once, before the sides are tried
one after the other. Without hedging at most one side opens a position, so the ceilings are kept.
With hedging both sides may, and the second is not tested again.
-/

namespace TradeGraph

open List Mql
open Mql.Expr (var)

variable {side : Side}

/-! ## Running a block -/

/-- The open positions of the program, and the trades that it has counted today. -/
structure Account where
  buys : Nat
  sells : Nat
  tradesToday : Nat

namespace Account

/-- The open positions of a side. -/
def positions (a : Account) : Side → Nat
  | .buy => a.buys
  | .sell => a.sells

/-- One more position of a side. -/
def opened (a : Account) : Side → Account
  | .buy => { a with buys := a.buys + 1 }
  | .sell => { a with sells := a.sells + 1 }

/-- One more trade today. -/
def counted (a : Account) : Account :=
  { a with tradesToday := a.tradesToday + 1 }

end Account

/-- What is settled when the block is reached: the number of positions at the start of the tick,
what holds of conditions that compare no counts, and the orders that will go through. -/
structure Tick where
  positionsCount : Nat
  truth : Expr → Bool
  accepted : Side → Bool

/-- What a comparison says of two numbers. -/
def Mql.BinaryOp.compares? : BinaryOp → Int → Int → Option Bool
  | .lt, m, n => some (m < n)
  | .le, m, n => some (m ≤ n)
  | .gt, m, n => some (n < m)
  | .ge, m, n => some (n ≤ m)
  | .eq, m, n => some (m = n)
  | .ne, m, n => some (m ≠ n)
  | _, _, _ => none

/-- The side whose order a call places. -/
def Mql.Expr.opens? : Expr → Option Side
  | .call f _ =>
    if f.text == "OpenBuy" then some .buy
    else if f.text == "OpenSell" then some .sell
    else none
  | _ => none

namespace Tick

/-- The number that an expression counts. Positions by type are counted when they are asked for. -/
def number? (tick : Tick) (a : Account) : Expr → Option Int
  | .lit (.int n) => some n
  | .name x =>
    if x.text == "positionsCount" then some tick.positionsCount
    else if x.text == "tradesToday" then some a.tradesToday
    else none
  | .call f [.name x] =>
    if f.text != "CountPositionsByType" then none
    else if x.text == "POSITION_TYPE_BUY" then some a.buys
    else if x.text == "POSITION_TYPE_SELL" then some a.sells
    else none
  | _ => none

mutual

def holds (tick : Tick) (a : Account) : Expr → Bool
  | .not e => !tick.holds a e
  | .all es => tick.allHold a es
  | .binary op x y =>
    ((tick.number? a x).bind fun m => (tick.number? a y).bind (op.compares? m)).getD
      (tick.truth (.binary op x y))
  | e => tick.truth e

def allHold (tick : Tick) (a : Account) : List Expr → Bool
  | [] => true
  | e :: es => tick.holds a e && tick.allHold a es

end

mutual

/-- The account after a statement. An order that goes through opens a position; statements that
neither place an order nor count a trade leave the account as it is. -/
def exec (tick : Tick) : Stmt → Account → Account
  | .branch c body, a =>
    match c.opens? with
    | some side => if tick.accepted side then tick.execAll body (a.opened side) else a
    | none => if tick.holds a c then tick.execAll body a else a
  | .act (.increment (.name x)), a => if x.text == "tradesToday" then a.counted else a
  | _, a => a

/-- The account after statements one after the other. -/
def execAll (tick : Tick) : List Stmt → Account → Account
  | [], a => a
  | s :: ss, a => tick.execAll ss (tick.exec s a)

end

/-- Does the side open a position? -/
def enters (tick : Tick) (s : Settings) (side : Side) (a : Account) : Bool :=
  tick.truth (var (conditionVar side)) && decide ((a.positions side : Int) < s.ceiling side) &&
    (s.allowHedging || decide (a.positions side.other = 0)) && tick.accepted side

/-- The account after a side was tried. -/
def enter (tick : Tick) (s : Settings) (side : Side) (a : Account) : Account :=
  if tick.enters s side a then
    (if s.limitsTrades then (a.opened side).counted else a.opened side)
  else a

end Tick

/-! ## The entry block -/

section Block

variable {tick : Tick} {a : Account} {ctx : Context} {program : Program}

theorem Tick.allHold_append {es fs : List Expr} :
    tick.allHold a (es ++ fs) = (tick.allHold a es && tick.allHold a fs) := by
  induction es with
  | nil => rfl
  | cons e es ih =>
    rw [cons_append, Tick.allHold, Tick.allHold, ih, Bool.and_assoc]

theorem Tick.number?_positionsOf (side : Side) :
    tick.number? a (positionsOf side) = some (a.positions side) := by
  cases side <;> rfl

theorem Tick.holds_sideGate (s : Settings) (side : Side) :
    tick.holds a (sideGate s side) =
      (tick.truth (var (conditionVar side)) && decide ((a.positions side : Int) < s.ceiling side) &&
        (s.allowHedging || decide (a.positions side.other = 0))) := by
  have hceiling : tick.holds a ((positionsOf side).lt (s.ceiling side)) =
      decide ((a.positions side : Int) < s.ceiling side) := by
    rw [Expr.lt, Tick.holds, Tick.number?_positionsOf]
    rfl
  have hother : tick.holds a ((positionsOf side.other).eq 0) =
      decide (a.positions side.other = 0) := by
    rw [Expr.eq, Tick.holds, Tick.number?_positionsOf]
    show decide ((a.positions side.other : Int) = 0) = _
    simp
  cases hhedging : s.allowHedging <;>
    simp [sideGate, hhedging, Tick.holds, Tick.allHold, hceiling, hother, Bool.and_assoc]

theorem opens?_placeOrder {s : Sizing} (hmarket : s.isPending = false)
    (options : Options) (stop target : Expr) :
    (placeOrder side s options stop target).opens? = some side := by
  simp only [placeOrder, orderFunction, hmarket, Expr.opens?]
  cases side <;> rfl

theorem opens?_sideGate (s : Settings) (side : Side) : (sideGate s side).opens? = none := rfl

theorem execAll_afterOrder (s : Settings) :
    tick.execAll (afterOrder s) a = if s.limitsTrades then a.counted else a := by
  have hassign : tick.exec (.assign "lastEntryBar" "currentBarTime") a = a := rfl
  have hcount : tick.exec (.act (.increment "tradesToday")) a = a.counted := rfl
  rw [afterOrder, Tick.execAll, hassign]
  cases s.limitsTrades with
  | true =>
    simp only [if_true]
    rw [Tick.execAll, hcount]
    rfl
  | false => rfl

theorem exec_sideBlock {s : Sizing} (hmarket : s.isPending = false) :
    tick.exec (sideBlock ctx program side s) a = tick.enter ctx.settings side a := by
  rw [sideBlock, Tick.exec, opens?_sideGate]
  simp only [Tick.execAll, Tick.exec, opens?_placeOrder hmarket, execAll_afterOrder,
    Tick.holds_sideGate, Tick.enter, Tick.enters]
  by_cases haccepted : tick.accepted side = true <;> simp [haccepted]

theorem execAll_sideBlocks {sizes : List (Side × Sizing)}
    (hmarket : ∀ x ∈ sizes, x.2.isPending = false) :
    tick.execAll (sizes.map fun (side, s) => sideBlock ctx program side s) a =
      (sizes.map Prod.fst).foldl (fun a side => tick.enter ctx.settings side a) a := by
  induction sizes generalizing a with
  | nil => rfl
  | cons x xs ih =>
    rw [map_cons, Tick.execAll, exec_sideBlock (hmarket x mem_cons_self),
      ih fun y hy => hmarket y (mem_cons_of_mem _ hy)]
    rfl

/-- **What the entry block does**: if its gates hold, it tries the sides one after the other. -/
theorem exec_executeBlock {sizes : List (Side × Sizing)}
    (hmarket : ∀ x ∈ sizes, x.2.isPending = false) :
    tick.exec (executeBlock ctx program sizes) a =
      if tick.allHold a (entryGates ctx program) then
        (sizes.map Prod.fst).foldl (fun a side => tick.enter ctx.settings side a) a
      else a := by
  have hnone : (sizes.any fun (_, s) => s.isPending) = false :=
    any_eq_false.mpr fun x hx => by simp [hmarket x hx]
  have hgates : (Expr.all (entryGates ctx program)).opens? = none := rfl
  rw [executeBlock, Tick.exec, hgates, Tick.holds]
  simp only [hnone, Bool.false_eq_true, if_false, nil_append, execAll_sideBlocks hmarket]

end Block

/-! ## Ceilings -/

/-- The account is within the ceiling of all positions and, if there is one, within that of the
trades of a day. -/
def Settings.Within (s : Settings) (a : Account) : Prop :=
  (a.buys + a.sells : Int) ≤ s.maxOpenTrades ∧
    (s.limitsTrades = true → (a.tradesToday : Int) ≤ s.maxTradesPerDay)

/-- There is room for one more position. -/
def Settings.Room (s : Settings) (a : Account) : Prop :=
  (a.buys + a.sells : Int) < s.maxOpenTrades ∧
    (s.limitsTrades = true → (a.tradesToday : Int) < s.maxTradesPerDay)

/-- Both sides may open a position in one tick, and that is one more than a ceiling may allow. -/
def Settings.Overshoots (s : Settings) : Prop :=
  s.allowHedging = true ∧ 1 ≤ s.maxOpenTrades ∧ 1 ≤ s.maxBuyPositions ∧ 1 ≤ s.maxSellPositions ∧
    (s.limitsTrades = true ∨ s.maxOpenTrades < s.maxBuyPositions + s.maxSellPositions)

section Ceilings

variable {tick : Tick} {a : Account} {s : Settings}

theorem Tick.enter_of_not_enters (h : tick.enters s side a = false) :
    tick.enter s side a = a := by
  rw [Tick.enter, h]
  rfl

/-- What a side adds: one position of its own, and a trade if trades are counted. -/
theorem Tick.enter_buy (h : tick.enters s .buy a = true) :
    (tick.enter s .buy a).buys = a.buys + 1 ∧ (tick.enter s .buy a).sells = a.sells ∧
      (s.limitsTrades = true → (tick.enter s .buy a).tradesToday = a.tradesToday + 1) := by
  rw [Tick.enter, h]
  cases s.limitsTrades <;> simp [Account.opened, Account.counted]

theorem Tick.enter_sell (h : tick.enters s .sell a = true) :
    (tick.enter s .sell a).sells = a.sells + 1 ∧ (tick.enter s .sell a).buys = a.buys ∧
      (s.limitsTrades = true → (tick.enter s .sell a).tradesToday = a.tradesToday + 1) := by
  rw [Tick.enter, h]
  cases s.limitsTrades <;> simp [Account.opened, Account.counted]

theorem Tick.enters_iff : tick.enters s side a = true ↔
    tick.truth (var (conditionVar side)) = true ∧ (a.positions side : Int) < s.ceiling side ∧
      (s.allowHedging = true ∨ a.positions side.other = 0) ∧ tick.accepted side = true := by
  simp only [Tick.enters, Bool.and_eq_true, Bool.or_eq_true, decide_eq_true_eq, and_assoc]

theorem Settings.Room.within (h : s.Room a) : s.Within a :=
  ⟨Int.le_of_lt h.1, fun hlimits => Int.le_of_lt (h.2 hlimits)⟩

theorem Settings.Room.enter (h : s.Room a) (side : Side) : s.Within (tick.enter s side a) := by
  obtain ⟨hpositions, htrades⟩ := h
  cases henters : tick.enters s side a with
  | false =>
    rw [Tick.enter_of_not_enters henters]
    exact Settings.Room.within ⟨hpositions, htrades⟩
  | true =>
    cases side
    case' buy => obtain ⟨hbuys, hsells, hcount⟩ := Tick.enter_buy henters
    case' sell => obtain ⟨hsells, hbuys, hcount⟩ := Tick.enter_sell henters
    all_goals
      refine ⟨by rw [hbuys, hsells]; omega, fun hlimits => ?_⟩
      have := htrades hlimits
      rw [hcount hlimits]
      omega

theorem Settings.Room.enter_both (h : s.Room a) (hs : ¬ s.Overshoots) :
    s.Within (tick.enter s .sell (tick.enter s .buy a)) := by
  cases hbuy : tick.enters s .buy a with
  | false =>
    rw [Tick.enter_of_not_enters hbuy]
    exact h.enter .sell
  | true =>
    cases hsell : tick.enters s .sell (tick.enter s .buy a) with
    | false =>
      rw [Tick.enter_of_not_enters hsell]
      exact h.enter .buy
    | true =>
      -- both sides open a position, so there is hedging and room for two
      obtain ⟨hbuys, hsells, hcount⟩ := Tick.enter_buy hbuy
      obtain ⟨hsells', hbuys', hcount'⟩ := Tick.enter_sell hsell
      obtain ⟨-, hbuyroom, -, -⟩ := Tick.enters_iff.mp hbuy
      obtain ⟨-, hsellroom, hhedging, -⟩ := Tick.enters_iff.mp hsell
      obtain ⟨hpositions, -⟩ := h
      have hhedging : s.allowHedging = true := by
        refine hhedging.resolve_right fun hnone => ?_
        have : (tick.enter s .buy a).buys = 0 := hnone
        omega
      have hbuyroom : (a.buys : Int) < s.maxBuyPositions := hbuyroom
      have hsellroom : ((tick.enter s .buy a).sells : Int) < s.maxSellPositions := hsellroom
      rw [hsells] at hsellroom
      have hfree : ¬ (s.limitsTrades = true ∨
          s.maxOpenTrades < s.maxBuyPositions + s.maxSellPositions) := fun hbreach =>
        hs ⟨hhedging, by omega, by omega, by omega, hbreach⟩
      rw [not_or] at hfree
      refine ⟨?_, fun hlimits => absurd hlimits hfree.1⟩
      rw [hsells', hbuys', hbuys, hsells]
      omega

theorem Settings.Overshoots.exists_account (hs : s.Overshoots) :
    ∃ a : Account, s.Room a ∧ (a.buys : Int) < s.maxBuyPositions ∧
      (a.sells : Int) < s.maxSellPositions ∧
      (s.limitsTrades = true ∧ s.maxTradesPerDay = a.tradesToday + 1 ∨
        s.maxOpenTrades = a.buys + a.sells + 1) := by
  obtain ⟨-, hopen, hbuys, hsells, hbreach⟩ := hs
  cases hlimits : s.limitsTrades with
  | true =>
    -- one trade is left for today
    have hpositive : 0 < s.maxTradesPerDay := by simpa [Settings.limitsTrades] using hlimits
    refine ⟨⟨0, 0, (s.maxTradesPerDay - 1).toNat⟩, ⟨?_, fun _ => ?_⟩, ?_, ?_, .inl ⟨rfl, ?_⟩⟩ <;>
      simp only <;> omega
  | false =>
    have hsum : s.maxOpenTrades < s.maxBuyPositions + s.maxSellPositions :=
      hbreach.resolve_left (by rw [hlimits]; decide)
    refine ⟨⟨(min s.maxBuyPositions s.maxOpenTrades - 1).toNat,
      (s.maxOpenTrades - min s.maxBuyPositions s.maxOpenTrades).toNat, 0⟩,
      ⟨?_, fun h => ?_⟩, ?_, ?_, .inr ?_⟩
    · simp only
      omega
    · rw [hlimits] at h
      cases h
    · simp only
      omega
    · simp only
      omega
    · simp only
      omega

theorem Settings.Overshoots.not_within (hs : s.Overshoots)
    (hbuys : (a.buys : Int) < s.maxBuyPositions)
    (hsells : (a.sells : Int) < s.maxSellPositions)
    (hlast : s.limitsTrades = true ∧ s.maxTradesPerDay = a.tradesToday + 1 ∨
      s.maxOpenTrades = a.buys + a.sells + 1)
    (htruth : ∀ side, tick.truth (var (conditionVar side)) = true)
    (haccepted : ∀ side, tick.accepted side = true) :
    ¬ s.Within (tick.enter s .sell (tick.enter s .buy a)) := by
  have hbuy : tick.enters s .buy a = true :=
    Tick.enters_iff.mpr ⟨htruth _, hbuys, .inl hs.1, haccepted _⟩
  obtain ⟨hb, hsl, hcount⟩ := Tick.enter_buy hbuy
  have hsell : tick.enters s .sell (tick.enter s .buy a) = true := by
    refine Tick.enters_iff.mpr ⟨htruth _, ?_, .inl hs.1, haccepted _⟩
    show ((tick.enter s .buy a).sells : Int) < s.maxSellPositions
    rwa [hsl]
  obtain ⟨hsl', hb', hcount'⟩ := Tick.enter_sell hsell
  rintro ⟨hpositions, htrades⟩
  rw [hsl', hb', hb, hsl] at hpositions
  rcases hlast with ⟨hlimits, hlast⟩ | hlast
  · have := htrades hlimits
    rw [hcount' hlimits, hcount hlimits] at this
    omega
  · omega

end Ceilings

/-! ## Gates -/

section Gates

variable {tick : Tick} {a : Account} {ctx : Context} {program : Program}

theorem room_of_entryGates (hcount : tick.positionsCount = a.buys + a.sells)
    (h : tick.allHold a (entryGates ctx program) = true) : ctx.settings.Room a := by
  simp only [entryGates, Tick.allHold_append, Bool.and_eq_true] at h
  obtain ⟨⟨⟨⟨-, hpositions⟩, -⟩, htrades⟩, -⟩ := h
  constructor
  · have hlt : tick.holds a ((var "positionsCount").lt ctx.settings.maxOpenTrades) = true := by
      rw [Tick.allHold, Bool.and_eq_true] at hpositions
      exact hpositions.1
    have hlt : decide ((tick.positionsCount : Int) < ctx.settings.maxOpenTrades) = true := hlt
    rw [decide_eq_true_eq, hcount] at hlt
    exact_mod_cast hlt
  · intro hlimits
    rw [hlimits] at htrades
    have hlt : tick.holds a ((var "tradesToday").lt ctx.settings.maxTradesPerDay) = true := by
      rw [if_pos rfl, Tick.allHold, Bool.and_eq_true] at htrades
      exact htrades.1
    have hlt : decide ((a.tradesToday : Int) < ctx.settings.maxTradesPerDay) = true := hlt
    exact decide_eq_true_eq.mp hlt

/-- Flags that stand in the way of an entry when they are set. -/
def blocking : List String :=
  ["pastCloseTime", "dailyLimitHit"]

/-- A tick on which nothing but the ceilings is in the way of an entry. -/
def Account.clearTick (a : Account) : Tick where
  positionsCount := a.buys + a.sells
  truth
    | .name x => !blocking.contains x.stem
    | _ => true
  accepted _ := true

theorem Program.Gated.allHold (h : program.Gated) :
    a.clearTick.allHold a program.gates = true := by
  have hgate : ∀ e, isGate e = true → a.clearTick.holds a e = true := by
    intro e he
    unfold isGate at he
    split at he
    · rename_i x
      show (!blocking.contains x.stem) = true
      have : ∀ w ∈ ["spreadOk", "atrOk", "tpAtrOk"], (!blocking.contains w) = true := by decide
      exact this x.stem (contains_iff_mem.mp he)
    · rename_i x
      show (!(!blocking.contains x.stem)) = true
      rw [beq_iff_eq.mp he]
      decide
    · cases he
  rw [Program.Gated, all_eq_true] at h
  generalize program.gates = gates at h
  induction gates with
  | nil => rfl
  | cons e es ih =>
    rw [Tick.allHold, hgate e (h e mem_cons_self),
      ih fun d hd => h d (mem_cons_of_mem _ hd)]
    rfl

theorem entryGates_of_room (hgated : program.Gated) (h : ctx.settings.Room a) :
    a.clearTick.allHold a (entryGates ctx program) = true := by
  obtain ⟨hpositions, htrades⟩ := h
  simp only [entryGates, Tick.allHold_append, Bool.and_eq_true]
  refine ⟨⟨⟨⟨?_, ?_⟩, hgated.allHold⟩, ?_⟩, ?_⟩
  · cases ctx.hasTiming <;> rfl
  · have hlt : a.clearTick.holds a ((var "positionsCount").lt ctx.settings.maxOpenTrades) =
        decide (((a.buys + a.sells : Nat) : Int) < ctx.settings.maxOpenTrades) := rfl
    rw [Tick.allHold, hlt, decide_eq_true (by exact_mod_cast hpositions)]
    rfl
  · cases hlimits : ctx.settings.limitsTrades with
    | false => rfl
    | true =>
      have hlt : a.clearTick.holds a ((var "tradesToday").lt ctx.settings.maxTradesPerDay) =
          decide ((a.tradesToday : Int) < ctx.settings.maxTradesPerDay) := rfl
      rw [if_pos rfl, Tick.allHold, hlt, decide_eq_true (htrades hlimits)]
      rfl
  · cases ctx.settings.limitsResult <;> rfl

end Gates

/-! ## Compiled programs -/

/-- The block is the one under the heading of the entry. -/
def Compiled.Executes (c : Compiled) (block : Stmt) : Prop :=
  [.heading "Execute Entry", block] <:+: c.program.tick

def Graph.orders (g : Graph) : Orders :=
  (Roles.ofNodes g.liveNodes).orders

def Node.isMarket (n : Node) : Bool :=
  n.sizing?.any fun s => !s.isPending

theorem Orders.mem_sides {o : Orders} {n : Node} (h : o.of side = some n) :
    side ∈ o.sides := by
  cases side <;> simp [Orders.of] at h <;> simp [Orders.sides, h]

theorem Orders.nodup_sides (o : Orders) : o.sides.Nodup := by
  rw [Orders.sides]
  split_ifs <;> decide

/-- What stands after the block if one order cancels the other. -/
def cancelStmts : List Stmt :=
  [.blank,
    .heading "One cancels other: drop the remaining pending orders once a position is open",
    .guard ((var "positionsCount").gt 0) (.run (.call "DeletePendingOrders" []))]

theorem entryOrders_tick (ctx : Context) (program : Program) (inputs : List Input)
    (sizes : List (Side × Sizing)) (priceAction : List Node) :
    ∃ after ∈ [[], cancelStmts], (entryOrders ctx program inputs sizes priceAction).code.tick =
      .blank :: .heading "Execute Entry" :: executeBlock ctx program sizes :: after := by
  have hsupport (b : Bool) (p : Program) :
      Program.tick (if b then {} else pendingNeeds p) = [] := by
    cases b <;> rfl
  simp only [entryOrders, Program.append_tick, hsupport, nil_append, cons_append]
  refine ⟨_, ?_, rfl⟩
  split <;> simp [cancelStmts]

/-- A compile with orders, cut before its entry and after it. The entry is made in the program that
the steps before it have come to: an opening, the block of orders, and what stands after it. -/
structure Graph.Cut (g : Graph) (c : Compiled) (signalled risked : Program)
    (sizes : List (Side × Sizing)) (conditions : Conditions) (after : List Stmt) : Prop where
  signals : Run (signalSteps (Roles.ofNodes g.liveNodes) c.context)
    (generalInputs c.context.settings) signalled
  risk : Run (riskSteps (Roles.ofNodes g.liveNodes) (expand g.nodes g.edges).edges g.knownIds
    c.context) signalled risked
  sides : sizes.map Prod.fst = g.orders.sides
  sizing : ∀ x ∈ sizes, ∃ n, g.orders.of x.1 = some n ∧ n.sizing? = some x.2
  joins : ∃ inputs, allConditions (Roles.ofNodes g.liveNodes).indicators
    (Roles.ofNodes g.liveNodes).priceAction risked = (inputs, .ok conditions)
  cancels : after ∈ [[], cancelStmts]
  exits : ∃ entry : Program, entry.tick = (entryOpening c.context g.orders conditions).tick ++
      .blank :: .heading "Execute Entry" :: executeBlock c.context risked sizes :: after ∧
    Run (exitSteps (Roles.ofNodes g.liveNodes) (expand g.nodes g.edges).edges c.context)
      (risked ++ entry) c.program

section Compiles

variable {g : Graph} {project : String} {options : Options} {c : Compiled}

theorem gated_of_run {r : Roles} {edges : List Edge} {known : List String} {ctx : Context}
    {m : Program} (h : Run (signalSteps r ctx ++ riskSteps r edges known ctx)
      (generalInputs ctx.settings) m) : m.Gated := by
  refine h.invariant (I := Program.Gated) (fun s hs p hp _ => hp.append ?_) rfl
  have hearlier : s ∈ earlierSteps r edges known ctx := by
    rw [signalSteps, ← append_assoc] at hs
    exact mem_append_left _ (mem_append_left _ (mem_append_left _ hs))
  exact ((mem_earlierSteps_iff.mp hearlier).asks p).gated

theorem Graph.exists_cut (h : (g.compile project options).result = .ok c)
    (horder : g.orders.sides ≠ []) :
    ∃ signalled risked sizes conditions after, g.Cut c signalled risked sizes conditions after := by
  have hsized : ∀ side n, g.orders.of side = some n → ∃ s, n.sizing? = some s :=
    fun _ _ => sizing_of_order
  obtain ⟨sizes, hsizes, hsides, hnodes⟩ := orderSizes_ok hsized
  have hsome : (g.orders.buy.isNone && g.orders.sell.isNone) = false := by
    rw [Bool.eq_false_iff]
    intro hnone
    simp only [Bool.and_eq_true, Option.isNone_iff_eq_none] at hnone
    exact horder (by simp [Orders.sides, hnone])
  obtain ⟨signalled, risked, hsignals, hrisk, hrun⟩ := (Graph.run_of_roles h).around_entry
  obtain ⟨entered, hentry, hexits⟩ := Run.cons_iff.mp hrun
  obtain rfl := hentry.eq_append
  have hfault := hentry.fault
  change (emitEntry _ _ g.orders c.context risked).fault = none at hfault
  change Run _ (risked ++ (emitEntry _ _ g.orders c.context risked).code) _ at hexits
  rw [emitEntry, hsome] at hfault hexits
  simp only [Bool.false_eq_true, if_false, hsizes] at hfault hexits
  split at hfault
  · cases hfault
  · rename_i inputs cs hall
    simp only [hall] at hexits
    obtain ⟨after, hafter, htick⟩ := entryOrders_tick c.context risked inputs sizes
      (Roles.ofNodes g.liveNodes).priceAction
    refine ⟨signalled, risked, sizes, cs, after, hsignals, hrisk, hsides, hnodes, ⟨inputs, hall⟩,
      hafter, _, ?_, hexits⟩
    rw [Program.append_tick, Program.append_tick, htick]
    rfl

namespace Graph.Cut

variable {signalled risked : Program} {sizes : List (Side × Sizing)} {conditions : Conditions}
    {after : List Stmt}

theorem gated (h : g.Cut c signalled risked sizes conditions after) : risked.Gated :=
  gated_of_run (Run.append_iff.mpr ⟨_, h.signals, h.risk⟩)

theorem nodup (h : g.Cut c signalled risked sizes conditions after) : (sizes.map Prod.fst).Nodup :=
  h.sides ▸ g.orders.nodup_sides

theorem mem (h : g.Cut c signalled risked sizes conditions after) {n : Node}
    (hn : g.orders.of side = some n) : ∃ s, n.sizing? = some s ∧ (side, s) ∈ sizes := by
  obtain ⟨⟨other, s⟩, hs, rfl⟩ := mem_map.mp (h.sides ▸ Orders.mem_sides hn)
  obtain ⟨m, hm, hsize⟩ := h.sizing _ hs
  obtain rfl : n = m := Option.some.inj (hn.symm.trans hm)
  exact ⟨s, hsize, hs⟩

end Graph.Cut

/-- A compiled program with orders has the entry block, behind gates of the known form. -/
theorem Graph.executes (h : (g.compile project options).result = .ok c)
    (horder : g.orders.sides ≠ []) :
    ∃ program sizes, c.Executes (executeBlock c.context program sizes) ∧ program.Gated ∧
      sizes.map Prod.fst = g.orders.sides ∧
      ∀ x ∈ sizes, ∃ n, g.orders.of x.1 = some n ∧ n.sizing? = some x.2 := by
  obtain ⟨signalled, risked, sizes, cs, after, hcut⟩ := Graph.exists_cut h horder
  obtain ⟨entry, hentry, hexits⟩ := hcut.exits
  obtain ⟨rest, hprogram⟩ := hexits.exists_append
  refine ⟨risked, sizes, ?_, hcut.gated, hcut.sides, hcut.sizing⟩
  rw [Compiled.Executes, hprogram, Program.append_tick, Program.append_tick, hentry]
  exact ⟨risked.tick ++ ((entryOpening c.context g.orders cs).tick ++ [.blank]), after ++ rest.tick,
    by simp⟩

theorem Graph.settings_of_compile (h : (g.compile project options).result = .ok c) :
    c.context.settings = g.settings := by
  obtain ⟨r, -, hcontext, -⟩ := Graph.run_of_compile h
  rw [hcontext]
  rfl

theorem market_of_sizes {orders : Orders} {sizes : List (Side × Sizing)}
    (hmarket : ∀ side n, orders.of side = some n → n.isMarket = true)
    (hnodes : ∀ x ∈ sizes, ∃ n, orders.of x.1 = some n ∧ n.sizing? = some x.2) :
    ∀ x ∈ sizes, x.2.isPending = false := by
  intro x hx
  obtain ⟨n, hn, hsize⟩ := hnodes x hx
  have hnode := hmarket x.1 n hn
  rw [Node.isMarket, hsize] at hnode
  simpa using hnode

/-- Within its ceilings, a block that tries the sides one after the other stays there exactly if the
settings do not overshoot or a side has no order. -/
theorem keeps_ceilings_iff {s : Settings} {orders : Orders} {gates : Tick → Account → Bool}
    (hroom : ∀ tick a, tick.positionsCount = a.buys + a.sells → gates tick a = true → s.Room a)
    (hclear : ∀ a, s.Room a → gates a.clearTick a = true) :
    (∀ tick a, tick.positionsCount = a.buys + a.sells → s.Within a →
      s.Within (if gates tick a then orders.sides.foldl (fun a side => tick.enter s side a) a
        else a)) ↔
      ¬ (orders.buy.isSome ∧ orders.sell.isSome ∧ s.Overshoots) := by
  constructor
  · rintro hkeeps ⟨hbuy, hsell, hs⟩
    obtain ⟨a, ha, hbuys, hsells, hlast⟩ := hs.exists_account
    have hafter := hkeeps a.clearTick a rfl ha.within
    rw [hclear a ha, if_pos rfl] at hafter
    simp only [Orders.sides, hbuy, hsell, if_true, singleton_append, foldl_cons,
      foldl_nil] at hafter
    exact hs.not_within hbuys hsells hlast (fun side => by cases side <;> rfl) (fun _ => rfl) hafter
  · intro hsafe tick a hcount hwithin
    cases hgates : gates tick a with
    | false => exact hwithin
    | true =>
      have ha := hroom tick a hcount hgates
      rw [if_pos rfl]
      cases hbuy : orders.buy.isSome <;> cases hsell : orders.sell.isSome <;>
        simp only [Orders.sides, hbuy, hsell, Bool.false_eq_true, if_true, if_false,
          nil_append, append_nil, singleton_append, foldl_cons,
          foldl_nil]
      · exact hwithin
      · exact ha.enter .sell
      · exact ha.enter .buy
      · exact ha.enter_both fun hs => hsafe ⟨hbuy, hsell, hs⟩

end Compiles

/-- **When the entry block keeps its ceilings.** For orders at the market, run the entry block of a
compiled program on an account that is within the ceilings, on any tick. The account stays within
the ceilings, whatever holds on the tick and whichever orders go through, exactly if one side has no
order or the settings do not overshoot: without hedging in particular. -/
theorem entry_keeps_ceilings_iff {g : Graph} {project : String} {options : Options} {c : Compiled}
    (h : (g.compile project options).result = .ok c) (horder : g.orders.sides ≠ [])
    (hmarket : ∀ side n, g.orders.of side = some n → n.isMarket = true) :
    ∃ block, c.Executes block ∧
      ((∀ (tick : Tick) (a : Account), tick.positionsCount = a.buys + a.sells →
          g.settings.Within a → g.settings.Within (tick.exec block a)) ↔
        ¬ (g.orders.buy.isSome ∧ g.orders.sell.isSome ∧ g.settings.Overshoots)) := by
  obtain ⟨program, sizes, hexecutes, hgated, hsides, hnodes⟩ := Graph.executes h horder
  have hsettings := Graph.settings_of_compile h
  refine ⟨_, hexecutes, ?_⟩
  simp only [exec_executeBlock (market_of_sizes hmarket hnodes), hsides, hsettings]
  rw [← hsettings]
  exact keeps_ceilings_iff (fun tick a hcount hgates => room_of_entryGates hcount hgates)
    fun a ha => entryGates_of_room hgated ha

/-- Two signals of which each may call for its own side. -/
def twoSidedDocument (hedging : Bool) : Json :=
  .obj [("nodes", .arr [.node "rsi" "rsi", .node "cci" "cci", .node "buy" "place-buy",
    .node "sell" "place-sell"]),
    ("settings", .obj [("maxOpenTrades", .int 1), ("allowHedging", .bool hedging),
      ("conditionMode", .str "OR")])]

def twoSidedGraph (hedging : Bool) : Graph := (twoSidedDocument hedging).graph

theorem twoSided_compiles (hedging : Bool) :
    ∃ c, ((twoSidedGraph hedging).compile "Test" {}).result = .ok c := by
  cases hedging
  · exact Graph.compile_ok_of_methods (by decide) "Test"
  · exact Graph.compile_ok_of_methods (by decide) "Test"

theorem twoSided_orders (hedging : Bool) :
    (twoSidedGraph hedging).orders.sides = [.buy, .sell] ∧
      ∀ side n, (twoSidedGraph hedging).orders.of side = some n → n.isMarket = true := by
  have hmarket (side : Side) :
      ((twoSidedGraph hedging).orders.of side).all Node.isMarket = true := by
    cases hedging <;> cases side <;> decide
  refine ⟨by cases hedging <;> decide, fun side n hn => ?_⟩
  have := hmarket side
  rwa [hn] at this

theorem entry_keeps_ceilings_unhedged :
    ∃ c block, ((twoSidedGraph false).compile "Test" {}).result = .ok c ∧ c.Executes block ∧
      ∀ (tick : Tick) (a : Account), tick.positionsCount = a.buys + a.sells →
        (twoSidedGraph false).settings.Within a →
          (twoSidedGraph false).settings.Within (tick.exec block a) := by
  obtain ⟨c, hc⟩ := twoSided_compiles false
  obtain ⟨hsides, hmarket⟩ := twoSided_orders false
  obtain ⟨block, hexecutes, hkeeps⟩ :=
    entry_keeps_ceilings_iff hc (by rw [hsides]; decide) hmarket
  refine ⟨c, block, hc, hexecutes, hkeeps.mpr ?_⟩
  rintro ⟨-, -, hhedging, -⟩
  cases hhedging

/-- With hedging, both sides may open a position on one tick: then there are two, where one is the
ceiling. -/
theorem entry_exceeds_ceiling_hedged :
    ∃ c block, (compile (twoSidedDocument true) "Test" {}).result = .ok c ∧ c.Executes block ∧
      c.context.settings.maxOpenTrades = 1 ∧
      ∃ tick : Tick, tick.positionsCount = 0 ∧ tick.exec block ⟨0, 0, 0⟩ = ⟨1, 1, 0⟩ := by
  have hload : Graph.load (twoSidedDocument true) = .ok (twoSidedGraph true) := rfl
  obtain ⟨c, hc⟩ := twoSided_compiles true
  obtain ⟨hsides, hmarket⟩ := twoSided_orders true
  obtain ⟨program, sizes, hexecutes, hgated, hsame, hnodes⟩ :=
    Graph.executes hc (by rw [hsides]; decide)
  have hsettings : c.context.settings = (twoSidedGraph true).settings :=
    Graph.settings_of_compile hc
  let a : Account := ⟨0, 0, 0⟩
  have hroom : c.context.settings.Room a := by
    rw [hsettings]
    exact ⟨by decide, fun hlimits => by cases hlimits⟩
  refine ⟨c, _, ?_, hexecutes, by rw [hsettings]; rfl, a.clearTick, rfl, ?_⟩
  · rw [compile, hload]
    exact hc
  · rw [exec_executeBlock (market_of_sizes hmarket hnodes), entryGates_of_room hgated hroom,
      if_pos rfl, hsame, hsides, hsettings]
    rfl

end TradeGraph

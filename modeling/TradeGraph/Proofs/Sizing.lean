import TradeGraph.Proofs.Ceiling
import TradeGraph.Proofs.Events
import TradeGraph.Proofs.Refresh

/-!
# Sizes and stops

A lot that risks a share of the balance is computed from the distance of the stop, and the order is
then placed with a stop at some distance. The two distances are chosen by different parts of a
program. They are the same variable in all cases but one: if a pending order meets a stop in
percent, the lot is computed once more from a distance that the order is not placed with.
-/

namespace TradeGraph

open List Mql Mql.Platform

variable {ctx : Context} {xs : List (Side × Sizing)} {es : List Event} {n : Node}
    {program : Program} {side : Side} {s : Sizing}
variable {fs : List Event} {other : Side} {c : Compiled} {project : String} {options : Options}

/-! ## Events of trading -/

def Side.orderNames (side : Side) : List String :=
  ["Open" ++ side.label, "Place" ++ side.label ++ "Stop", "Place" ++ side.label ++ "Limit"]

/-- The functions that place orders. -/
def orderCalls : List String :=
  Side.buy.orderNames ++ Side.sell.orderNames

theorem mem_orderCalls {f : String} (h : f ∈ side.orderNames) : f ∈ orderCalls := by
  cases side with
  | buy => exact mem_append_left _ h
  | sell => exact mem_append_right _ h

/-- The functions that compute sizes and place orders. -/
def tradeCalls : List String :=
  "CalculateLotSize" :: orderCalls

theorem tradeCalls_withheld : Withheld tradeCalls := by
  unfold Withheld
  decide

theorem orderCalls_withheld : Withheld orderCalls :=
  fun f hf => tradeCalls_withheld f (mem_cons_of_mem _ hf)

namespace Mql.Event

/-- The event places an order of the side. -/
def Places (side : Side) : Event → Prop
  | .calls f _ => f ∈ side.orderNames
  | .sets _ _ => False

/-- The distance of the stop that the event computes the lot of the side from. -/
def sized? (side : Side) : Event → Option Expr
  | .sets x (.call f [_, distance]) =>
    if x = (lotVar side).text ∧ f.text = "CalculateLotSize" then some distance else none
  | _ => none

theorem Spares.not_places {e : Event} (h : e.Spares orderCalls) (side : Side) :
    ¬ e.Places side := by
  cases e with
  | calls f args => exact fun hf => h (mem_orderCalls hf)
  | sets x v => exact id

theorem Spares.sized?_eq_none {e : Event} (h : e.Spares tradeCalls) (side : Side) :
    e.sized? side = none := by
  unfold sized?
  split
  · rename_i f _ _
    have hname : f.text ≠ "CalculateLotSize" := fun heq => h (heq ▸ mem_cons_self)
    rw [if_neg fun hboth => hname hboth.2]
  · rfl

end Mql.Event

def lotDistances (side : Side) (events : List Event) : List Expr :=
  events.filterMap (Event.sized? side)

theorem lotDistances_append (side : Side) (es fs : List Event) :
    lotDistances side (es ++ fs) = lotDistances side es ++ lotDistances side fs :=
  filterMap_append

theorem lotDistances_of_spare (h : AllSpare tradeCalls es) (side : Side) :
    lotDistances side es = [] :=
  filterMap_eq_nil_iff.mpr fun e he => (h e he).sized?_eq_none side

/-- No event places an order of the side. -/
def NoOrder (side : Side) (events : List Event) : Prop :=
  ∀ e ∈ events, ¬ e.Places side

theorem noOrder_append :
    NoOrder side (es ++ fs) ↔ NoOrder side es ∧ NoOrder side fs :=
  forall_mem_append

theorem noOrder_of_closed {ss : List Stmt} (h : InTurn (Scope.lacking orderCalls) ss)
    (side : Side) : NoOrder side (Stmt.allEvents ss) :=
  fun e he => (h.spares orderCalls_withheld e he).not_places side

theorem noOrder_of_spare (h : AllSpare tradeCalls es) (side : Side) : NoOrder side es :=
  fun e he => (h.mono (fun _ => mem_cons_of_mem _) e he).not_places side

/-! ## Parts that neither size nor place -/

/-- The scope in which nothing is at hand that sizes or places. -/
def Mql.Scope.idle : Scope :=
  Scope.lacking tradeCalls

/-- The code of the part for a tick neither computes a size nor places an order. -/
def Program.Spares (p : Program) : Prop :=
  InTurn Scope.idle p.tick

section Parts

variable {p q : Program}

theorem Program.Spares.append (hp : p.Spares) (hq : q.Spares) : (p ++ q).Spares :=
  InTurn.append hp hq

theorem Program.Spares.events (h : p.Spares) : AllSpare tradeCalls (Stmt.allEvents p.tick) :=
  InTurn.spares tradeCalls_withheld h

theorem Program.ClosedIn.spares (h : p.ClosedIn Scope.idle) : p.Spares :=
  h.tick

/-- The scope covers a part that asks for functions that neither size nor place. -/
theorem Program.Asks.idle_covers {fs : List Function} (h : p.Asks fs)
    (hfs : ∀ f ∈ fs, ∀ x ∈ keyNames f.name.text, x ∉ tradeCalls) : Scope.idle.Covers p where
  inputs _ _ := trivial
  globals _ _ := trivial
  helpers k hk := by
    obtain ⟨f, hf, rfl⟩ := mem_map.mp (h.asked hk)
    exact hfs f hf

theorem Program.Neutral.idle_covers (h : p.Neutral []) : Scope.idle.Covers p :=
  h.toAsks.idle_covers (by simp)

theorem Mql.Scope.idle_general : Library.General Scope.idle :=
  ⟨trivial, trivial⟩

theorem Mql.Scope.idle_measures : Scope.idle.Measures :=
  ⟨trivial, trivial⟩

theorem Mql.Scope.idle_serves (r : Roles) : Scope.idle.Serves r := by
  have hfunction {x : Ident} (h : x.text ∉ tradeCalls) : Scope.idle.HasFunction x := h
  refine Scope.serves_of_all (fun _ => ?_) (fun _ => ?_) ⟨?_, ?_, ?_, ?_⟩
    (fun x k _ => Scope.mayRead_of_elements rfl x k) (fun _ _ _ _ _ => trivial)
    fun _ => ⟨trivial, trivial⟩
  · trivial
  · trivial
  all_goals exact hfunction (by decide)

end Parts

theorem emitSpread_spares (nodes : List Node) : (emitSpread nodes).code.Spares :=
  (emitSpread_closed nodes).spares

theorem emitTiming_spares (nodes : List Node) : (emitTiming nodes).code.Spares :=
  (emitTiming_closed nodes).spares

theorem emitCloseTimeGate_spares (nodes : List Node) (ctx : Context) (program : Program) :
    (emitCloseTimeGate nodes ctx program).code.Spares :=
  (emitCloseTimeGate_closed (emitCloseTimeGate_quiet nodes ctx program).idle_covers).spares

theorem emitIndicator_spares (n : Node) (i : Nat) : (emitIndicator n i).code.Spares :=
  (emitIndicator_consistent (emitIndicator_neutral n i).idle_covers).closed.spares

theorem emitPriceAction_spares (n : Node) (i : Nat) : (emitPriceAction n i).code.Spares :=
  (emitPriceAction_consistent
    ((emitPriceAction_quiet n i).toAsks.idle_covers (by decide))).closed.spares

theorem emitStopLoss_spares (n : Node) (r : Roles) (edges : List Edge) (known : List String)
    (ctx : Context) :
    (emitStopLoss n r.indicators r.priceAction edges known ctx).code.Spares := by
  have hserves := Scope.idle_serves r
  exact (emitStopLoss_closed Scope.idle_measures hserves.indicators hserves.actions
    (fun _ _ _ => Scope.mayRead_of_elements rfl _ _)
    ((emitStopLoss_asks n _ _ edges known ctx).idle_covers (by simp))).spares

theorem emitTakeProfit_spares (n : Node) (program : Program) :
    (emitTakeProfit n program).code.Spares :=
  (emitTakeProfit_closed Scope.idle_measures (fun _ _ _ => Scope.mayRead_of_elements rfl _ _)
    ((emitTakeProfit_asks n program).idle_covers (by simp))).spares

theorem noDistance_spares {x what : String} (hx : x ∈ reservedWords) (hwhat : OneLine what) :
    (noDistance x what).Spares :=
  (noDistance_closed ((Scope.idle.has_reserved hx).mpr trivial) hwhat).spares

theorem idle_exitFunctions :
    ∀ f ∈ exitFunctions, ∀ x ∈ keyNames f.name.text, x ∉ tradeCalls := by
  decide

theorem emitCloseCondition_spares (n : Node) (i : Nat) (r : Roles) (edges : List Edge) :
    (emitCloseCondition n i r.indicators r.priceAction edges).code.Spares := by
  have hserves := Scope.idle_serves r
  exact (emitCloseCondition_closed hserves.general hserves.compares hserves.indicators
    hserves.actions
    ((emitCloseCondition_quiet n i _ _ edges).toAsks.idle_covers idle_exitFunctions)).spares

theorem emitTimeExit_spares (n : Node) (i : Nat) (ctx : Context) (program : Program) :
    (emitTimeExit n i ctx program).code.Spares :=
  (emitTimeExit_closed Scope.idle_general
    ((emitTimeExit_quiet n i ctx program).toAsks.idle_covers idle_exitFunctions)).spares

theorem emitManagement_tick (n : Node) (program : Program) :
    (emitManagement n program).code.tick = [] := by
  rw [emitManagement]
  split
  · exact (managementCode_isRule n program _).tick
  · rfl

theorem emitManagement_spares (n : Node) (program : Program) :
    (emitManagement n program).code.Spares := by
  rw [Program.Spares, emitManagement_tick]
  trivial

theorem emitPass_spares (program : Program) : (emitPass program).code.Spares := by
  rw [emitPass]
  split
  · trivial
  · have hcalls : Scope.idle.Calls "ManageOpenPositions" :=
      ⟨(Scope.has_reserved _ (by decide)).mpr trivial,
        .inr (show "ManageOpenPositions" ∉ tradeCalls by decide)⟩
    exact Stmt.inTurn_of_allClosed ⟨trivial, by simp +decide, ⟨hcalls, trivial⟩, trivial⟩ rfl

/-! ## Sizes -/

/-- The distances that a pending order with a stop in percent is sized by, after the first one. -/
def resized (s : Sizing) (program : Program) : List Expr :=
  if s.isPending ∧ program.stopMethod = some .percent then [.var "adjSlPips"] else []

theorem lotDistances_pendingRisk (side other : Side) (isStop : Bool) :
    lotDistances side (pendingRisk other isStop).events =
      if other = side then [.var "adjSlPips"] else [] := by
  cases side <;> cases other <;> cases isStop <;> rfl

/-- The statements that find the lot of a side, if it risks a share of the balance. -/
theorem tick_sizingCode (n : Node) (h : s.method = .riskPercent) :
    (sizingCode n side s program).tick =
      [.declare "double" (lotVar side) (riskLot side (stopVar side program.sidedStop))] ++
        (if s.isPending ∧ program.stopMethod = some .percent then
          [pendingRisk side (s.orderType == .stop)] else []) ++
        [.assign (lotVar side) (.call "NormalizeLot" [larger (sideInput side "MinLot")
          (smaller (sideInput side "MaxLot") (lotVar side))])] := by
  simp [sizingCode, h]

/-- The lot of a side is first computed from the distance that the stop of the side has. -/
theorem lotDistances_sizingCode (n : Node) (side other : Side) (s : Sizing) (program : Program) :
    lotDistances side (Stmt.allEvents (sizingCode n other s program).tick) =
      if other = side ∧ s.method = .riskPercent then
        stopVar side program.sidedStop :: resized s program
      else [] := by
  have hfirst (sided : Bool) : lotDistances side (Stmt.allEvents
      [.declare "double" (lotVar other) (riskLot other (stopVar other sided))]) =
        if other = side then [stopVar side sided] else [] := by
    cases side <;> cases other <;> cases sided <;> rfl
  have hlast : lotDistances side (Stmt.allEvents [.assign (lotVar other) (.call "NormalizeLot"
      [larger (sideInput other "MinLot") (smaller (sideInput other "MaxLot") (lotVar other))])]) =
        [] := by
    cases side <;> cases other <;> rfl
  cases hmethod : s.method with
  | fixedLot =>
    have htick : (sizingCode n other s program).tick =
        [.declare "double" (lotVar other) (sideInput other "LotSize"),
          .assign (lotVar other) (.call "NormalizeLot" [larger (sideInput other "MinLot")
            (smaller (sideInput other "MaxLot") (lotVar other))])] := by
      simp [sizingCode, hmethod]
    rw [htick, if_neg (by simp)]
    cases side <;> cases other <;> rfl
  | riskPercent =>
    rw [tick_sizingCode n hmethod, Stmt.allEvents_append, Stmt.allEvents_append,
      lotDistances_append, lotDistances_append, hfirst, hlast, append_nil, resized]
    by_cases hside : other = side
    · by_cases hpending : s.isPending ∧ program.stopMethod = some .percent
      · simp only [hside, hpending, and_self, if_true, Stmt.allEvents, append_nil,
          lotDistances_pendingRisk, singleton_append]
      · simp only [hside, hpending, and_self, if_true, if_false, Stmt.allEvents, lotDistances,
          filterMap_nil, append_nil]
    · by_cases hpending : s.isPending ∧ program.stopMethod = some .percent
      · simp only [hside, hpending, and_self, if_true, if_false, Stmt.allEvents, append_nil,
          lotDistances_pendingRisk, false_and]
      · simp only [hside, hpending, if_false, Stmt.allEvents, lotDistances, filterMap_nil,
          append_nil, false_and]

theorem sizingCode_places_none (n : Node) (other : Side) (s : Sizing) (program : Program) :
    InTurn (Scope.lacking orderCalls) (sizingCode n other s program).tick := by
  have hcovers : (Scope.lacking orderCalls).Covers (sizingCode n other s program) := by
    refine ⟨fun _ _ => trivial, fun _ _ => trivial, ?_⟩
    cases hmethod : s.method with
    | fixedLot =>
      simp only [sizingCode, hmethod]
      exact (by decide : ∀ h ∈ [Helper.ofFunction Library.normalizeLot],
        ∀ f ∈ keyNames h.key, f ∉ orderCalls)
    | riskPercent =>
      simp only [sizingCode, hmethod]
      exact (by decide : ∀ h ∈ [Helper.ofFunction Library.lotSize,
        Helper.ofFunction Library.normalizeLot], ∀ f ∈ keyNames h.key, f ∉ orderCalls)
  have hpercent : program.stopMethod = some .percent →
      (Scope.lacking orderCalls).HasInput "InpSLPercent" := fun _ => trivial
  have htrades : (Scope.lacking orderCalls).Trades other := fun _ _ => trivial
  exact (sizingCode_closed htrades ⟨trivial, trivial⟩ hpercent hcovers).tick

/-! ## Orders -/

/-- The events are the placing of one order of the side with a stop at a distance, between others
that place none; the ones before it do not compute its lot. -/
def PlacesOne (side : Side) (distance : Expr) (events : List Event) : Prop :=
  ∃ before f args after, events = before ++ .calls f args :: after ∧ f ∈ side.orderNames ∧
    args[1]? = some distance ∧ NoOrder side before ∧ NoOrder side after ∧
    lotDistances side before = []

theorem PlacesOne.around {distance : Expr} {gs : List Event} (h : PlacesOne side distance fs)
    (hes : NoOrder side es) (hsizes : lotDistances side es = []) (hgs : NoOrder side gs) :
    PlacesOne side distance (es ++ fs ++ gs) := by
  obtain ⟨before, f, args, after, rfl, hf, hargs, hbefore, hafter, hnone⟩ := h
  refine ⟨es ++ before, f, args, after ++ gs, by simp, hf, hargs,
    noOrder_append.mpr ⟨hes, hbefore⟩, noOrder_append.mpr ⟨hafter, hgs⟩, ?_⟩
  rw [lotDistances_append, hsizes, hnone, append_nil]

theorem mem_orderNames (side : Side) (s : Sizing) (options : Options) :
    (orderFunction side s options).name.text ∈ side.orderNames := by
  have hopen : (Library.openOrder side.label options).name =
      (Library.openOrder side.label {}).name := rfl
  rw [orderFunction]
  split
  · cases side <;> cases s.orderType == .stop <;> decide
  · rw [hopen]
    cases side <;> decide

theorem events_placeOrder (side : Side) (s : Sizing) (options : Options) (program : Program) :
    ∃ args, (placeOrder side s options (stopVar side program.sidedStop)
        (targetExpr side program)).events =
          [.calls (orderFunction side s options).name.text args] ∧
      args[1]? = some (stopVar side program.sidedStop) := by
  have hstop : (stopVar side program.sidedStop).events = [] := by
    rw [stopVar]
    split <;> rfl
  have htarget : (targetExpr side program).events = [] := by
    rw [targetExpr]
    split <;> rfl
  refine ⟨[.var (lotVar side), stopVar side program.sidedStop, targetExpr side program] ++
    (if s.isPending then [.var (sideInput side "PendingOffset")] else []), ?_, rfl⟩
  rw [placeOrder, Expr.events]
  split <;> simp [Expr.allEvents, Expr.events, hstop, htarget]

theorem sideGate_spares (settings : Settings) (side : Side) :
    AllSpare tradeCalls (sideGate settings side).events :=
  Expr.Closed.spares tradeCalls_withheld _ (sideGate_closed (σ := Scope.idle) (fun _ _ => trivial)
    (show "CountPositionsByType" ∉ tradeCalls by decide) settings)

theorem afterOrder_spares (settings : Settings) :
    AllSpare tradeCalls (Stmt.allEvents (afterOrder settings)) :=
  Stmt.AllClosed.spares tradeCalls_withheld _ (afterOrder_closed settings)

theorem placesOne_sideBlock (ctx : Context) (program : Program) (side : Side) (s : Sizing) :
    PlacesOne side (stopVar side program.sidedStop) (sideBlock ctx program side s).events := by
  obtain ⟨args, hargs, hstop⟩ := events_placeOrder side s ctx.options program
  have hgate := sideGate_spares ctx.settings side
  refine ⟨(sideGate ctx.settings side).events, _, args,
    Stmt.allEvents (afterOrder ctx.settings), ?_, mem_orderNames side s ctx.options, hstop,
    noOrder_of_spare hgate side, noOrder_of_spare (afterOrder_spares ctx.settings) side,
    lotDistances_of_spare hgate side⟩
  simp only [sideBlock, Stmt.events, Stmt.allEvents, hargs, append_nil, singleton_append]

theorem noOrder_sideBlock (ctx : Context) (program : Program) (hne : other ≠ side) (s : Sizing) :
    NoOrder side (sideBlock ctx program other s).events ∧
      lotDistances side (sideBlock ctx program other s).events = [] := by
  obtain ⟨args, hargs, -⟩ := events_placeOrder other s ctx.options program
  have hgate := sideGate_spares ctx.settings other
  have hafter := afterOrder_spares ctx.settings
  have hevents : (sideBlock ctx program other s).events =
      (sideGate ctx.settings other).events ++
        ([.calls (orderFunction other s ctx.options).name.text args] ++
          Stmt.allEvents (afterOrder ctx.settings)) := by
    simp only [sideBlock, Stmt.events, Stmt.allEvents, hargs, append_nil]
  have hapart : ∀ f ∈ other.orderNames, f ∉ side.orderNames := by
    cases side <;> cases other
    · exact absurd rfl hne
    · decide
    · decide
    · exact absurd rfl hne
  rw [hevents]
  constructor
  · refine noOrder_append.mpr ⟨noOrder_of_spare hgate side,
      noOrder_append.mpr ⟨?_, noOrder_of_spare hafter side⟩⟩
    intro e he
    rw [mem_singleton.mp he]
    exact hapart _ (mem_orderNames other s ctx.options)
  · rw [lotDistances_append, lotDistances_append, lotDistances_of_spare hgate,
      lotDistances_of_spare hafter]
    rfl

theorem placesOne_sideBlocks (ctx : Context) (program : Program)
    (hsides : (xs.map Prod.fst).Nodup) (hmem : (side, s) ∈ xs) :
    PlacesOne side (stopVar side program.sidedStop)
      (Stmt.allEvents (xs.map fun (side, s) => sideBlock ctx program side s)) := by
  have hothers : ∀ ys : List (Side × Sizing), side ∉ ys.map Prod.fst →
      NoOrder side (Stmt.allEvents (ys.map fun (side, s) => sideBlock ctx program side s)) ∧
        lotDistances side
          (Stmt.allEvents (ys.map fun (side, s) => sideBlock ctx program side s)) = [] := by
    intro ys hys
    induction ys with
    | nil => exact ⟨fun _ he => (nomatch he), rfl⟩
    | cons y ys ih =>
      rw [map_cons, mem_cons, not_or] at hys
      obtain ⟨hfirst, hnone⟩ := noOrder_sideBlock ctx program (Ne.symm hys.1) y.2
      obtain ⟨hrest, hrests⟩ := ih hys.2
      rw [map_cons, Stmt.allEvents]
      exact ⟨noOrder_append.mpr ⟨hfirst, hrest⟩, by rw [lotDistances_append, hnone, hrests]; rfl⟩
  obtain ⟨before, after, rfl⟩ := append_of_mem hmem
  rw [map_append, map_cons, nodup_append] at hsides
  obtain ⟨-, hafter, hbefore⟩ := hsides
  obtain ⟨hearly, hnone⟩ := hothers before fun hin => hbefore side hin side mem_cons_self rfl
  obtain ⟨hlate, -⟩ := hothers after (nodup_cons.mp hafter).1
  have hblock := (placesOne_sideBlock ctx program side s).around hearly hnone hlate
  rwa [map_append, map_cons, Stmt.allEvents_append, Stmt.allEvents, ← append_assoc]

/-! ## The entry -/

theorem allEvents_eq_nil {es : List Expr} (h : ∀ e ∈ es, e.events = []) :
    Expr.allEvents es = [] := by
  induction es with
  | nil => rfl
  | cons e es ih =>
    rw [Expr.allEvents, h e mem_cons_self, ih fun x hx => h x (mem_cons_of_mem _ hx)]
    rfl

theorem events_gate {e : Expr} (h : isGate e = true) : e.events = [] := by
  unfold isGate at h
  split at h
  · rfl
  · rfl
  · cases h

theorem events_entryGates (h : program.Gated) : Expr.allEvents (entryGates ctx program) = [] := by
  refine allEvents_eq_nil fun e he => ?_
  simp only [entryGates, mem_append, mem_cons, not_mem_nil, or_false,
    mem_ite_nil_right] at he
  rcases he with (((⟨-, rfl⟩ | rfl | rfl) | he) | ⟨-, rfl⟩) | ⟨-, rfl⟩
  · rfl
  · rfl
  · rfl
  · exact events_gate (all_eq_true.mp h e he)
  · rfl
  · rfl

theorem placesOne_executeBlock (hgated : program.Gated) (hsides : (xs.map Prod.fst).Nodup)
    (hmem : (side, s) ∈ xs) :
    PlacesOne side (stopVar side program.sidedStop) (executeBlock ctx program xs).events := by
  have hblocks := placesOne_sideBlocks ctx program hsides hmem
  have hdelete : AllSpare tradeCalls [.calls "DeletePendingOrders" []] :=
    allSpare_singleton.mpr (show _ ∉ tradeCalls by decide)
  rw [executeBlock, Stmt.events, Expr.events, events_entryGates hgated, nil_append,
    Stmt.allEvents_append]
  split
  · have hfirst := hblocks.around (noOrder_of_spare hdelete side)
      (lotDistances_of_spare hdelete side) (noOrder_of_spare allSpare_nil side)
    rwa [append_nil] at hfirst
  · exact hblocks

theorem cancels_idle {after : List Stmt} (h : after ∈ [[], cancelStmts]) :
    Stmt.AllClosed Scope.idle after := by
  have hdelete : Scope.idle.HasFunction "DeletePendingOrders" :=
    show "DeletePendingOrders" ∉ tradeCalls by decide
  simp only [mem_cons, not_mem_nil, or_false] at h
  rcases h with rfl | rfl
  · trivial
  · simp +decide [cancelStmts, hdelete]

theorem entryOpening_spares {r : Roles} {inputs : List Input} {c : Conditions}
    (h : allConditions r.indicators r.priceAction program = (inputs, .ok c)) :
    (entryOpening ctx r.orders c).Spares := by
  have hserves := Scope.idle_serves r
  have hclosed : c.Closed Scope.idle :=
    allConditions_closed hserves.compares hserves.signals hserves.actions h fun _ _ => trivial
  exact (entryOpening_closed hclosed (fun _ _ _ _ _ => trivial)
    (entryOpening_quiet ctx r.orders c).idle_covers).spares

/-! ## Compiled programs -/

def Graph.stopMethod? (g : Graph) : Option StopMethod :=
  g.firstStop?.bind fun n => n.data.payload.stopMethod?

theorem emitStopLoss_stopMethod (n : Node) (indicators priceAction : List Node) (edges : List Edge)
    (known : List String) (ctx : Context) :
    (emitStopLoss n indicators priceAction edges known ctx).code.stopMethod =
      n.data.payload.stopMethod? := by
  obtain ⟨p, hcode, hneutral, -⟩ := emitStopLoss_neutral n indicators priceAction edges known ctx
  rw [hcode, Program.append_stopMethod, hneutral.stop]
  cases n.data.payload.stopMethod? <;> rfl

section Runs

variable {r : Roles} {edges : List Edge} {known : List String} {ctx : Context} {p q : Program}

/-- What has been emitted before the stop: no method is set yet. -/
structure Program.Untraded (p : Program) : Prop where
  spares : p.Spares
  stop : p.stopMethod = none

theorem Program.Untraded.append (hp : p.Untraded) (hq : q.Untraded) : (p ++ q).Untraded where
  spares := hp.spares.append hq.spares
  stop := by rw [Program.append_stopMethod, hp.stop, hq.stop]; rfl

theorem Run.untraded (h : Run (signalSteps r ctx) p q) (hp : p.Untraded) : q.Untraded := by
  refine h.invariant (I := Program.Untraded) (fun s hs m hm _ => hm.append ?_) hp
  rcases mem_signalSteps_iff.mp hs with (rfl | rfl | rfl) | ⟨n, i, -, rfl⟩ | ⟨n, i, -, rfl⟩
  · exact ⟨emitSpread_spares _, (emitSpread_quiet _).stop⟩
  · exact ⟨emitTiming_spares _, (emitTiming_quiet _).stop⟩
  · exact ⟨emitCloseTimeGate_spares _ ctx m, (emitCloseTimeGate_quiet _ ctx m).stop⟩
  · exact ⟨emitIndicator_spares n i, (emitIndicator_neutral n i).stop⟩
  · exact ⟨emitPriceAction_spares n i, (emitPriceAction_quiet n i).stop⟩

theorem Run.spares_exits (h : Run (exitSteps r edges ctx) p q) :
    ∃ last, q.tick = p.tick ++ last ∧ InTurn Scope.idle last := by
  refine h.invariant (I := fun m => ∃ last, m.tick = p.tick ++ last ∧ InTurn Scope.idle last)
    (fun s hs m hm _ => ?_) ⟨[], (append_nil _).symm, trivial⟩
  obtain ⟨last, hlast, hspares⟩ := hm
  have hstep : (s m).code.Spares := by
    rcases mem_exitSteps_iff.mp hs with ⟨n, i, -, rfl⟩ | ⟨n, i, -, rfl⟩ | ⟨n, -, rfl⟩ | rfl
    · exact emitCloseCondition_spares n i r edges
    · exact emitTimeExit_spares n i ctx m
    · exact emitManagement_spares n m
    · exact emitPass_spares m
  refine ⟨last ++ (s m).code.tick, ?_, hspares.append hstep⟩
  rw [Program.append_tick, hlast, append_assoc]

/-- The step for the order of a side, if it has one: it computes the lot of that side only, and what
is known of the stop stays as it is. -/
theorem Run.sizes_order {o : Option Node} (h : Run (o.toList.map (emitOrder other)) p q)
    (hpayload : ∀ n, o = some n → ∃ s, n.data.payload = .trading (.order other s)) (side : Side) :
    q.sidedStop = p.sidedStop ∧ q.stopMethod = p.stopMethod ∧
      ∃ new, q.tick = p.tick ++ new ∧ InTurn (Scope.lacking orderCalls) new ∧
        (other ≠ side → lotDistances side (Stmt.allEvents new) = []) ∧
        ∀ n s, other = side → o = some n → n.sizing? = some s → s.method = .riskPercent →
          lotDistances side (Stmt.allEvents new) =
            stopVar side p.sidedStop :: resized s p := by
  cases o with
  | none =>
    cases h
    exact ⟨rfl, rfl, [], (append_nil _).symm, trivial, fun _ => rfl,
      fun _ _ _ hnone => nomatch hnone⟩
  | some n =>
    obtain ⟨s, hp⟩ := hpayload n rfl
    obtain rfl := Run.eq_append h
    have hcode : (emitOrder other n p).code = sizingCode n other s p := by
      rw [emitOrder, hp]
    have hsided : (sizingCode n other s p).sidedStop = false := by
      simp only [sizingCode]
      cases s.method <;> rfl
    rw [hcode]
    refine ⟨?_, ?_, (sizingCode n other s p).tick, rfl, sizingCode_places_none n other s p, ?_, ?_⟩
    · rw [Program.append_sidedStop, hsided, Bool.or_false]
    · rw [Program.append_stopMethod, ← hcode, (emitOrder_quiet other n p).stop]
      rfl
    · intro hne
      rw [lotDistances_sizingCode, if_neg fun hboth => hne hboth.1]
    · rintro m t rfl hm ht hrisk
      cases hm
      rw [Node.sizing?, hp] at ht
      cases ht
      rw [lotDistances_sizingCode, if_pos ⟨rfl, hrisk⟩]

theorem resized_congr (h : q.stopMethod = p.stopMethod) : resized s q = resized s p := by
  rw [resized, resized, h]

/-- The steps for the orders of both sides: the lot of a side is computed from the distance of its
stop, and maybe once more. -/
theorem Run.sizes_orders {orders : Orders} (h : Run (orderSteps orders) p q) (hp : p.Spares)
    (hpayload : ∀ side n, orders.of side = some n → ∃ s, n.data.payload = .trading (.order side s))
    (hn : orders.of side = some n) (hs : n.sizing? = some s) (hrisk : s.method = .riskPercent) :
    q.stopMethod = p.stopMethod ∧ NoOrder side (Stmt.allEvents q.tick) ∧
      lotDistances side (Stmt.allEvents q.tick) = stopVar side q.sidedStop :: resized s q := by
  obtain ⟨m, hbuy, hsell⟩ := Run.append_iff.mp h
  obtain ⟨hmsided, hmstop, bought, hmtick, hmplaces, hmother, hmside⟩ :=
    hbuy.sizes_order (hpayload .buy) side
  obtain ⟨hqsided, hqstop, sold, hqtick, hqplaces, hqother, hqside⟩ :=
    hsell.sizes_order (hpayload .sell) side
  have hstop : q.stopMethod = p.stopMethod := hqstop.trans hmstop
  have hevents : Stmt.allEvents q.tick =
      Stmt.allEvents p.tick ++ (Stmt.allEvents bought ++ Stmt.allEvents sold) := by
    rw [hqtick, hmtick, Stmt.allEvents_append, Stmt.allEvents_append, append_assoc]
  refine ⟨hstop, ?_, ?_⟩
  · rw [hevents]
    exact noOrder_append.mpr ⟨noOrder_of_spare hp.events side, noOrder_append.mpr
      ⟨noOrder_of_closed hmplaces side, noOrder_of_closed hqplaces side⟩⟩
  · rw [hevents, lotDistances_append, lotDistances_append, lotDistances_of_spare hp.events,
      nil_append, resized_congr hstop, hqsided.trans hmsided]
    cases side with
    | buy => rw [hmside n s rfl hn hs hrisk, hqother (by decide), append_nil]
    | sell =>
      rw [hmother (by decide), hqside n s rfl hn hs hrisk, hmsided, resized_congr hmstop,
        nil_append]

theorem Run.stopMethod_stop (h : Run [stopStep r edges known ctx] p q) (hp : p.Untraded) :
    q.Spares ∧ q.stopMethod = r.stopLoss.head?.bind fun n => n.data.payload.stopMethod? := by
  obtain rfl := h.eq_append
  rw [stopStep]
  cases r.stopLoss.head? with
  | some n =>
    refine ⟨hp.spares.append (emitStopLoss_spares n r edges known ctx), ?_⟩
    simp only [always, Program.append_stopMethod, hp.stop, emitStopLoss_stopMethod,
      Option.bind_some]
    cases n.data.payload.stopMethod? <;> rfl
  | none =>
    refine ⟨hp.spares.append (noDistance_spares (by decide) (by decide)), ?_⟩
    rw [Program.append_stopMethod, hp.stop]
    rfl

theorem Run.stopMethod_target (h : Run [targetStep r] p q) (hp : p.Spares) :
    q.Spares ∧ q.stopMethod = p.stopMethod := by
  obtain rfl := h.eq_append
  rw [targetStep]
  cases r.takeProfit.head? with
  | some n =>
    obtain ⟨q, hcode, hneutral, -⟩ := emitTakeProfit_neutral n p
    refine ⟨hp.append (emitTakeProfit_spares n p), ?_⟩
    rw [Program.append_stopMethod, hcode, Program.append_stopMethod, hneutral.stop]
    rfl
  | none => exact ⟨hp.append (noDistance_spares (by decide) (by decide)), rfl⟩

/-- After the steps for the stop, the target and the sizes, the method of the stop is that of the
first one. -/
theorem Run.sizes_risk (h : Run (riskSteps r edges known ctx) p q) (hp : p.Untraded)
    (hpayload : ∀ side n, r.orders.of side = some n →
      ∃ s, n.data.payload = .trading (.order side s)) (hn : r.orders.of side = some n)
    (hs : n.sizing? = some s) (hrisk : s.method = .riskPercent) :
    q.stopMethod = r.stopLoss.head?.bind (fun n => n.data.payload.stopMethod?) ∧
      NoOrder side (Stmt.allEvents q.tick) ∧
      lotDistances side (Stmt.allEvents q.tick) = stopVar side q.sidedStop :: resized s q := by
  rcases h.risk_cases with ⟨hno, -⟩ | ⟨-, stopped, measured, hstop, htarget, horders⟩
  · rw [hasEntry_of_order hn] at hno
    cases hno
  obtain ⟨hstopped, hmethod⟩ := hstop.stopMethod_stop hp
  obtain ⟨htargeted, hsame⟩ := htarget.stopMethod_target hstopped
  obtain ⟨hkept, hplaces, hsizes⟩ := horders.sizes_orders htargeted hpayload hn hs hrisk
  exact ⟨hkept.trans (hsame.trans hmethod), hplaces, hsizes⟩

end Runs

theorem generalInputs_untraded (settings : Settings) : (generalInputs settings).Untraded :=
  ⟨trivial, rfl⟩

/-- The last distance of a lot is that of the stop, unless the lot is computed once more. -/
theorem last_resized (side : Side) (sided : Bool) (s : Sizing) (program : Program) :
    ∃ size, (stopVar side sided :: resized s program).getLast? = some size ∧
      (size = stopVar side sided ↔
        ¬ (s.isPending = true ∧ program.stopMethod = some .percent)) := by
  rw [resized]
  by_cases hagain : s.isPending = true ∧ program.stopMethod = some .percent
  · refine ⟨.var "adjSlPips", by rw [if_pos hagain]; rfl, ?_⟩
    simp only [hagain, and_self, not_true, iff_false]
    cases side <;> cases sided <;> simp [stopVar]
  · exact ⟨stopVar side sided, by rw [if_neg hagain]; rfl, iff_of_true rfl hagain⟩

/-- A tick of a compiled program sizes the order of a side, and then places it. -/
theorem Graph.sizes_and_places {g : Graph}
    (h : (g.compile project options).result = .ok c) (hn : g.orders.of side = some n)
    (hs : n.sizing? = some s) (hrisk : s.method = .riskPercent) :
    ∃ before f args after, Stmt.allEvents c.program.tick = before ++ .calls f args :: after ∧
      f ∈ side.orderNames ∧ NoOrder side before ∧ NoOrder side after ∧
      ∃ program : Program, program.stopMethod = g.stopMethod? ∧
        lotDistances side before = stopVar side program.sidedStop :: resized s program ∧
        args[1]? = some (stopVar side program.sidedStop) := by
  have hpayload : ∀ side n, (Roles.ofNodes g.liveNodes).orders.of side = some n →
      ∃ s, n.data.payload = .trading (.order side s) := fun _ _ hn => (payload_of_order hn).2
  obtain ⟨untraded, sized, sizes, cs, after, hcut⟩ :=
    Graph.exists_cut h (ne_nil_of_mem (Orders.mem_sides hn))
  obtain ⟨inputs, hall⟩ := hcut.joins
  obtain ⟨entry, hentry, hback⟩ := hcut.exits
  have huntraded := hcut.signals.untraded (generalInputs_untraded _)
  obtain ⟨hmethod, hnone, hsizes⟩ := hcut.risk.sizes_risk huntraded hpayload hn hs hrisk
  rw [Graph.head_stopLoss] at hmethod
  obtain ⟨last, hlast, hspares⟩ := hback.spares_exits
  obtain ⟨t, -, hmem⟩ := hcut.mem hn
  have hopening : (entryOpening c.context g.orders cs).Spares := entryOpening_spares hall
  have hcancels := Stmt.AllClosed.spares tradeCalls_withheld _ (cancels_idle hcut.cancels)
  have hblock : PlacesOne side (stopVar side sized.sidedStop)
      (executeBlock c.context sized sizes).events :=
    placesOne_executeBlock hcut.gated hcut.nodup hmem
  obtain ⟨before, f, args, rest, hevents, hf, hargs, hbefore, hrest, hunsized⟩ :=
    hblock.around (noOrder_of_spare hopening.events side)
      (lotDistances_of_spare hopening.events side)
      (noOrder_of_spare hcancels side)
  have hentered : Stmt.allEvents entry.tick = before ++ .calls f args :: rest := by
    rw [hentry, Stmt.allEvents_append, ← hevents]
    simp only [Stmt.allEvents, Stmt.events, nil_append, append_assoc]
  refine ⟨Stmt.allEvents sized.tick ++ before, f, args, rest ++ Stmt.allEvents last, ?_, hf,
    noOrder_append.mpr ⟨hnone, hbefore⟩,
    noOrder_append.mpr ⟨hrest, noOrder_of_spare (hspares.spares tradeCalls_withheld) side⟩,
    sized, hmethod, ?_, hargs⟩
  · rw [hlast, Program.append_tick, Stmt.allEvents_append, Stmt.allEvents_append, hentered]
    simp only [append_assoc, cons_append]
  · rw [lotDistances_append, hsizes, hunsized, append_nil]

/-- **Sizes and stops.** If the order of a side risks a share of the balance, a tick of the compiled
program places it in one place, with a stop at some distance. The last lot that it computes for the
side before that is computed from the same distance, unless the order is pending and the first live
stop is in percent. -/
theorem sized_by_placed_stop_iff {g : Graph}
    (h : (g.compile project options).result = .ok c) {side : Side} {n : Node}
    (hn : g.orders.of side = some n) {s : Sizing} (hs : n.sizing? = some s)
    (hrisk : s.method = .riskPercent) :
    ∃ before f args after, Stmt.allEvents c.program.tick = before ++ .calls f args :: after ∧
      f ∈ side.orderNames ∧ NoOrder side before ∧ NoOrder side after ∧
      ∃ size stop, (lotDistances side before).getLast? = some size ∧ args[1]? = some stop ∧
        (size = stop ↔ ¬ (s.isPending = true ∧ g.stopMethod? = some .percent)) := by
  obtain ⟨before, f, args, after, hevents, hf, hbefore, hafter, program, hmethod, hsizes, hstop⟩ :=
    Graph.sizes_and_places h hn hs hrisk
  obtain ⟨size, hsize, hsame⟩ := last_resized side program.sidedStop s program
  rw [hmethod] at hsame
  exact ⟨before, f, args, after, hevents, hf, hbefore, hafter, size, _, by rw [hsizes, hsize],
    hstop, hsame⟩

/-- A stop in percent, and an order that risks a share of the balance. -/
def percentDocument (orderType : String) : Json :=
  .obj [("nodes", .arr [.node "stop" "stop-loss" [("method", .str "PERCENT")],
    .node "buy" "place-buy" [("method", .str "RISK_PERCENT"), ("orderType", .str orderType)]])]

def percentGraph (orderType : String) : Graph := (percentDocument orderType).graph

theorem percent_compiles (orderType : String) (h : orderType = "MARKET" ∨ orderType = "STOP") :
    ∃ c, ((percentGraph orderType).compile "Test" {}).result = .ok c := by
  rcases h with rfl | rfl <;> exact Graph.compile_ok_of_methods (by decide) "Test"

theorem sized_by_placed_stop_market :
    ∃ c, ((percentGraph "MARKET").compile "Test" {}).result = .ok c ∧
      (percentGraph "MARKET").stopMethod? = some .percent ∧
      ∃ before f args after, Stmt.allEvents c.program.tick = before ++ .calls f args :: after ∧
        f ∈ Side.buy.orderNames ∧ NoOrder .buy before ∧ NoOrder .buy after ∧
        ∃ stop, (lotDistances .buy before).getLast? = some stop ∧ args[1]? = some stop := by
  obtain ⟨c, hc⟩ := percent_compiles "MARKET" (.inl rfl)
  obtain ⟨n, hn, s, hs, hrisk, hmarket⟩ : ∃ n, (percentGraph "MARKET").orders.of .buy = some n ∧
      ∃ s, n.sizing? = some s ∧ s.method = .riskPercent ∧ s.isPending = false :=
    ⟨_, rfl, _, rfl, rfl, rfl⟩
  obtain ⟨before, f, args, after, hevents, hf, hbefore, hafter, size, stop, hsize, hstop, hsame⟩ :=
    sized_by_placed_stop_iff hc hn hs hrisk
  have heq : size = stop := hsame.mpr (by simp [hmarket])
  exact ⟨c, hc, rfl, before, f, args, after, hevents, hf, hbefore, hafter, stop, heq ▸ hsize, hstop⟩

/-- A pending order with a stop in percent is sized by a distance from the price at which it waits,
and placed with a stop at a distance from the price of now. -/
theorem pending_sized_by_other_stop :
    ∃ c, (compile (percentDocument "STOP") "Test" {}).result = .ok c ∧
      ∃ before f args after, Stmt.allEvents c.program.tick = before ++ .calls f args :: after ∧
        f ∈ Side.buy.orderNames ∧ NoOrder .buy before ∧ NoOrder .buy after ∧
        (lotDistances .buy before).getLast? = some (.var "adjSlPips") ∧
        args[1]? = some (.var "slPips") := by
  have hload : Graph.load (percentDocument "STOP") = .ok (percentGraph "STOP") := rfl
  obtain ⟨c, hc⟩ := percent_compiles "STOP" (.inr rfl)
  obtain ⟨n, hn, s, hs, hrisk, hpending⟩ : ∃ n, (percentGraph "STOP").orders.of .buy = some n ∧
      ∃ s, n.sizing? = some s ∧ s.method = .riskPercent ∧ s.isPending = true :=
    ⟨_, rfl, _, rfl, rfl, rfl⟩
  obtain ⟨before, f, args, after, hevents, hf, hbefore, hafter, program, hmethod, hsizes, hstop⟩ :=
    Graph.sizes_and_places hc hn hs hrisk
  have hpercent : program.stopMethod = some .percent := by
    rw [hmethod]
    rfl
  refine ⟨c, by rw [compile, hload]; exact hc, before, f, args, after, hevents, hf, hbefore, hafter,
    ?_, hstop⟩
  rw [hsizes, resized, if_pos ⟨hpending, hpercent⟩]
  rfl

end TradeGraph

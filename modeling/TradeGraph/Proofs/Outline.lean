import TradeGraph.Proofs.Failure
import TradeGraph.Proofs.Mentions

/-!
# What parts add

Apart from the rules for open positions, a part of a program asks for helper functions of the
library and adds nothing to the pass over the open positions; only the stop and the target set a
method, and only indicators, stops and targets have handles. A rule does nothing by itself: it is
one call in the pass.
-/

namespace TradeGraph

open List Mql

variable {r : Roles} {edges : List Edge} {known : List String} {ctx : Context}

/-! ## Names of handles -/

def isHandleName (w : String) : Bool :=
  "Handle".toList.isSuffixOf w.toList

/-- Can a name with this tail be no handle, whatever stands before it? -/
def endsApart (tail : String) : Bool :=
  !"Handle".toList.isSuffixOf tail.toList && !tail.toList.isSuffixOf "Handle".toList

theorem isHandleName_of_tail {x : Ident} (h : x.tail = "Handle") : isHandleName x.text = true := by
  rw [isHandleName, isSuffixOf_iff_suffix, Ident.text_eq, h, String.toList_append,
    String.toList_append, ← append_assoc]
  exact suffix_append _ _

@[simp] theorem isHandleName_of_endsApart {x : Ident} (h : endsApart x.tail = true) :
    isHandleName x.text = false := by
  simp only [endsApart, Bool.and_eq_true, Bool.not_eq_true', ← Bool.not_eq_true,
    isSuffixOf_iff_suffix] at h
  rw [← Bool.not_eq_true, isHandleName, isSuffixOf_iff_suffix, Ident.text_eq,
    String.toList_append, String.toList_append, ← append_assoc]
  intro hhandle
  rcases suffix_or_suffix_of_suffix hhandle (suffix_append _ x.tail.toList) with hends | hends
  · exact h.1 hends
  · exact h.2 hends

/-! ## Parts -/

/-- The gates that parts before the entry add: flags that are set on a tick, and close times that
have not passed. -/
def isGate : Expr → Bool
  | .name x => ["spreadOk", "atrOk", "tpAtrOk"].contains x.stem
  | .not (.name x) => x.stem == "pastCloseTime"
  | _ => false

def Program.Gated (p : Program) : Prop :=
  p.gates.all isGate = true

/-- The part asks for no helpers but the functions, and adds nothing to the pass. -/
structure Program.Asks (fs : List Function) (p : Program) : Prop where
  asked : p.helpers ⊆ fs.map Helper.ofFunction
  rules : p.rules = []
  beforeLoop : p.beforeLoop = []
  gated : p.Gated

/-- The part sets no method either. -/
structure Program.Neutral (fs : List Function) (p : Program) : Prop extends Program.Asks fs p where
  stop : p.stopMethod = none
  target : p.targetMethod = none

/-- The part has no code for the start and the end, and declares no handle. -/
structure Program.Silent (p : Program) : Prop where
  init : p.init = []
  deinit : p.deinit = []
  globals : ∀ g ∈ p.globals, isHandleName g.name.text = false

/-- The part sets no method, has no handle and declares nothing that another part looks for. -/
structure Program.Quiet (fs : List Function) (p : Program) : Prop
    extends Program.Neutral fs p, Program.Silent p where
  unshared : p.Unshared

section Joined

variable {p q : Program} {fs gs : List Function}

theorem Program.Gated.append (hp : p.Gated) (hq : q.Gated) : (p ++ q).Gated := by
  rw [Program.Gated, Program.append_gates, all_append, hp, hq]
  rfl

theorem Program.Asks.of_eq (hhelpers : p.helpers = fs.map .ofFunction)
    (hpass : (p.rules, p.beforeLoop) = ([], [])) (hgated : p.gates.all isGate = true) : p.Asks fs :=
  ⟨fun _ hh => hhelpers ▸ hh, (Prod.mk.inj hpass).1, (Prod.mk.inj hpass).2, hgated⟩

theorem Program.Asks.mono (h : p.Asks fs) (hsub : fs ⊆ gs) : p.Asks gs :=
  { h with asked := fun _ hk => map_subset _ hsub (h.asked hk) }

theorem Program.Quiet.mono (h : p.Quiet fs) (hsub : fs ⊆ gs) : p.Quiet gs :=
  { h with toAsks := h.toAsks.mono hsub }

theorem Program.Asks.append (hp : p.Asks fs) (hq : q.Asks fs) : (p ++ q).Asks fs where
  asked _ hh :=
    (Program.mem_of_mem_joinHelpers q.helpers hh).elim (fun h => hp.asked h)
      fun h => hq.asked h
  rules := by rw [Program.append_rules, hp.rules, hq.rules]; rfl
  beforeLoop := by rw [Program.append_beforeLoop, hp.beforeLoop, hq.beforeLoop]; rfl
  gated := hp.gated.append hq.gated

theorem Program.Neutral.append (hp : p.Neutral fs) (hq : q.Neutral fs) : (p ++ q).Neutral fs where
  toAsks := hp.toAsks.append hq.toAsks
  stop := by rw [Program.append_stopMethod, hp.stop, hq.stop]; rfl
  target := by rw [Program.append_targetMethod, hp.target, hq.target]; rfl

theorem Program.Silent.of_nil (h : (p.init, p.deinit, p.globals) = ([], [], [])) : p.Silent := by
  simp only [Prod.mk.injEq] at h
  exact ⟨h.1, h.2.1, by simp [h.2.2]⟩

theorem Program.Silent.append (hp : p.Silent) (hq : q.Silent) : (p ++ q).Silent where
  init := by rw [Program.append_init, hp.init, hq.init, append_nil]
  deinit := by rw [Program.append_deinit, hp.deinit, hq.deinit, append_nil]
  globals := forall_mem_append.mpr ⟨hp.globals, hq.globals⟩

theorem Program.Neutral.of_eq
    (h : (p.helpers, p.rules, p.beforeLoop, p.stopMethod, p.targetMethod) =
    (fs.map .ofFunction, [], [], none, none)) (hgated : p.gates.all isGate = true) :
    p.Neutral fs := by
  simp only [Prod.mk.injEq] at h
  obtain ⟨hhelpers, hrules, hbefore, hstop, htarget⟩ := h
  exact ⟨.of_eq hhelpers (by rw [hrules, hbefore]) hgated, hstop, htarget⟩

theorem Program.Silent.quiet (hsilent : p.Silent) (hunshared : p.Unshared)
    (hasked : p.helpers ⊆ fs.map .ofFunction)
    (h : (p.rules, p.beforeLoop, p.stopMethod, p.targetMethod) = ([], [], none, none))
    (hgated : p.gates.all isGate = true) : p.Quiet fs := by
  simp only [Prod.mk.injEq] at h
  obtain ⟨hrules, hbefore, hstop, htarget⟩ := h
  exact ⟨⟨⟨hasked, hrules, hbefore, hgated⟩, hstop, htarget⟩, hsilent, hunshared⟩

/-- Parts that ask for nothing. -/
theorem Program.Quiet.of_nil (h : (p.helpers, p.rules, p.beforeLoop, p.stopMethod, p.targetMethod) =
    ([], [], [], none, none)) (hnone : (p.init, p.deinit, p.globals) = ([], [], []))
    (hgated : p.gates.all isGate = true) : p.Quiet fs := by
  obtain ⟨hhelpers, hrest⟩ := Prod.mk.inj h
  have hglobals : p.globals = [] := (Prod.mk.inj (Prod.mk.inj hnone).2).2
  exact Program.Silent.quiet (.of_nil hnone) (.of_nil hglobals) (by simp [hhelpers]) hrest hgated

theorem Program.Quiet.append (hp : p.Quiet fs) (hq : q.Quiet fs) : (p ++ q).Quiet fs :=
  { toNeutral := hp.toNeutral.append hq.toNeutral
    toSilent := hp.toSilent.append hq.toSilent
    unshared := hp.unshared.append hq.unshared }

end Joined

/-! ## Gates and signals -/

theorem emitSpread_quiet (nodes : List Node) : (emitSpread nodes).code.Quiet [] := by
  rw [emitSpread]
  split <;> exact .of_nil rfl rfl rfl

theorem emitTiming_quiet (nodes : List Node) : (emitTiming nodes).code.Quiet [] := by
  unfold emitTiming
  split
  · exact .of_nil rfl rfl rfl
  · split <;> exact .of_nil rfl rfl rfl
  · simp only
    split <;> exact .of_nil rfl rfl rfl

theorem closeTimeCheck_quiet (n : Node) (p : TimeExit) (i : Nat) (ctx : Context)
    (program : Program) : (closeTimeCheck n p i ctx program).Quiet [] := by
  simp only [closeTimeCheck]
  split <;> exact .of_nil rfl rfl rfl

theorem closeTimeChecks_quiet (ctx : Context) :
    ∀ (ns : List Node) (i : Nat) (program : Program),
      (closeTimeChecks ctx i ns program).1.Quiet [] ∧
        ∀ x ∈ (closeTimeChecks ctx i ns program).2, x.stem = "pastCloseTime"
  | [], _, _ => ⟨.of_nil rfl rfl rfl, by simp [closeTimeChecks]⟩
  | n :: ns, i, program => by
    rw [closeTimeChecks]
    split
    · exact closeTimeChecks_quiet ctx ns (i + 1) program
    · rename_i p hp
      obtain ⟨hrest, hflags⟩ :=
        closeTimeChecks_quiet ctx ns (i + 1) (program ++ closeTimeCheck n p i ctx program)
      exact ⟨(closeTimeCheck_quiet n p i ctx program).append hrest,
        forall_mem_cons.mpr ⟨rfl, hflags⟩⟩

theorem emitCloseTimeGate_quiet (nodes : List Node) (ctx : Context) (program : Program) :
    (emitCloseTimeGate nodes ctx program).code.Quiet [] := by
  obtain ⟨hchecks, hflags⟩ := closeTimeChecks_quiet ctx nodes 0 program
  unfold emitCloseTimeGate
  split
  · exact .of_nil rfl rfl rfl
  · rename_i code flags h
    rw [h] at hchecks hflags
    refine hchecks.append (.of_nil rfl rfl (all_eq_true.mpr fun e he => ?_))
    obtain ⟨x, hx, rfl⟩ := mem_map.mp he
    exact beq_iff_eq.mpr (hflags x hx)

theorem emitIndicator_neutral (n : Node) (i : Nat) : (emitIndicator n i).code.Neutral [] := by
  rw [emitIndicator]
  split
  · rename_i signal indicator h
    cases indicator <;> exact .of_eq rfl rfl
  · exact .of_eq rfl rfl

theorem emitPriceAction_quiet (n : Node) (i : Nat) :
    (emitPriceAction n i).code.Quiet [sessionRange, findLevels] := by
  have hscalars (xs : List (String × String)) (h : ∀ x ∈ xs, endsApart x.2 = true) :
      ∀ g ∈ xs.map fun x => Global.scalar x.1 (paVar i x.2) none none,
        isHandleName g.name.text = false := by
    intro g hg
    obtain ⟨x, hx, rfl⟩ := mem_map.mp hg
    exact isHandleName_of_endsApart (x := paVar i x.2) (h x hx)
  have hunshared (xs : List (String × String)) {p : Program}
      (hp : p.globals = xs.map fun x => .scalar x.1 (paVar i x.2) none none)
      (h : (xs.any fun x => (Global.scalar x.1 ⟨"pa", none, x.2⟩ none none).isShared) = false) :
      p.Unshared :=
    .of_eq (by rw [hp, map_map]) (by rw [any_map]; exact h)
  rw [emitPriceAction]
  cases n.data.payload with
  | priceAction timeframe action =>
    cases action with
    | rangeBreakout p =>
      let xs := [("double", "High"), ("double", "Low"), ("double", "Size"), ("bool", "Valid"),
        ("bool", "BreakoutUp"), ("bool", "BreakoutDown")]
      refine Program.Silent.quiet ⟨rfl, rfl, hscalars xs (by decide)⟩ (hunshared xs rfl (by decide))
        ?_ rfl rfl
      simp only [rangeCode]
      split_ifs <;> simp
    | candlestickPattern p =>
      let xs := [("bool", "BuySignal"), ("bool", "SellSignal")]
      exact Program.Silent.quiet ⟨rfl, rfl, hscalars xs (by decide)⟩ (hunshared xs rfl (by decide))
        (nil_subset _) rfl rfl
    | supportResistance p =>
      let xs := [("double", "Support"), ("double", "Resistance"), ("bool", "NearSupport"),
        ("bool", "NearResistance")]
      exact Program.Silent.quiet ⟨rfl, rfl, hscalars xs (by decide)⟩ (hunshared xs rfl (by decide))
        (by simp [levelCode]) rfl rfl
  | _ => exact .of_nil rfl rfl rfl

/-! ## Risk -/

theorem noDistance_quiet (x : Ident) (what : String) : (noDistance x what).Quiet [] :=
  .of_nil rfl rfl rfl

theorem emitIndicatorStop_quiet (n : Node) (p : StopLoss) (indicators : List Node)
    (edges : List Edge) (known : List String) (ctx : Context) :
    (emitIndicatorStop n p indicators edges known ctx).code.Quiet [] := by
  rw [emitIndicatorStop]
  split
  · exact .of_nil rfl rfl rfl
  · split
    · simp only [indicatorStop]
      split <;> exact .of_nil rfl rfl rfl
    · split <;> exact .of_nil rfl rfl rfl

section Stop

variable (n : Node) (indicators priceAction : List Node) (edges : List Edge) (known : List String)
  (ctx : Context)

/-- A stop has its method, is neutral apart from that, and is quiet unless it is measured by the
average true range. -/
theorem emitStopLoss_neutral :
    ∃ p, (emitStopLoss n indicators priceAction edges known ctx).code =
        { stopMethod := n.data.payload.stopMethod? } ++ p ∧ p.Neutral [] ∧
      (n.data.payload.stopMethod? = some .percent → ∃ i ∈ p.inputs, i.name = "InpSLPercent") ∧
      (n.data.payload.stopMethod? ≠ some .atrBased → p.Quiet []) := by
  unfold emitStopLoss Payload.stopMethod?
  cases n.data.payload with
  | trading action =>
    cases action with
    | stopLoss p =>
      refine ⟨_, rfl, ?_⟩
      change _ ∧ (some p.method = _ → _) ∧ (some p.method ≠ _ → _)
      cases p.method with
      | fixedPips => exact ⟨.of_eq rfl rfl, by simp, fun _ => .of_nil rfl rfl rfl⟩
      | percent =>
        exact ⟨.of_eq rfl rfl, fun _ => ⟨_, mem_cons_self, rfl⟩, fun _ => .of_nil rfl rfl rfl⟩
      | atrBased => exact ⟨.of_eq rfl rfl, by simp, fun h => absurd rfl h⟩
      | rangeOpposite =>
        simp only
        split <;> exact ⟨.of_eq rfl rfl, by simp, fun _ => .of_nil rfl rfl rfl⟩
      | indicator =>
        have hquiet := emitIndicatorStop_quiet n p indicators edges known ctx
        exact ⟨hquiet.toNeutral, by simp, fun _ => hquiet⟩
    | _ => exact ⟨{}, rfl, .of_eq rfl rfl, by simp, fun _ => .of_nil rfl rfl rfl⟩
  | _ => exact ⟨{}, rfl, .of_eq rfl rfl, by simp, fun _ => .of_nil rfl rfl rfl⟩

/-- Only a stop that is measured by the average true range declares the handle that a target may
share. -/
theorem emitStopLoss_mentions :
    (emitStopLoss n indicators priceAction edges known ctx).code.mentions "int atrHandle" =
        (n.data.payload.stopMethod? == some .atrBased) ∧
      (emitStopLoss n indicators priceAction edges known ctx).code.mentions "SMLTPState" =
        false := by
  by_cases hatr : n.data.payload.stopMethod? = some .atrBased
  · obtain ⟨p, hp, hmethod⟩ : ∃ p, n.data.payload = .trading (.stopLoss p) ∧
        p.method = .atrBased := by
      unfold Payload.stopMethod? at hatr
      split at hatr
      · exact ⟨_, ‹_›, Option.some.inj hatr⟩
      · cases hatr
    rw [hatr]
    simp only [emitStopLoss, hp, hmethod]
    rw [Program.mentions_append, Program.mentions_append]
    exact atrStop_mentions n p
  · obtain ⟨p, hcode, -, -, hquiet⟩ := emitStopLoss_neutral n indicators priceAction edges known ctx
    have hunshared : Program.Unshared ({ stopMethod := n.data.payload.stopMethod? } ++ p) :=
      .append (.of_nil rfl) (hquiet hatr).unshared
    rw [hcode, beq_eq_false_iff_ne.mpr hatr]
    exact ⟨hunshared.handle, hunshared.table⟩

theorem emitStopLoss_asks :
    (emitStopLoss n indicators priceAction edges known ctx).code.Asks [] := by
  obtain ⟨p, hcode, hneutral, -⟩ := emitStopLoss_neutral n indicators priceAction edges known ctx
  rw [hcode]
  exact Program.Asks.append (show Program.Asks [] _ from .of_eq rfl rfl rfl) hneutral.toAsks

end Stop

def Payload.targetMethod? : Payload → Option TargetMethod
  | .trading (.takeProfit p) => some p.method
  | _ => none

/-- A target has its method, is neutral apart from that, and has no handle unless it is measured by
the average true range. -/
theorem emitTakeProfit_neutral (n : Node) (program : Program) :
    ∃ p, (emitTakeProfit n program).code =
        { targetMethod := n.data.payload.targetMethod? } ++ p ∧ p.Neutral [] ∧
      (n.data.payload.targetMethod? = some .riskReward → ∃ i ∈ p.inputs, i.name = "InpRiskReward") ∧
      (n.data.payload.targetMethod? ≠ some .atrBased → p.Silent) := by
  unfold emitTakeProfit Payload.targetMethod?
  cases n.data.payload with
  | trading action =>
    cases action with
    | takeProfit p =>
      refine ⟨_, rfl, ?_⟩
      change _ ∧ (some p.method = _ → _) ∧ (some p.method ≠ _ → _)
      cases p.method with
      | fixedPips => exact ⟨.of_eq rfl rfl, by simp, fun _ => .of_nil rfl⟩
      | riskReward => exact ⟨.of_eq rfl rfl, fun _ => ⟨_, mem_cons_self, rfl⟩, fun _ => .of_nil rfl⟩
      | atrBased =>
        refine ⟨?_, by simp, fun h => absurd rfl h⟩
        simp only [atrTarget]
        split <;> exact .of_eq rfl rfl
    | _ => exact ⟨{}, rfl, .of_eq rfl rfl, by simp, fun _ => .of_nil rfl⟩
  | _ => exact ⟨{}, rfl, .of_eq rfl rfl, by simp, fun _ => .of_nil rfl⟩

theorem emitTakeProfit_asks (n : Node) (program : Program) :
    (emitTakeProfit n program).code.Asks [] := by
  obtain ⟨p, hcode, hneutral, -⟩ := emitTakeProfit_neutral n program
  rw [hcode]
  exact Program.Asks.append (show Program.Asks [] _ from .of_eq rfl rfl rfl) hneutral.toAsks

theorem emitOrder_quiet (side : Side) (n : Node) (program : Program) :
    (emitOrder side n program).code.Quiet [Library.lotSize, Library.normalizeLot] := by
  rw [emitOrder]
  cases n.data.payload with
  | trading action =>
    cases action with
    | order other s =>
      refine Program.Quiet.append ?_ (Program.Silent.quiet (.of_nil rfl) (.of_nil rfl)
        (by simp) rfl rfl)
      cases s.method with
      | fixedLot => exact .of_nil rfl rfl rfl
      | riskPercent => exact Program.Silent.quiet (.of_nil rfl) (.of_nil rfl) (by simp) rfl rfl
    | _ => exact .of_nil rfl rfl rfl
  | _ => exact .of_nil rfl rfl rfl

/-! ## Entries and exits -/

/-- The functions that can be asked for. -/
def libraryFunctions (options : Options) : List Function :=
  [sessionRange, findLevels, Library.lotSize, Library.normalizeLot, Library.pendingExpiry,
    Library.deletePending, Library.countByType] ++
    [Side.buy, Side.sell].flatMap fun side =>
      [Library.closePositions side.label, Library.openOrder side.label options,
        Library.pendingOrder side.label true, Library.pendingOrder side.label false]

theorem orderFunction_mem_library (side : Side) (s : Sizing) (options : Options) :
    orderFunction side s options ∈ libraryFunctions options := by
  rw [orderFunction]
  split
  · cases side <;> cases s.orderType == .stop <;> simp [libraryFunctions]
  · cases side <;> simp [libraryFunctions]

theorem entryOpening_quiet (ctx : Context) (orders : Orders) (c : Conditions) :
    (entryOpening ctx orders c).Quiet [] := by
  have hlast : ([.scalar "datetime" "lastEntryBar" (some 0)
      (some "Prevent multiple entries per bar")] : List Global).any Global.isShared = false := by
    decide
  have hday : ([.scalar "datetime" "plDayStart" (some 0) none, .scalar "double" "dayStartBalance"
      (some 0) none] : List Global).any Global.isShared = false := by
    decide
  simp only [entryOpening]
  refine Program.Quiet.append (Program.Quiet.append
    (Program.Silent.quiet ⟨rfl, rfl, by simp +decide [Global.name]⟩ (.of_eq rfl hlast)
      (nil_subset _) rfl rfl) ?_) ?_
  · split
    · exact Program.Silent.quiet ⟨rfl, rfl, by decide⟩ (.of_eq rfl (by decide)) (nil_subset _)
        rfl rfl
    · exact .of_nil rfl rfl rfl
  · split
    · exact Program.Silent.quiet ⟨rfl, rfl, by simp +decide [dailyLimits, Global.name]⟩
        (.of_eq rfl hday) (nil_subset _) rfl rfl
    · exact .of_nil rfl rfl rfl

theorem entryOrders_quiet (ctx : Context) (program : Program) (inputs : List Input)
    (sizes : List (Side × Sizing)) (priceAction : List Node) :
    (entryOrders ctx program inputs sizes priceAction).code.Quiet
    (libraryFunctions ctx.options) := by
  simp only [entryOrders]
  refine Program.Quiet.append (Program.Quiet.append ?_
    (Program.Silent.quiet (.of_nil rfl) (.of_nil rfl) ?_ rfl rfl)) ?_
  · split
    · exact .of_nil rfl rfl rfl
    · exact Program.Silent.quiet (.of_nil rfl) (.of_nil rfl)
        (by simp [pendingNeeds, libraryFunctions]) rfl rfl
  · rintro h (_ | ⟨_, hh⟩)
    · exact mem_map_of_mem (by simp [libraryFunctions])
    · obtain ⟨⟨side, s⟩, -, rfl⟩ := mem_map.mp hh
      exact mem_map_of_mem (orderFunction_mem_library side s ctx.options)
  · split <;> exact .of_nil rfl rfl rfl

theorem emitEntry_quiet (indicators priceAction : List Node) (orders : Orders) (ctx : Context)
    (program : Program) :
    (emitEntry indicators priceAction orders ctx program).code.Quiet
      (libraryFunctions ctx.options) := by
  simp only [emitEntry]
  split
  · exact .of_nil rfl rfl rfl
  · split
    · exact .of_nil rfl rfl rfl
    · rename_i inputs c h
      have hopening : ({ inputs } ++ entryOpening ctx orders c : Program).Quiet
          (libraryFunctions ctx.options) :=
        Program.Quiet.append (.of_nil rfl rfl rfl)
          ((entryOpening_quiet ctx orders c).mono (nil_subset _))
      cases orderSizes orders with
      | error f => exact hopening
      | ok sizes => exact hopening.append (entryOrders_quiet ctx program inputs sizes priceAction)

/-- What exits ask for. -/
def exitFunctions : List Function :=
  [Library.closePositions Side.buy.label, Library.closePositions Side.sell.label,
    Library.deletePending]

theorem emitCloseCondition_quiet (n : Node) (i : Nat) (indicators priceAction : List Node)
    (edges : List Edge) :
    (emitCloseCondition n i indicators priceAction edges).code.Quiet exitFunctions := by
  rw [emitCloseCondition]
  split
  · split
    · exact .of_nil rfl rfl rfl
    · split
      · exact .of_nil rfl rfl rfl
      · refine Program.Silent.quiet (.of_nil rfl) (.of_nil rfl) ?_ rfl rfl
        intro h hh
        obtain ⟨side, -, rfl⟩ := mem_map.mp hh
        cases side <;> simp [exitFunctions]
  · exact .of_nil rfl rfl rfl

theorem emitTimeExit_quiet (n : Node) (i : Nat) (ctx : Context) (program : Program) :
    (emitTimeExit n i ctx program).code.Quiet exitFunctions := by
  rw [emitTimeExit]
  split
  · rename_i p hp
    refine Program.Quiet.append (.of_nil rfl rfl rfl) ?_
    cases p.exitMode with
    | bars => exact .of_nil rfl rfl rfl
    | closeAtTime =>
      exact ((closeTimeCheck_quiet n p i ctx program).mono (nil_subset _)).append
        (Program.Silent.quiet (.of_nil rfl) (.of_nil rfl) (List.Subset.refl _) rfl rfl)
  · exact .of_nil rfl rfl rfl

theorem Planned.asks {s : Step} (hs : Planned r edges known ctx s) (p : Program) :
    (s p).code.Asks (libraryFunctions ctx.options) := by
  have hnil : [] ⊆ libraryFunctions ctx.options := nil_subset _
  have hexit : exitFunctions ⊆ libraryFunctions ctx.options := by
    simp [exitFunctions, libraryFunctions]
  cases hs with
  | spread => exact (emitSpread_quiet _).toAsks.mono hnil
  | timing => exact (emitTiming_quiet _).toAsks.mono hnil
  | closeTimeGate => exact (emitCloseTimeGate_quiet _ ctx p).toAsks.mono hnil
  | indicator hn => exact (emitIndicator_neutral _ _).toAsks.mono hnil
  | priceAction hn =>
    exact (emitPriceAction_quiet _ _).toAsks.mono (by simp [libraryFunctions])
  | stopLoss hentry hn => exact (emitStopLoss_asks _ _ _ _ _ _).mono hnil
  | noStop hentry hn => exact (noDistance_quiet _ _).toAsks.mono hnil
  | takeProfit hentry hn => exact (emitTakeProfit_asks _ p).mono hnil
  | noTarget hentry hn => exact (noDistance_quiet _ _).toAsks.mono hnil
  | order hn => exact (emitOrder_quiet _ _ p).toAsks.mono (by simp [libraryFunctions])
  | entry => exact (emitEntry_quiet _ _ _ ctx p).toAsks
  | closeCondition hn => exact (emitCloseCondition_quiet _ _ _ _ _).toAsks.mono hexit
  | timeExit hn => exact (emitTimeExit_quiet _ _ ctx p).toAsks.mono hexit

theorem Planned.not_mentions_table {s : Step} (hs : Planned r edges known ctx s) (p : Program) :
    (s p).code.mentions "SMLTPState" = false := by
  cases hs with
  | spread => exact (emitSpread_quiet _).unshared.table
  | timing => exact (emitTiming_quiet _).unshared.table
  | closeTimeGate => exact (emitCloseTimeGate_quiet _ ctx p).unshared.table
  | indicator hn => exact (emitIndicator_unshared _ _).table
  | priceAction hn => exact (emitPriceAction_quiet _ _).unshared.table
  | stopLoss hentry hn => exact (emitStopLoss_mentions _ _ _ _ _ _).2
  | noStop hentry hn => exact (noDistance_quiet _ _).unshared.table
  | takeProfit hentry hn => exact (emitTakeProfit_unshared _ p).table
  | noTarget hentry hn => exact (noDistance_quiet _ _).unshared.table
  | order hn => exact (emitOrder_quiet _ _ p).unshared.table
  | entry => exact (emitEntry_quiet _ _ _ ctx p).unshared.table
  | closeCondition hn => exact (emitCloseCondition_quiet _ _ _ _ _).unshared.table
  | timeExit hn => exact (emitTimeExit_quiet _ _ ctx p).unshared.table

/-- Before the rules there is no table of levels. -/
theorem Run.not_mentions_table {p q : Program} (h : Run (earlierSteps r edges known ctx) p q)
    (hp : p.mentions "SMLTPState" = false) : q.mentions "SMLTPState" = false := by
  refine h.invariant (I := fun m => m.mentions "SMLTPState" = false) (fun s hs m hm _ => ?_) hp
  rw [Program.mentions_append, hm, (mem_earlierSteps_iff.mp hs).not_mentions_table m]
  rfl

/-- Signals declare no handle that a target could take for that of a stop. -/
theorem Run.not_mentions_handle {p q : Program}
    (h : Run (signalSteps r ctx) p q) (hp : p.mentions "int atrHandle" = false) :
    q.mentions "int atrHandle" = false := by
  refine h.invariant (I := fun m => m.mentions "int atrHandle" = false) (fun s hs m hm _ => ?_) hp
  suffices hcode : (s m).code.mentions "int atrHandle" = false by
    rw [Program.mentions_append, hm, hcode]
    rfl
  rcases mem_signalSteps_iff.mp hs with (rfl | rfl | rfl) | ⟨n, i, -, rfl⟩ | ⟨n, i, -, rfl⟩
  · exact (emitSpread_quiet _).unshared.handle
  · exact (emitTiming_quiet _).unshared.handle
  · exact (emitCloseTimeGate_quiet _ ctx m).unshared.handle
  · exact (emitIndicator_unshared n i).handle
  · exact (emitPriceAction_quiet n i).unshared.handle

theorem Run.rules_eq_nil
    {p q : Program} (h : Run (earlierSteps r edges known ctx) p q) (hp : p.rules = []) :
    q.rules = [] := by
  refine h.invariant (I := fun m => m.rules = []) (fun s hs m hm _ => ?_) hp
  rw [Program.append_rules, hm, ((mem_earlierSteps_iff.mp hs).asks m).rules]
  rfl

/-! ## Rules -/

/-- The part does nothing on a tick and sets no method: it is one more call in the pass. -/
structure Program.IsRule (p : Program) : Prop where
  tick : p.tick = []
  gates : p.gates = []
  rules : p.rules.length = 1
  stop : p.stopMethod = none
  target : p.targetMethod = none

theorem managementCode_isRule (n : Node) (program : Program) (rule : Management) :
    (managementCode n program rule).IsRule := by
  cases rule with
  | breakeven p =>
    simp only [managementCode, Rule.breakevenCode]
    cases p.trigger <;> exact ⟨rfl, rfl, rfl, rfl, rfl⟩
  | trailing p =>
    simp only [managementCode, Rule.trailingCode]
    cases p.method <;> exact ⟨rfl, rfl, rfl, rfl, rfl⟩
  | partialClose p => exact ⟨rfl, rfl, rfl, rfl, rfl⟩
  | lockProfit p => exact ⟨rfl, rfl, rfl, rfl, rfl⟩
  | multiTarget p =>
    simp only [managementCode, Rule.targetsCode]
    cases program.mentions "SMLTPState" <;> exact ⟨rfl, rfl, rfl, rfl, rfl⟩

/-- The input by which the rules of a kind are counted. -/
def Management.marker : Management → String
  | .breakeven _ => "InpBELockPips"
  | .trailing _ => "InpTrailStartPips"
  | .partialClose _ => "InpPartialClosePercent"
  | .lockProfit _ => "InpLockCheckInterval"
  | .multiTarget _ => "InpMLTP1Pips"

def Management.kind (rule : Management) : Kind :=
  (Payload.management rule).kind

/-- The words of the inputs of a rule. -/
def Management.inputStems : Management → List String
  | .breakeven p =>
    (match p.trigger with
      | .pips => ["InpBETriggerPips"]
      | .percentage => ["InpBETriggerPercent"]
      | .atr => ["InpBEATRPeriod", "InpBEATRMultiplier"]) ++ ["InpBELockPips"]
  | .trailing p =>
    (match p.method with
      | .atrBased => ["InpTrailATRPeriod", "InpTrailATRMultiplier"]
      | .percentage => ["InpTrailPercent"]
      | .fixedPips => ["InpTrailPips"]) ++ ["InpTrailStartPips"]
  | .partialClose p =>
    ["InpPartialClosePercent",
      match p.triggerMethod with
      | .riskMultiple => "InpPartialCloseRMultiple"
      | .percent => "InpPartialCloseTriggerPercent"
      | .pips => "InpPartialCloseTriggerPips"]
  | .lockProfit p =>
    [match p.method with
      | .percentage => "InpLockProfitPercent"
      | .fixedPips => "InpLockProfitPips", "InpLockCheckInterval"]
  | .multiTarget _ =>
    ["InpMLTP1Pips", "InpMLTP1Percent", "InpMLTP2Pips", "InpMLTP2Percent", "InpMLTP3Pips",
      "InpMLTP3Percent"]

theorem inputs_managementCode (n : Node) (program : Program) (rule : Management) :
    (managementCode n program rule).inputs.map Input.name =
      rule.inputStems.map fun s => (⟨s, Rule.nextRule program rule.marker, ""⟩ : Ident) := by
  cases rule with
  | breakeven p =>
    simp only [managementCode, Rule.breakevenCode, Management.inputStems]
    cases p.trigger <;> rfl
  | trailing p =>
    simp only [managementCode, Rule.trailingCode, Management.inputStems]
    cases p.method <;> rfl
  | partialClose p =>
    simp only [managementCode, Rule.partialCode, Management.inputStems]
    cases p.triggerMethod <;> rfl
  | lockProfit p =>
    simp only [managementCode, Rule.lockCode, Management.inputStems]
    cases p.method <;> rfl
  | multiTarget p =>
    simp only [managementCode, Rule.targetsCode]
    split <;> rfl

theorem Management.marker_mem_inputStems (rule : Management) : rule.marker ∈ rule.inputStems := by
  cases rule <;> simp [marker, inputStems]

/-- The handle and the buffer of a rule, without its number. -/
def unnumberedAtr (stem : String) : List Global :=
  [.scalar "int" ⟨stem, none, "Handle"⟩ (some Platform.invalidHandle) none,
    .array "double" ⟨stem, none, "Buffer"⟩ none]

/-- Of the rules, only one with levels looks for their table, and it declares the table that it does
not find. -/
theorem mentions_managementCode (n : Node) (program : Program) (rule : Management) :
    (managementCode n program rule).mentions "SMLTPState" =
      (rule.kind == .multiLevelTarget && !program.mentions "SMLTPState") := by
  cases rule with
  | breakeven p =>
    simp only [managementCode, Rule.breakevenCode]
    refine Program.Unshared.table ?_
    cases p.trigger with
    | atr => exact .of_eq (l := unnumberedAtr "beATR") rfl (by decide)
    | _ => exact .of_nil rfl
  | trailing p =>
    simp only [managementCode, Rule.trailingCode]
    refine Program.Unshared.table ?_
    cases p.method with
    | atrBased => exact .of_eq (l := unnumberedAtr "trailATR") rfl (by decide)
    | _ => exact .of_nil rfl
  | partialClose p =>
    exact Program.Unshared.table (.of_eq (l := [.array "ulong" "partialClosedTickets"
      (some "tickets already partially closed")]) rfl (by decide))
  | lockProfit p => exact Program.Unshared.table (.of_nil rfl)
  | multiTarget p =>
    have htable : Rule.levelTable.mentions "SMLTPState" = true := by decide
    simp only [managementCode, Rule.targetsCode]
    cases program.mentions "SMLTPState" with
    | true => rfl
    | false =>
      rw [if_neg (by decide), Program.mentions_append, Program.mentions_append, htable]
      rfl

end TradeGraph

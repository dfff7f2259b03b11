import TradeGraph.Proofs.Distinct
import TradeGraph.Proofs.Inputs

/-!
# Optimizer flags of expanded strategies

Expansion copies fields of an entry strategy into fields of its parts, and carries the optimizer's
flags over by tables of its own. An input that shows a copied field may be optimized exactly if the
strategy allows it for the field that was copied, save for three fields whose flag no table carries:
they are fixed as soon as the strategy has a list. Which field an input shows is told by its name,
and so is the node, except for limits of signals.
-/

namespace TradeGraph

open List Mql Rule

variable {c : FieldCopy}
variable {key project : String} {signals : EntrySignals} {strategy : Node} {program : Program}
  {options : Options}

/-! ## Copies -/

/-- A field of a strategy that becomes a field of the part in a role. -/
structure FieldCopy where
  role : String
  source : String
  target : String
deriving DecidableEq, Repr

def EntrySignals.copies : EntrySignals → List FieldCopy
  | .emaCrossover _ =>
    [⟨"ma-fast", "fastEma", "period"⟩,
      ⟨"ma-fast", "minEmaSeparation", "minEmaSeparation"⟩,
      ⟨"ma-slow", "slowEma", "period"⟩,
      ⟨"ma-slow", "minEmaSeparation", "minEmaSeparation"⟩,
      ⟨"htf-ema", "htfEma", "period"⟩,
      ⟨"rsi-confirm", "rsiPeriod", "period"⟩,
      ⟨"rsi-confirm", "rsiLongMax", "overboughtLevel"⟩,
      ⟨"rsi-confirm", "rsiShortMin", "oversoldLevel"⟩]
  | .trendPullback _ =>
    [⟨"trend-ema", "trendEma", "period"⟩,
      ⟨"trend-ema", "pullbackMaxDistance", "pullbackMaxDistance"⟩,
      ⟨"rsi", "pullbackRsiPeriod", "period"⟩,
      ⟨"rsi", "rsiPullbackLevel", "oversoldLevel"⟩,
      ⟨"adx", "adxPeriod", "period"⟩,
      ⟨"adx", "adxThreshold", "trendLevel"⟩]
  | .rsiReversal _ =>
    [⟨"rsi", "rsiPeriod", "period"⟩,
      ⟨"rsi", "overboughtLevel", "overboughtLevel"⟩,
      ⟨"rsi", "oversoldLevel", "oversoldLevel"⟩,
      ⟨"trend-ema", "trendEma", "period"⟩]
  | .macdCrossover _ =>
    [⟨"macd", "macdFast", "fastPeriod"⟩,
      ⟨"macd", "macdSlow", "slowPeriod"⟩,
      ⟨"macd", "macdSignal", "signalPeriod"⟩]
  | .rangeBreakout _ =>
    [⟨"range", "rangePeriod", "lookbackCandles"⟩,
      ⟨"range", "bufferPips", "bufferPips"⟩,
      ⟨"range", "minRangePips", "minRangePips"⟩,
      ⟨"range", "maxRangePips", "maxRangePips"⟩,
      ⟨"range", "customStartHour", "sessionStartHour"⟩,
      ⟨"range", "customStartMinute", "sessionStartMinute"⟩,
      ⟨"range", "customEndHour", "sessionEndHour"⟩,
      ⟨"range", "customEndMinute", "sessionEndMinute"⟩,
      ⟨"htf-ema", "htfEma", "period"⟩]

/-- The copies into the orders, the stop and the target of a strategy. -/
def EntryPlan.copies : List FieldCopy :=
  [⟨"buy", "riskPercent", "riskPercent"⟩,
    ⟨"sell", "riskPercent", "riskPercent"⟩,
    ⟨"sl", "slFixedPips", "fixedPips"⟩,
    ⟨"sl", "slPercent", "slPercent"⟩,
    ⟨"sl", "slAtrMultiplier", "atrMultiplier"⟩,
    ⟨"sl", "slAtrPeriod", "atrPeriod"⟩,
    ⟨"sl", "timeframe", "atrTimeframe"⟩,
    ⟨"tp", "tpRMultiple", "riskRewardRatio"⟩]

/-- All copies of a node; only a strategy has any. -/
def Payload.copies : Payload → List FieldCopy
  | .entry _ signals => signals.copies ++ EntryPlan.copies
  | _ => []

def FieldCopy.keepsFlag (c : FieldCopy) : Bool :=
  !(["minEmaSeparation", "pullbackMaxDistance", "atrTimeframe"].contains c.target)

/-- The field of the node is a copy of a field of the strategy. -/
structure Node.TakesOver (n : Node) (c : FieldCopy) (strategy : Node) : Prop where
  part : n ∈ expandNode strategy
  id : n.id = partId strategy.id c.role
  copied : c ∈ strategy.data.payload.copies

/-! ## Entries -/

theorem Entries.find?_append_of_some {v : Json} {es fs : Entries}
    (h : es.find? key = some v) : Entries.find? key (es ++ fs) = some v := by
  rw [Entries.find?_eq] at *
  obtain ⟨e, he, rfl⟩ := Option.map_eq_some_iff.mp h
  rw [find?_append, he]
  rfl

theorem Payload.find?_entry {plan : EntryPlan} {v : Json}
    (h : (EntryPlan.codec.encode plan).find? key = some v) :
    (Payload.entry plan signals).encode.find? key = some v := by
  have hfirst : ∃ rest, (Payload.entry plan signals).encode =
    EntryPlan.codec.encode plan ++ rest := by
    cases signals <;> exact ⟨_, Codec.encode_pair _ _ _ _⟩
  obtain ⟨rest, hrest⟩ := hfirst
  rw [hrest]
  exact Entries.find?_append_of_some h

/-! ## Flags -/

theorem Common.isOptimizable_carryFlags (common : Common) (pairs : List (String × String))
    (label : String) (category : Option String) (target : String) :
    Common.isOptimizable ⟨label, category, carryFlags common pairs⟩ target =
      (common.optimizableFields.isNone ||
        pairs.any fun (s, t) => t == target && common.isOptimizable s) := by
  rw [Common.isOptimizable, carryFlags]
  cases h : common.optimizableFields with
  | none => rfl
  | some fields =>
    have hsame : ∀ s, common.isOptimizable s = fields.contains s := fun s => by
      rw [Common.isOptimizable, h]
    simp only [Option.map_some, Option.isNone_some, Bool.false_or, hsame]
    rw [Bool.eq_iff_iff, contains_iff_mem, mem_filterMap, any_eq_true]
    refine exists_congr fun pair => and_congr_right fun _ => ?_
    obtain ⟨s, t⟩ := pair
    simp [and_comm]

/-- The part holds the value of the copied field, and its flag if it is kept. -/
structure Part.Holds (p : Part) (common : Common) (payload : Payload) (c : FieldCopy) : Prop where
  value : p.payload.encode.find? c.target = payload.encode.find? c.source
  flag : Common.isOptimizable ⟨p.label, none, p.flags⟩ c.target =
    (common.optimizableFields.isNone || c.keepsFlag && common.isOptimizable c.source)

/-- A table carries the flag of a copy if its only source for the target is that of the copy. -/
theorem Part.Holds.of_table {p : Part} {common : Common} {payload : Payload}
    {pairs : List (String × String)} (hflags : p.flags = carryFlags common pairs)
    (hsources : (pairs.filter fun q => q.2 == c.target).map Prod.fst =
      if c.keepsFlag then [c.source] else [])
    (hvalue : p.payload.encode.find? c.target = payload.encode.find? c.source) :
    p.Holds common payload c where
  value := hvalue
  flag := by
    have hany : (pairs.any fun (s, t) => t == c.target && common.isOptimizable s) =
        ((pairs.filter fun q => q.2 == c.target).map Prod.fst).any common.isOptimizable := by
      rw [any_map, any_filter]
      rfl
    rw [hflags, Common.isOptimizable_carryFlags, hany, hsources]
    cases c.keepsFlag
    · rfl
    · simp

def Part.HoldsCopies (p : Part) (common : Common) (payload : Payload) : Prop :=
  ∀ c ∈ payload.copies, p.role = c.role → p.Holds common payload c

theorem Origin.signals_hold (o : Origin) (plan : EntryPlan) (signals : EntrySignals) :
    ∀ p ∈ o.signals plan signals, p.HoldsCopies o.common (.entry plan signals) := by
  cases signals
  -- one goal for each signal
  all_goals
    simp only [Origin.signals, Origin.emaCrossover, Origin.trendPullback, Origin.rsiReversal,
      Origin.macdCrossover, Origin.rangeBreakout, Origin.trendFilter, mem_append,
      mem_cons, not_mem_nil, mem_ite_nil_right, or_false, or_imp, and_imp, forall_and,
      forall_eq]
    and_intros
  -- one goal for each copy into its role
  all_goals
    intros
    subst_vars
    simp only [Part.HoldsCopies, Payload.copies, EntrySignals.copies, EntryPlan.copies,
      cons_append, nil_append, forall_mem_cons, String.reduceEq, false_implies,
      true_implies, not_mem_nil, implies_true, and_true, true_and]
    and_intros
  all_goals exact .of_table rfl (by decide) rfl

theorem EntrySignals.role_of_mem_copies (hc : c ∈ signals.copies) :
    c.role ∉ ["buy", "sell", "sl", "tp"] := by
  have hall : ∀ c ∈ signals.copies, c.role ∉ ["buy", "sell", "sl", "tp"] := by
    cases signals <;> simp [EntrySignals.copies]
  exact hall c hc

/-- Every part holds what is copied into its role. -/
theorem Origin.parts_hold (o : Origin) (plan : EntryPlan) (signals : EntrySignals) :
    ∀ p ∈ o.parts plan signals, p.HoldsCopies o.common (.entry plan signals) := by
  have hplan (p : Part) (hrole : p.role ∈ ["buy", "sell", "sl", "tp"])
      (h : ∀ c ∈ EntryPlan.copies, p.role = c.role → p.Holds o.common (.entry plan signals) c) :
      p.HoldsCopies o.common (.entry plan signals) := by
    intro c hc hsame
    rcases mem_append.mp hc with hc | hc
    · exact absurd (hsame ▸ hrole) (EntrySignals.role_of_mem_copies hc)
    · exact h c hc hsame
  refine Origin.forall_mem_parts (P := fun p => p.HoldsCopies o.common (.entry plan signals))
    (o.signals_hold plan signals) (fun side => ?_) ?_ ?_
  case' refine_1 => cases side
  all_goals
    refine hplan _ (by simp [Origin.order, Origin.stop, Origin.target, Side.lower]) ?_
    simp only [EntryPlan.copies, Origin.order, Origin.stop, Origin.target, Side.lower,
      forall_mem_cons, String.reduceEq, false_implies, true_implies, not_mem_nil,
      implies_true, and_true, true_and]
    and_intros
  all_goals exact .of_table rfl (by decide) (Payload.find?_entry rfl).symm

/-! ## Inputs -/

theorem Node.TakesOver.holds {n : Node} (h : n.TakesOver c strategy) :
    n.data.payload.encode.find? c.target = strategy.data.payload.encode.find? c.source ∧
      n.isOptimizable c.target =
        (strategy.data.common.optimizableFields.isNone ||
          c.keepsFlag && strategy.isOptimizable c.source) := by
  obtain ⟨hpart, hid, hcopied⟩ := h
  have hentry : ∃ plan signals, strategy.data.payload = .entry plan signals := by
    cases hpayload : strategy.data.payload with
    | entry plan signals => exact ⟨plan, signals, rfl⟩
    | timing | filter | indicator | priceAction | trading | management =>
      rw [hpayload] at hcopied
      cases hcopied
  obtain ⟨plan, signals, hpayload⟩ := hentry
  rw [expandNode_eq_parts hpayload] at hpart
  obtain ⟨p, hmem, rfl⟩ := mem_map.mp hpart
  have hholds := strategy.origin.parts_hold plan signals p hmem
  have hrole : p.role = c.role := by
    have hid : partId strategy.id p.role = partId strategy.id c.role := hid
    simpa [partId, ← String.toList_inj] using hid
  rw [hpayload] at hcopied ⊢
  obtain ⟨hvalue, hflag⟩ := hholds c hcopied hrole
  exact ⟨hvalue, hflag⟩

/-! ## Owners -/

/-- The node that names of a family belong to: a signal by its place, the stop, the target, or the
order of a side. -/
def Roles.owner (r : Roles) : Family → Option Nat → Option Node
  | .indicator, some k => r.indicators[k]?
  | .priceAction, some k => r.priceAction[k]?
  | .stop, none => r.stopLoss.head?
  | .target, none => r.takeProfit.head?
  | .order side, none => r.orders.of side
  | _, _ => none

/-- The name is for a field of a node: its words tell the field, and its number the node. -/
structure Mql.Ident.Tells (r : Roles) (x : Ident) (n : Node) (field : String) : Prop where
  field : x.field? = some field
  owner : ∃ f, x.Named f ∧ r.owner f x.number = some n

section Owners

variable {n : Node} {field type : String} {i : Input} {name x : Ident} {s : Settings}
  {value : Scalar}
  {r : Roles} {f : Family}

theorem Settings.Gives.field?_eq_none (h : s.Gives name type value) : name.field? = none := by
  cases h <;> decide

theorem Constant.field?_eq_none (h : Constant name type value) : name.field? = none := by
  cases h <;> decide

theorem Input.Sourced.shows (h : i.Sourced s [n]) (hfield : i.name.field? = some field) :
    i.Shows n field := by
  cases h.supplied with
  | field hn hname hshows =>
    obtain rfl := mem_singleton.mp hn
    cases hname.symm.trans hfield
    exact hshows
  | setting hsetting =>
    rw [hsetting.field?_eq_none] at hfield
    cases hfield
  | constant hconstant =>
    rw [hconstant.field?_eq_none] at hfield
    cases hfield

namespace Mql.Ident.Tells

theorem owner_eq (h : x.Tells r n field) (hx : x.Named f) : r.owner f x.number = some n := by
  obtain ⟨g, hg, howner⟩ := h.owner
  rwa [family_unique hx hg]

theorem owner_eq_of_at {number : Option Nat} (h : x.Tells r n field) (hx : At f number x) :
    r.owner f number = some n :=
  hx.2 ▸ h.owner_eq hx.1

theorem false_of_named (h : x.Tells r n field) (hx : x.Named f) (hf : ∀ k, r.owner f k = none) :
    False := by
  have howner := h.owner_eq hx
  rw [hf] at howner
  cases howner

end Mql.Ident.Tells

/-- An input of a step that is named for a field of a node is for the node of the step. -/
theorem Planned.shows {edges : List Edge} {known : List String} {ctx : Context} {step : Step}
    (h : Planned r edges known ctx step)
    (hi : i ∈ (step program).code.inputs) (htells : i.name.Tells r n field) : i.Shows n field := by
  have hname := Program.name_mem hi
  have hother {f : Family} (hx : i.name.Named f) (hf : ∀ k, r.owner f k = none) : i.Shows n field :=
    (htells.false_of_named hx hf).elim
  have hown {f : Family} {number : Option Nat} {m : Node} (hx : At f number i.name)
      (hm : r.owner f number = some m)
      (hsourced : AllSourced ctx.settings [m] (step program).code.inputs) : i.Shows n field := by
    cases hm.symm.trans (htells.owner_eq_of_at hx)
    exact (hsourced i hi).shows htells.field
  -- a step either has the family and number of its node, or a family without owners
  have hself (m : Node) : m ∈ [m] := mem_singleton_self m
  cases h with
  | spread =>
    rw [always, emitSpread_names] at hname
    cases hname
  | timing =>
    rw [always, emitTiming_names] at hname
    cases hname
  | closeTimeGate =>
    exact hother ((emitCloseTimeGate_declares _ ctx program).named _ hname) fun _ => rfl
  | @indicator m k hm =>
    exact hown ((emitIndicator_declares m k).named _ hname) hm (emitIndicator_sourced (hself m))
  | @priceAction m k hm =>
    exact hown ((emitPriceAction_declares m k).named _ hname) hm (emitPriceAction_sourced (hself m))
  | @stopLoss m _ hm =>
    exact hown ((emitStopLoss_declares m _ _ _ _ _).named _ hname) hm
      (emitStopLoss_sourced (hself m) _ _ _ _ _)
  | noStop => cases hi
  | @takeProfit m _ hm =>
    exact hown ((emitTakeProfit_declares m program).named _ hname) hm
      (emitTakeProfit_sourced (hself m) program)
  | noTarget => cases hi
  | @order side m hm =>
    exact hown ((emitOrder_declares side m program).named _ hname) hm
      (emitOrder_sourced (hself m) side program)
  | entry => exact hother ((emitEntry_declares _ _ _ ctx program).named _ hname) fun _ => rfl
  | closeCondition =>
    rw [always, emitCloseCondition_names] at hname
    cases hname
  | @timeExit m k _ =>
    rw [emitTimeExit_names] at hname
    split at hname
    · split at hname
      · exact hother ((closeAfterBars_declares m _ k).named _ hname).1 fun _ => rfl
      · exact hother ((closeTimeCheck_declares m _ k ctx program).named _ hname).1 fun _ => rfl
    · cases hname

/-- Rules have names of their own. -/
theorem managementCode_tells {m : Node} {rule : Management}
    (hi : i ∈ (managementCode m program rule).inputs) : ¬ i.name.Tells r n field := by
  intro htells
  obtain ⟨f, hf, hnone⟩ : ∃ f, i.name.Named f ∧ ∀ k, r.owner f k = none := by
    have hname := Program.name_mem hi
    cases rule with
    | breakeven p => exact ⟨_, ((breakevenCode_declares m p program).named _ hname).1, fun _ => rfl⟩
    | trailing p => exact ⟨_, ((trailingCode_declares m p program).named _ hname).1, fun _ => rfl⟩
    | partialClose p =>
      exact ⟨_, ((partialCode_declares m p program).named _ hname).1, fun _ => rfl⟩
    | lockProfit p => exact ⟨_, ((lockCode_declares m p program).named _ hname).1, fun _ => rfl⟩
    | multiTarget p =>
      have hlevels : i ∈ (levelInputsOf m p (nextRule program "InpMLTP1Pips")).inputs := by
        simp only [managementCode, targetsCode, Program.append_inputs] at hi
        split at hi <;> simpa [levelInputsOf, ruleCode, levelTable] using hi
      have hlevel := (levelInputsOf_declares m p _).named _ (Program.name_mem hlevels)
      exact ⟨_, hlevel.1, fun _ => rfl⟩
  exact htells.false_of_named hf hnone

end Owners

/-- **An input that is named for a field of a node shows it.** -/
theorem Graph.shows_of_tells {g : Graph} {c : Compiled}
    (h : (g.compile project options).result = .ok c) :
    ∀ i ∈ c.program.inputs, ∀ n field,
      i.name.Tells (Roles.ofNodes g.liveNodes) n field → i.Shows n field := by
  refine (Graph.run_of_roles h).invariant (I := fun p => ∀ i ∈ p.inputs, ∀ n field,
    i.name.Tells (Roles.ofNodes g.liveNodes) n field → i.Shows n field) ?_ ?_
  · intro s hs m hm _ i hi n field htells
    rcases mem_append.mp hi with hi | hi
    · exact hm i hi n field htells
    · rcases mem_laterSteps_iff.mp hs with hs | ⟨rule, -, rfl⟩ | rfl
      · exact hs.shows hi htells
      · rw [emitManagement] at hi
        split at hi
        · exact absurd htells (managementCode_tells hi)
        · cases hi
      · exact absurd (Program.name_mem hi) (emitPass_names m ▸ not_mem_nil)
  · intro i hi n field htells
    cases htells.owner_eq ((generalInputs_declares _).named _ (Program.name_mem hi)).1

/-! ## Flags of inputs -/

/-- The input shows a field that was copied from a strategy: it has the value of the field there,
and its flag. A flag that is not kept is set exactly if the strategy has no list. -/
structure Input.Follows (i : Input) (strategy : Node) (c : FieldCopy) : Prop where
  value : ∃ v, strategy.data.payload.encode.find? c.source = some v ∧ Typed i.type i.value v
  flag : i.optimizable =
    if c.keepsFlag then strategy.isOptimizable c.source
    else strategy.data.common.optimizableFields.isNone

theorem Input.Shows.follows {i : Input} {n : Node} (h : i.Shows n c.target)
    (htakes : n.TakesOver c strategy) : i.Follows strategy c := by
  obtain ⟨hvalue, hflag⟩ := htakes.holds
  obtain ⟨v, hv, htyped⟩ := h.value
  refine ⟨⟨v, hvalue ▸ hv, htyped⟩, ?_⟩
  rw [h.optimizable, hflag, Node.isOptimizable, Common.isOptimizable]
  cases strategy.data.common.optimizableFields <;> cases c.keepsFlag <;> rfl

/-- Settings and constants apart, an input shows the field of a live node that it is named for, and
follows the strategies that the field was copied from. Where the name tells the node as well, it is
the copy into that node that the input follows. -/
structure Input.FollowsStrategies (s : Settings) (g : Graph) (i : Input) : Prop where
  source : i.Supplied s [] ∨ ∃ n ∈ g.liveNodes, ∃ field, i.name.field? = some field ∧
    i.Shows n field ∧ ∀ strategy ∈ g.nodes, ∀ c : FieldCopy, c.target = field →
      n.TakesOver c strategy → i.Follows strategy c
  own : ∀ strategy ∈ g.nodes, ∀ (c : FieldCopy) (n : Node), n.TakesOver c strategy →
    i.name.Tells (Roles.ofNodes g.liveNodes) n c.target → i.Follows strategy c

/-- **Optimizer flags survive expansion**, save for those of three fields. -/
theorem inputs_follow_strategies {document : Json}
    {g : Graph} {c : Compiled} (hload : Graph.load document = .ok g)
    (h : (compile document project options).result = .ok c) :
    ∀ i ∈ c.program.inputs, i.FollowsStrategies c.context.settings g := by
  intro i hi
  rw [compile, hload] at h
  refine ⟨?_, fun strategy _ copy n htakes htells => ?_⟩
  · cases (Graph.sourced h i hi).supplied with
    | setting hsetting => exact .inl (.setting hsetting)
    | constant hconstant => exact .inl (.constant hconstant)
    | field hn hname hshows =>
      refine .inr ⟨_, hn, _, hname, hshows, ?_⟩
      rintro strategy - copy rfl htakes
      exact hshows.follows htakes
  · exact (Graph.shows_of_tells h i hi n copy.target htells).follows htakes

/-- A crossover of which the optimizer may vary one average and the distance between both. -/
def separatedDocument : Json :=
  .obj [("nodes", .arr [.node "cross" "ema-crossover-entry" [("minEmaSeparation", .int 5),
      ("optimizableFields", .arr [.str "fastEma", .str "minEmaSeparation"])]])]

def separatedGraph : Graph := separatedDocument.graph

/-- The period of the fast average is copied from the strategy, and its input keeps the flag. -/
theorem inputs_follow_strategies_separated :
    ∃ c, Graph.load separatedDocument = .ok separatedGraph ∧
      (compile separatedDocument "Test" {}).result = .ok c ∧
      ∃ strategy ∈ separatedGraph.nodes, ∃ n i, i ∈ c.program.inputs ∧
        n.TakesOver ⟨"ma-fast", "fastEma", "period"⟩ strategy ∧
        i.name.Tells (Roles.ofNodes separatedGraph.liveNodes) n "period" ∧ i.optimizable = true ∧
        i.Follows strategy ⟨"ma-fast", "fastEma", "period"⟩ := by
  have hload : Graph.load separatedDocument = .ok separatedGraph := rfl
  obtain ⟨c, hc, hinputs⟩ := Compilation.exists_of_map (x := compile separatedDocument "Test" {})
    (f := fun c => (c.program.inputs.filter fun i => i.name.number.isSome).map
      (fun i => (i.name, i.optimizable)))
    (a := [(⟨"InpMA", some 0, "Period"⟩, true), (⟨"InpMA", some 0, "Shift"⟩, false),
      (⟨"InpMA", some 1, "Period"⟩, false), (⟨"InpMA", some 1, "Shift"⟩, false)])
      (by decide +kernel)
  obtain ⟨i, hi, hname⟩ := mem_map.mp (hinputs ▸ mem_cons_self)
  obtain ⟨hname, hoptimizable⟩ := Prod.mk.inj hname
  obtain ⟨strategy, n, hstrategy, hn, htakes⟩ : ∃ strategy n, strategy ∈ separatedGraph.nodes ∧
      (Roles.ofNodes separatedGraph.liveNodes).indicators[0]? = some n ∧
      n.TakesOver ⟨"ma-fast", "fastEma", "period"⟩ strategy :=
    ⟨_, _, mem_cons_self, rfl, mem_cons_self, rfl, mem_cons_self⟩
  have htells : i.name.Tells (Roles.ofNodes separatedGraph.liveNodes) n "period" := by
    rw [hname]
    exact ⟨by decide, .indicator, ⟨by decide, by decide⟩, hn⟩
  have hi := mem_of_mem_filter hi
  exact ⟨c, hload, hc, strategy, hstrategy, n, i, hi, htakes, htells, hoptimizable,
    (inputs_follow_strategies hload hc i hi).own strategy hstrategy _ n htakes htells⟩

/-- The strategy lets the optimizer vary the distance, but its input is fixed. -/
theorem separation_loses_flag :
    (∃ strategy ∈ separatedGraph.nodes, strategy.isOptimizable "minEmaSeparation" = true) ∧
    ∃ c, (compile separatedDocument "Test" {}).result = .ok c ∧
      (c.program.inputs.filter fun i => i.group == some "EMA Crossover").map
          (fun i => (i.name.text, i.value.written, i.optimizable)) =
        [("InpMinEmaSeparation", "5", false)] := by
  refine ⟨by decide +kernel, ?_⟩
  exact Compilation.exists_of_map (x := compile separatedDocument "Test" {})
    (f := fun c => (c.program.inputs.filter fun i => i.group == some "EMA Crossover").map
      (fun i => (i.name.text, i.value.written, i.optimizable)))
    (a := [("InpMinEmaSeparation", "5", false)]) (by decide +kernel)

end TradeGraph

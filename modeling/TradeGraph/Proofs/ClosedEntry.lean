import TradeGraph.Proofs.ClosedExits

/-!
# Closed entries

The entry block joins the conditions of all signals. A filter looks at an indicator of a certain
kind, and a crossover at two averages; orders look at the stop and the target.
-/

namespace TradeGraph

open List Mql Mql.Platform

variable {σ : Scope}
variable {i : Nat} {limit : Ident} {nodes : List (Node × Signal × Indicator)}
  {indicators : List Node} {inputs : List Input} {s : Sizing}

variable {c : Conditions} {ctx : Context} {sizes : List (Side × Sizing)} {priceAction : List Node}
    {orders : Orders} {program : Program} {side : Side}

/-! ## Conditions of signals -/

def Mql.Scope.HasFilter (σ : Scope) (i : Nat) : FilterRole → Prop
  | .trend => σ.HasBuffer (indVar i "Buffer")
  | .confirm =>
    σ.HasBuffer (indVar i "Buffer") ∧ σ.HasInput (indInput "RSI" i "Overbought") ∧
      σ.HasInput (indInput "RSI" i "Oversold")
  | .strength => σ.HasBuffer (indVar i "MainBuffer") ∧ σ.HasInput (indInput "ADX" i "TrendLevel")

/-- The scope has what the conditions of a list of indicators refer to. -/
structure Mql.Scope.HasSignals (σ : Scope) (nodes : List (Node × Signal × Indicator)) : Prop where
  indicators : ∀ i n signal indicator, nodes[i]? = some (n, signal, indicator) →
    σ.HasIndicator i indicator
  filters : ∀ i n signal indicator role, nodes[i]? = some (n, signal, indicator) →
    signal.filterRole = some role → σ.HasFilter i role
  pairs : ∀ i fast slow, pairAt? (nodes.map fun (_, s, _) => s) i = some (fast, slow) →
    σ.HasBuffer (indVar fast "Buffer") ∧ σ.HasBuffer (indVar slow "Buffer")

theorem FilterRole.conditions_closed (h : Library.Compares σ) {signal : Signal}
    {role : FilterRole} (hrole : σ.HasFilter i role) :
    (role.conditions i signal.barShift).Closed σ := by
  have hshift := signal.barShift_lt'
  cases role
  all_goals
    simp only [Scope.HasFilter, Scope.HasBuffer] at hrole
    refine Conditions.one_closed ?_ ?_
    all_goals simp +decide [closed_compares h, hrole, hshift]

theorem exists_freshInput (program : Program) (stem : String) :
    ∃ number, freshInput program stem = ⟨stem, number, ""⟩ := by
  simp only [freshInput]
  split
  · exact ⟨none, rfl⟩
  · cases hfind : List.find? (fun x => !program.hasInput x.text)
        ((List.range (program.inputs.length + 1)).map fun k =>
          ({ stem, number := some (k + 2) } : Ident)) with
    | none => exact ⟨none, rfl⟩
    | some x =>
      obtain ⟨k, -, rfl⟩ := mem_map.mp (mem_of_find?_eq_some hfind)
      exact ⟨some (k + 2), rfl⟩

theorem has_freshInput {stem : String} (hstem : isInputStem stem "" = true) :
    σ.Has (freshInput program stem) ↔ σ.HasInput (freshInput program stem) := by
  obtain ⟨number, hfresh⟩ := exists_freshInput program stem
  rw [hfresh]
  exact σ.has_input hstem

theorem crossing_closed (h : Library.Compares σ) {fast slow : Nat}
    (hfast : σ.HasBuffer (indVar fast "Buffer")) (hslow : σ.HasBuffer (indVar slow "Buffer")) :
    (crossing fast slow).Closed σ := by
  simp only [Scope.HasBuffer] at hfast hslow
  refine Conditions.one_closed ?_ ?_
  all_goals
    simp +decide [crossesUp, crossesDown, closed_compares h, hfast, hslow]

theorem nearAverage_closed (h : Library.Compares σ) {bar : Nat}
    (hbar : bar < copiedBars) (hbuffer : σ.HasBuffer (indVar i "Buffer")) (hlimit : σ.Has limit) :
    (nearAverage i bar limit).Closed σ := by
  refine Conditions.one_closed ?_ ?_
  all_goals
    simp +decide [closed_compares h, hbuffer.1, hbuffer.2 bar hbar, hlimit]

theorem isSeparated_closed {fast slow : Nat}
    (hfast : σ.HasBuffer (indVar fast "Buffer")) (hslow : σ.HasBuffer (indVar slow "Buffer"))
    (hlimit : σ.Has limit) : (isSeparated fast slow limit).Closed σ := by
  simp only [Scope.HasBuffer] at hfast hslow
  simp +decide [isSeparated, hfast, hslow, hlimit]

theorem allClosed_demand {es : List Expr} {extra : Expr} (hes : Expr.AllClosed σ es)
    (hextra : extra.Closed σ) : Expr.AllClosed σ (es.map fun e => .group (.all [e, extra])) := by
  rw [Expr.allClosed_iff] at hes ⊢
  intro d hd
  obtain ⟨e, he, rfl⟩ := mem_map.mp hd
  exact ⟨hes e he, hextra, trivial⟩

theorem isInputStem_separation : isInputStem "InpMinEmaSeparation" "" = true := by
  decide

theorem isInputStem_distance : isInputStem "InpPullbackMaxDist" "" = true := by
  decide

theorem indicatorPart_closed (h : Library.Compares σ)
    (hsignals : σ.HasSignals nodes) {entry : Node × Signal × Indicator}
    (hentry : nodes[i]? = some entry)
    (hinputs : ∀ x ∈ (indicatorPart nodes i entry program).inputs, σ.HasInput x.name) :
    (indicatorPart nodes i entry program).conditions.Closed σ := by
  obtain ⟨n, signal, indicator⟩ := entry
  have hindicator := hsignals.indicators i n signal indicator hentry
  have hclosed : (indicator.conditions i signal).Closed σ :=
    Indicator.conditions_closed h hindicator
  simp only [indicatorPart] at hinputs ⊢
  cases hpair : pairAt? (nodes.map fun (_, s, _) => s) i with
  | some pair =>
    obtain ⟨fast, slow⟩ := pair
    obtain ⟨hfast, hslow⟩ := hsignals.pairs i fast slow hpair
    have hboth := crossing_closed h hfast hslow
    simp only [hpair] at hinputs ⊢
    split
    · rename_i hfirst
      rw [if_pos hfirst] at hinputs
      split
      · rename_i hapart
        rw [if_pos hapart] at hinputs
        simp only [mem_singleton, forall_eq, Node.doubleInput, Node.input] at hinputs
        have hextra :=
          isSeparated_closed hfast hslow ((has_freshInput isInputStem_separation).mpr hinputs)
        exact ⟨allClosed_demand hboth.1 hextra, allClosed_demand hboth.2 hextra⟩
      · exact hboth
    · exact ⟨trivial, trivial⟩
  | none =>
    simp only [hpair] at hinputs ⊢
    split at hinputs
    · rename_i role hrole
      exact FilterRole.conditions_closed h (hsignals.filters i n signal _ role hentry hrole)
    · split at hinputs
      · rename_i hnear
        rw [if_pos hnear]
        simp only [mem_singleton, forall_eq, Node.doubleInput, Node.input] at hinputs
        exact nearAverage_closed h signal.barShift_lt hindicator
          ((has_freshInput isInputStem_distance).mpr hinputs)
      · rename_i hfar
        rw [if_neg hfar]
        exact hclosed
    · exact hclosed

theorem signalParts_closed (h : Library.Compares σ)
    (hsignals : σ.HasSignals nodes) : ∀ {i : Nat} {rest : List (Node × Signal × Indicator)}
      {program : Program}, (∀ k, rest[k]? = nodes[i + k]?) →
      (∀ x ∈ (signalParts nodes i rest program).inputs, σ.HasInput x.name) →
        (signalParts nodes i rest program).conditions.Closed σ
  | _, [], _, _, _ => ⟨trivial, trivial⟩
  | i, entry :: rest, program, hplace, hinputs => by
    rw [signalParts] at hinputs ⊢
    simp only [mem_append, or_imp, forall_and] at hinputs
    refine Conditions.append_closed ?_ ?_
    · exact indicatorPart_closed h hsignals (hplace 0).symm hinputs.1
    · refine signalParts_closed h hsignals (fun k => ?_) hinputs.2
      rw [Nat.add_right_comm]
      exact hplace (k + 1)

theorem priceActionParts_closed {nodes : List Node} (hactions : σ.HasActions nodes) :
    ∀ {i : Nat} {rest : List Node} {c : Conditions}, (∀ k, rest[k]? = nodes[i + k]?) →
      priceActionParts i rest = .ok c → c.Closed σ
  | _, [], _, _, hc => by
    cases hc
    exact ⟨trivial, trivial⟩
  | i, n :: ns, c, hplace, hc => by
    rw [priceActionParts] at hc
    split at hc
    · rename_i timeframe action hpayload
      obtain ⟨rest, hrest, hc⟩ := of_bind_eq_ok hc
      cases hc
      refine Conditions.append_closed ?_ ?_
      · exact PriceAction.conditions_closed (hactions i n (hplace 0).symm timeframe action hpayload)
      · refine priceActionParts_closed hactions (fun k => ?_) hrest
        rw [Nat.add_right_comm]
        exact hplace (k + 1)
    · cases hc

theorem allConditions_closed (h : Library.Compares σ)
    (hsignals : ∀ nodes, indicators.mapM Node.indicator? = some nodes → σ.HasSignals nodes)
    (hactions : σ.HasActions priceAction)
    (hc : allConditions indicators priceAction program = (inputs, .ok c))
    (hinputs : ∀ x ∈ inputs, σ.HasInput x.name) : c.Closed σ := by
  rw [allConditions] at hc
  split at hc
  · cases hc
  · rename_i nodes hnodes
    simp only at hc
    split at hc
    · cases hc
    · rename_i actions hparts
      cases hc
      exact Conditions.append_closed
        (signalParts_closed h (hsignals nodes hnodes) (fun k => by rw [Nat.zero_add]) hinputs)
        (priceActionParts_closed hactions (fun k => by rw [Nat.zero_add]) hparts)

/-! ## Before the orders -/

theorem Mql.Scope.Trades.has_conditionVar (h : σ.Trades side) : σ.Has (conditionVar side) := by
  cases side <;> exact (σ.has_reserved (by decide)).mpr (h _ (by decide))

theorem conditionStmts_closed {mode : ConditionMode} (hc : c.Closed σ)
    (htrades : ∀ side n, orders.of side = some n → σ.Trades side) :
    Stmt.AllClosed σ (conditionStmts mode orders c) ∧
      (conditionStmts mode orders c).all Stmt.isTyped = true := by
  have hvar (side : Side) (h : (orders.of side).isSome = true) : σ.Has (conditionVar side) :=
    let ⟨n, hn⟩ := Option.isSome_iff_exists.mp h
    (htrades side n hn).has_conditionVar
  have hbuy : orders.buy.isSome = true → σ.Has (conditionVar .buy) := hvar .buy
  have hsell : orders.sell.isSome = true → σ.Has (conditionVar .sell) := hvar .sell
  simp only [conditionStmts]
  split_ifs
  all_goals simp +decide [missingSignal, closed_joined hc.1, closed_joined hc.2]
  all_goals first | exact ⟨hbuy ‹_›, hsell ‹_›⟩ | exact hbuy ‹_› | exact hsell ‹_›

theorem dailyCounter_closed : dailyCounter.ClosedIn σ := by
  simp +decide [Program.closedIn_iff, dailyCounter, dayStart]

theorem dailyLimits_closed {s : Settings} (h : σ.Covers (dailyLimits s)) :
    (dailyLimits s).ClosedIn σ := by
  have hinputs := h.inputs
  simp only [dailyLimits, mem_append, or_imp, forall_and] at hinputs
  obtain ⟨hgains, hlosses⟩ := hinputs
  by_cases hgain : 0.0 < s.maxDailyProfitPercent <;> by_cases hloss : 0.0 < s.maxDailyLossPercent
  all_goals
    simp only [hgain, hloss, if_true, if_false, forall_mem_singleton] at hgains hlosses
    simp +decide [Program.closedIn_iff, dailyLimits, dayStart, hgain, hloss, hgains, hlosses]

theorem entryOpening_closed (hc : c.Closed σ)
    (htrades : ∀ side n, orders.of side = some n → σ.Trades side)
    (h : σ.Covers (entryOpening ctx orders c)) :
    (entryOpening ctx orders c).ClosedIn σ := by
  obtain ⟨-, hlimits⟩ := Scope.covers_append.mp h
  obtain ⟨hclosed, htyped⟩ : Stmt.AllClosed σ (conditionStmts ctx.settings.conditionMode orders c) ∧
      (conditionStmts ctx.settings.conditionMode orders c).all Stmt.isTyped = true :=
    conditionStmts_closed hc htrades
  refine Program.ClosedIn.append (Program.ClosedIn.append ?_ ?_) ?_
  · have htick : InTurn σ ([.blank, .heading "Entry Logic"] ++
        conditionStmts ctx.settings.conditionMode orders c ++
        [.blank, .heading "One entry per bar",
          .declare "bool" "newBar" (.group ((Expr.var "currentBarTime").ne "lastEntryBar"))]) :=
      Stmt.inTurn_of_allClosed (by simp +decide [hclosed])
        (by rw [all_append, all_append, htyped]; rfl)
    refine Program.closedIn_iff.mpr ⟨by simp +decide, trivial, trivial, htick, by simp, trivial,
      trivial, trivial⟩
  · split
    · exact dailyCounter_closed
    · exact Program.closedIn_empty
  · split at hlimits
    · rename_i hlimited
      rw [if_pos hlimited]
      exact dailyLimits_closed hlimits
    · rename_i hlimited
      rw [if_neg hlimited]
      exact Program.closedIn_empty

/-! ## Orders -/

/-- What the orders of both sides refer to. -/
structure Mql.Scope.HasOrders (σ : Scope) (options : Options) (sizes : List (Side × Sizing)) :
    Prop where
  trades : ∀ side s, (side, s) ∈ sizes → σ.Trades side
  measures : σ.Measures
  offsets : ∀ side s, (side, s) ∈ sizes → s.isPending = true →
    σ.HasInput (sideInput side "PendingOffset")
  functions : ∀ side s, (side, s) ∈ sizes → σ.HasFunction (orderFunction side s options).name
  count : σ.HasFunction "CountPositionsByType"

theorem isOwnKey_orderFunction (side : Side) (s : Sizing) (options : Options) :
    isOwnKey (orderFunction side s options).name.stem = true := by
  rw [orderFunction]
  split
  · cases side <;> cases s.orderType == .stop <;> decide
  · have hname : (Library.openOrder side.label options).name =
        (Library.openOrder side.label {}).name := rfl
    rw [hname]
    cases side <;> decide

theorem orderFunction_closed (hgeneral : Library.General σ) (htrades : σ.Trades side)
    {options : Options}
    (hname : σ.HasFunction (orderFunction side s options).name)
    (hexpiry : s.isPending = true → σ.HasFunction "GetPendingExpiry") :
    (orderFunction side s options).Closed σ.loose := by
  rw [orderFunction] at hname ⊢
  split at hname
  · rename_i hpending
    rw [if_pos hpending]
    exact Library.pendingOrder_closed hgeneral htrades _ hname (hexpiry hpending)
  · rename_i hpending
    rw [if_neg hpending]
    exact Library.openOrder_closed hgeneral htrades options hname

theorem Mql.Scope.Trades.has_orderFunction (h : σ.Trades side) (s : Sizing) (options : Options) :
    σ.Has (orderFunction side s options).name := by
  rw [orderFunction]
  split
  · cases side <;> cases s.orderType == .stop <;>
      exact (σ.has_reserved (by decide)).mpr (h _ (by decide))
  · cases side <;> exact (σ.has_reserved (by decide)).mpr (h _ (by decide))

@[simp] theorem closed_positionType (side : Side) : (positionType side).Closed σ := by
  cases side <;> exact σ.has_plain (by decide)

/-- The reward of a target by its ratio to the stop is there. -/
abbrev Mql.Scope.HasReward (σ : Scope) (program : Program) : Prop :=
  program.targetMethod = some .riskReward → σ.HasInput "InpRiskReward"

theorem closed_targetExpr (hmeasures : σ.Measures) (hreward : σ.HasReward program) :
    (targetExpr side program).Closed σ := by
  rw [targetExpr]
  split
  · rename_i htarget
    simp +decide [hreward htarget.2.2]
  · exact (σ.has_reserved (by decide)).mpr hmeasures.target

theorem sideGate_closed (htrades : σ.Trades side) (hcount : σ.HasFunction "CountPositionsByType")
    (settings : Settings) : (sideGate settings side).Closed σ := by
  rw [sideGate]
  split <;> simp +decide [positionsOf, hcount, htrades.has_conditionVar]

theorem afterOrder_closed (settings : Settings) : Stmt.AllClosed σ (afterOrder settings) := by
  rw [afterOrder]
  split <;> simp +decide

theorem placeOrder_args_closed (htrades : σ.Trades side) (hmeasures : σ.Measures)
    (hreward : σ.HasReward program)
    (hoffset : s.isPending = true → σ.HasInput (sideInput side "PendingOffset")) :
    Expr.AllClosed σ ([.var (lotVar side), stopVar side program.sidedStop,
      targetExpr side program] ++
      (if s.isPending then [.var (sideInput side "PendingOffset")] else [])) := by
  have hlast : Expr.AllClosed σ
      (if s.isPending then [Expr.var (sideInput side "PendingOffset")] else []) := by
    split
    · simp +decide [hoffset ‹_›]
    · trivial
  simp [closed_targetExpr hmeasures hreward, hlast, htrades.has_lotVar, closed_stopVar hmeasures]

theorem sideBlock_closed (horders : σ.HasOrders ctx.options sizes)
    (hreward : σ.HasReward program) (hs : (side, s) ∈ sizes) :
    (sideBlock ctx program side s).Closed σ := by
  have htrades := horders.trades side s hs
  have hplace : (placeOrder side s ctx.options (stopVar side program.sidedStop)
      (targetExpr side program)).Closed σ :=
    ⟨⟨htrades.has_orderFunction s ctx.options, .inr (horders.functions side s hs)⟩,
      placeOrder_args_closed htrades horders.measures hreward (horders.offsets side s hs)⟩
  exact ⟨sideGate_closed htrades horders.count _, ⟨hplace, afterOrder_closed _⟩, trivial⟩

theorem entryGates_closed (hgates : Expr.AllClosed σ program.gates) :
    Expr.AllClosed σ (entryGates ctx program) := by
  simp only [entryGates]
  split_ifs <;> simp +decide [hgates]

theorem hasFunction_of_pendingNeeds (h : σ.Covers (pendingNeeds program)) :
    σ.HasFunction "GetPendingExpiry" ∧ σ.HasFunction "DeletePendingOrders" :=
  ⟨h.hasFunction (f := Library.pendingExpiry) (by simp [pendingNeeds]) (by decide),
    h.hasFunction (f := Library.deletePending) (by simp [pendingNeeds]) (by decide)⟩

/-- What the orders need is there once their code is covered: the expiry is new, or there before. -/
theorem pendingNeeds_closed (hgeneral : Library.General σ) (hprogram : σ.Covers program)
    (h : σ.Covers (pendingNeeds program)) : (pendingNeeds program).ClosedIn σ := by
  obtain ⟨hexpiry, hdelete⟩ := hasFunction_of_pendingNeeds h
  have hhours : σ.HasInput "InpPendingExpiryHours" := by
    by_cases hthere : program.hasInput "InpPendingExpiryHours" = true
    · obtain ⟨x, hx, hname⟩ := any_eq_true.mp hthere
      have := hprogram.inputs x hx
      rwa [Scope.HasInput, beq_iff_eq.mp hname] at this
    · have hinputs := h.inputs
      simp only [pendingNeeds, if_neg hthere, forall_mem_singleton] at hinputs
      exact hinputs
  simp +decide [Program.closedIn_iff, pendingNeeds, Library.pendingExpiry_closed hexpiry hhours,
    Library.deletePending_closed hgeneral hdelete]

theorem executeBlock_closed (hgates : Expr.AllClosed σ program.gates)
    (horders : σ.HasOrders ctx.options sizes) (hreward : σ.HasReward program)
    (hdelete : (sizes.any fun (_, s) => s.isPending) = true → σ.HasFunction "DeletePendingOrders") :
    (executeBlock ctx program sizes).Closed σ := by
  refine ⟨entryGates_closed hgates, Stmt.allClosed_append.mpr ⟨?_, ?_⟩⟩
  · split
    · simp +decide [hdelete ‹_›]
    · trivial
  · rw [Stmt.allClosed_iff]
    intro t ht
    obtain ⟨⟨side, s⟩, hs, rfl⟩ := mem_map.mp ht
    exact sideBlock_closed horders hreward hs

theorem entryOrders_closed (hgeneral : Library.General σ)
    (hprogram : σ.Covers program) (hinputs : σ.Covers { inputs })
    (hgates : Expr.AllClosed σ program.gates) (hreward : σ.HasReward program)
    (htrades : ∀ side s, (side, s) ∈ sizes → σ.Trades side) (hmeasures : σ.Measures)
    (hoffsets : ∀ side s, (side, s) ∈ sizes → s.isPending = true →
      σ.HasInput (sideInput side "PendingOffset"))
    (h : σ.Covers (entryOrders ctx program inputs sizes priceAction).code) :
    (entryOrders ctx program inputs sizes priceAction).code.ClosedIn σ := by
  obtain ⟨h, -⟩ := Scope.covers_append.mp h
  obtain ⟨hsupport, hblock⟩ := Scope.covers_append.mp h
  have hneeds : (sizes.filter fun (_, s) => s.isPending).isEmpty = false →
      σ.Covers (pendingNeeds (program ++ { inputs })) := by
    intro hpending
    simpa [hpending] using hsupport
  have hsome : ∀ side s, (side, s) ∈ sizes → s.isPending = true →
      (sizes.filter fun (_, s) => s.isPending).isEmpty = false := by
    intro side s hs hpending
    rw [isEmpty_eq_false_iff_exists_mem]
    exact ⟨(side, s), mem_filter.mpr ⟨hs, hpending⟩⟩
  have hfunctions : ∀ side s, (side, s) ∈ sizes →
      σ.HasFunction (orderFunction side s ctx.options).name := fun side s hs =>
    hblock.hasFunction (mem_cons_of_mem _ (mem_map.mpr ⟨(side, s), hs, rfl⟩))
      (isOwnKey_orderFunction side s ctx.options)
  have hcount : σ.HasFunction "CountPositionsByType" :=
    hblock.hasFunction (f := Library.countByType) mem_cons_self (by decide)
  refine Program.ClosedIn.append (Program.ClosedIn.append ?_ ?_) ?_
  · split
    · exact Program.closedIn_empty
    · rename_i hpending
      exact pendingNeeds_closed hgeneral (Scope.covers_append.mpr ⟨hprogram, hinputs⟩)
        (hneeds (Bool.eq_false_iff.mpr hpending))
  · have hexecute : (executeBlock ctx program sizes).Closed σ := by
      refine executeBlock_closed hgates ⟨htrades, hmeasures, hoffsets, hfunctions,
        hcount⟩ hreward fun hany => ?_
      obtain ⟨⟨side, s⟩, hs, hpending⟩ := any_eq_true.mp hany
      exact (hasFunction_of_pendingNeeds (hneeds (hsome side s hs hpending))).2
    have hhelpers : ∀ f ∈ Helper.ofFunction Library.countByType ::
        sizes.map fun (side, s) => .ofFunction (orderFunction side s ctx.options),
          f.Sound σ.loose := by
      rw [forall_mem_cons]
      refine ⟨(Helper.sound_ofFunction (by decide)).mpr
        (Library.countByType_closed hgeneral hcount), fun f hf => ?_⟩
      obtain ⟨⟨side, s⟩, hs, rfl⟩ := mem_map.mp hf
      refine (Helper.sound_ofFunction (isOwnKey_orderFunction side s ctx.options)).mpr
        (orderFunction_closed hgeneral (htrades side s hs)
        (hfunctions side s hs) fun hpending => ?_)
      exact (hasFunction_of_pendingNeeds (hneeds (hsome side s hs hpending))).1
    have htick : InTurn σ [.blank, .heading "Execute Entry", executeBlock ctx program sizes] :=
      Stmt.inTurn_of_allClosed (by simp +decide [hexecute]) rfl
    exact Program.closedIn_iff.mpr ⟨by simp, trivial, trivial, htick, hhelpers, trivial, trivial,
      trivial⟩
  · split
    · rename_i hcancel
      rw [Bool.and_eq_true, Bool.not_eq_true'] at hcancel
      simp +decide [Program.closedIn_iff, (hasFunction_of_pendingNeeds (hneeds hcancel.1)).2]
    · exact Program.closedIn_empty

theorem sizing_of_mem_orderSizes (h : orderSizes orders = .ok sizes)
    (hs : (side, s) ∈ sizes) : ∃ n, orders.of side = some n ∧ n.sizing? = some s := by
  simp only [orderSizes] at h
  obtain ⟨buys, sells, hsize, hsells, rfl⟩ := of_bind₂_eq_ok h
  rcases mem_append.mp hs with hs | hs
  case' inr => replace hsize := hsells
  all_goals
    split at hsize
    · cases hsize
      cases hs
    · rename_i n hn
      split at hsize
      · rename_i t ht
        cases hsize
        cases mem_singleton.mp hs
        exact ⟨n, hn, ht⟩
      · cases hsize

theorem emitEntry_closed (hgeneral : Library.General σ) (hcompares : Library.Compares σ)

    (hsignals : ∀ nodes, indicators.mapM Node.indicator? = some nodes → σ.HasSignals nodes)
    (hactions : σ.HasActions priceAction) (hprogram : σ.Covers program)
    (hgates : Expr.AllClosed σ program.gates) (hreward : σ.HasReward program)
    (htrades : ∀ side n, orders.of side = some n → σ.Trades side)
    (hmeasures : ∀ side n, orders.of side = some n → σ.Measures)
    (hoffsets : ∀ side n s, orders.of side = some n → n.sizing? = some s → s.isPending = true →
      σ.HasInput (sideInput side "PendingOffset"))
    (h : σ.Covers (emitEntry indicators priceAction orders ctx program).code) :
    (emitEntry indicators priceAction orders ctx program).code.ClosedIn σ := by
  rw [emitEntry] at h ⊢
  split at h
  · rename_i hnone
    rw [if_pos hnone]
    exact Program.closedIn_empty
  · rename_i hsome
    rw [if_neg hsome]
    split at h
    · exact closedIn_inputs _ _
    · rename_i inputs c hc
      simp only at h ⊢
      have hopening : σ.Covers ({ inputs } ++ entryOpening ctx orders c) := by
        split at h
        · exact h
        · exact (Scope.covers_append.mp h).1
      obtain ⟨hinputs, hopen⟩ := Scope.covers_append.mp hopening
      have hclosed : c.Closed σ :=
        allConditions_closed hcompares hsignals hactions hc hinputs.inputs
      have hopened : ({ inputs } ++ entryOpening ctx orders c).ClosedIn σ :=
        (closedIn_inputs _ _).append (entryOpening_closed hclosed htrades hopen)
      split at h
      · exact hopened
      · rename_i sizes hsizes
        have hthere : σ.Measures := by
          rw [Bool.and_eq_true, not_and_or, Option.isNone_iff_eq_none, Option.isNone_iff_eq_none]
            at hsome
          rcases hsome with hbuy | hsell
          · obtain ⟨n, hn⟩ := Option.ne_none_iff_exists'.mp hbuy
            exact hmeasures .buy n hn
          · obtain ⟨n, hn⟩ := Option.ne_none_iff_exists'.mp hsell
            exact hmeasures .sell n hn
        refine hopened.append (entryOrders_closed hgeneral hprogram hinputs hgates hreward
          (fun side s hs => ?_) hthere (fun side s hs hpending => ?_) (Scope.covers_append.mp h).2)
        · obtain ⟨n, hn, -⟩ := sizing_of_mem_orderSizes hsizes hs
          exact htrades side n hn
        · obtain ⟨n, hn, hsizing⟩ := sizing_of_mem_orderSizes hsizes hs
          exact hoffsets side n s hn hsizing hpending

end TradeGraph

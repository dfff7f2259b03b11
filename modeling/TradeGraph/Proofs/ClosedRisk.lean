import TradeGraph.Proofs.ClosedPriceAction

/-!
# Closed stops, targets and sizes

A stop may be measured by an indicator or by a range, whose variables are declared elsewhere; the
size of an order may look at the stop. What these parts refer to beyond their own inputs is stated
as a hypothesis each.
-/

namespace TradeGraph

open List Mql Mql.Platform
open Program (closedIn_iff)

variable {σ : Scope}
variable {q : Payload} {signal : Signal} {indicator : Indicator} {i : Nat} {nodes : List Node}
  {hit : Numbered}

variable {n : Node} {program : Program} {side : Side}

/-! ## Signals by number -/

def Mql.Scope.HasIndicators (σ : Scope) (nodes : List Node) : Prop :=
  ∀ i n, nodes[i]? = some n → ∀ signal indicator, n.data.payload = .indicator signal indicator →
    σ.HasIndicator i indicator

def Mql.Scope.HasActions (σ : Scope) (nodes : List Node) : Prop :=
  ∀ i n, nodes[i]? = some n → ∀ timeframe action, n.data.payload = .priceAction timeframe action →
    σ.HasAction i action

theorem Payload.eq_indicator (h : q.kind.category = .indicator) :
    ∃ signal indicator, q = .indicator signal indicator := by
  unfold Payload.kind at h
  split at h <;> first | exact ⟨_, _, rfl⟩ | cases h

theorem Payload.eq_rangeBreakout (h : q.kind = .rangeBreakout) :
    ∃ timeframe p, q = .priceAction timeframe (.rangeBreakout p) := by
  unfold Payload.kind at h
  split at h <;> first | exact ⟨_, _, rfl⟩ | cases h

theorem Node.indicator?_eq_some {m : Node} (h : n.indicator? = some (m, signal, indicator)) :
    m = n ∧ n.data.payload = .indicator signal indicator := by
  unfold Node.indicator? at h
  split at h
  · cases h
    exact ⟨rfl, ‹_›⟩
  · cases h

theorem hasIndicator_of_kind {s t : Signal} {a b : Indicator}
    (hkind : (Payload.indicator s a).kind = (Payload.indicator t b).kind)
    (h : σ.HasIndicator i a) : σ.HasIndicator i b := by
  cases a <;> cases b <;> first | exact h | cases hkind

theorem hasIndicator_of_numbered (h : σ.HasIndicators nodes) {place : Nat}
    (hhit : numbered? nodes place = some hit)
    (hpayload : hit.node.data.payload = .indicator signal indicator) :
    σ.HasIndicator hit.index indicator := by
  obtain ⟨n, hn, rfl⟩ := Option.map_eq_some_iff.mp hhit
  cases hfind : (nodes.take place).findIdx? fun m => m.same n with
  | none =>
    simp only [Option.getD_none]
    exact h place n hn signal indicator hpayload
  | some j =>
    simp only [Option.getD_some]
    obtain ⟨hj, hsame, -⟩ := findIdx?_eq_some_iff_getElem.mp hfind
    have hm : nodes[j]? = some (nodes.take place)[j] := by
      rw [← getElem?_eq_getElem hj, getElem?_take_of_lt (by simp at hj; omega)]
    have hkind : (nodes.take place)[j].kind = n.kind := by
      simp only [Node.same, Bool.and_eq_true, beq_iff_eq] at hsame
      exact hsame.1.1.1.2
    have hkinds : (nodes.take place)[j].data.payload.kind =
        (Payload.indicator signal indicator).kind :=
      hkind.trans (congrArg Payload.kind hpayload)
    obtain ⟨s, a, ha⟩ : ∃ s a, (nodes.take place)[j].data.payload = .indicator s a :=
      Payload.eq_indicator (by rw [hkinds]; cases indicator <;> rfl)
    rw [ha] at hkinds
    exact hasIndicator_of_kind hkinds (h j _ hm s a ha)

theorem hasRange_of_findIdx (h : σ.HasActions nodes)
    (hfind : nodes.findIdx? Node.isRangeBreakout = some i) :
    σ.HasVar (paVar i "High") ∧ σ.HasVar (paVar i "Low") := by
  obtain ⟨hi, hrange, -⟩ := findIdx?_eq_some_iff_getElem.mp hfind
  have hn : nodes[i]? = some nodes[i] := getElem?_eq_getElem hi
  have hkind : nodes[i].data.payload.kind = .rangeBreakout := beq_iff_eq.mp hrange
  obtain ⟨t, p, hpayload⟩ : ∃ t p, nodes[i].data.payload = .priceAction t (.rangeBreakout p) :=
    Payload.eq_rangeBreakout hkind
  have hvars := h i _ hn t _ hpayload
  exact ⟨hvars "High" (by simp [flagTails]), hvars "Low" (by simp [flagTails])⟩

/-! ## Stop loss -/

theorem oneLine_name (k : Kind) : OneLine k.name := by
  cases k <;> decide

theorem fixedStop_closed (hmeasures : σ.Measures) {pips : Float} {remark : String}
    (hremark : OneLine remark) (h : σ.Covers (fixedStop n pips remark)) :
    (fixedStop n pips remark).ClosedIn σ := by
  simp only [Scope.covers_iff, fixedStop, forall_mem_singleton, Node.name_doubleInput] at h
  simp +decide [closedIn_iff, fixedStop, h, hremark, hmeasures.stop]

theorem percentStop_closed (hmeasures : σ.Measures) {percent : Float}
    (h : σ.Covers (percentStop n percent)) :
    (percentStop n percent).ClosedIn σ := by
  simp only [Scope.covers_iff, percentStop, forall_mem_singleton, Node.name_doubleInput] at h
  simp +decide [closedIn_iff, percentStop, h, hmeasures.stop]

theorem atrStop_closed (hmeasures : σ.Measures) {p : StopLoss}
    (hread : σ.MayRead stopAtr.buffer.text 0)
    (h : σ.Covers (atrStop n p)) : (atrStop n p).ClosedIn σ := by
  obtain ⟨hown, -⟩ := Scope.covers_append.mp h
  have hinputs := hown.inputs
  simp only [forall_mem_cons, Node.name_input, Node.name_intInput, Node.name_doubleInput]
    at hinputs
  have hhandle : σ.Has stopAtr.handle := by simp +decide [stopAtr]
  have hbuffer : σ.Has stopAtr.buffer := by simp +decide [stopAtr]
  refine Program.ClosedIn.append ?_
    (AtrNames.setup_closed hhandle hbuffer (by simp +decide [hinputs]) (by simp +decide [hinputs]))
  simp only [stopAtr] at hread
  simp +decide [closedIn_iff, AtrNames.refresh, AtrNames.points, copyBuffer, stopAtr,
    hinputs, hread, hmeasures.stop]

theorem rangeStop_closed (hmeasures : σ.Measures) (hhigh : σ.HasVar (paVar i "High"))
    (hlow : σ.HasVar (paVar i "Low")) : (rangeStop i).ClosedIn σ := by
  simp +decide [closedIn_iff, rangeStop, atLeastTenPips, hhigh, hlow, hmeasures.stop]

theorem indicatorStop_closed (hmeasures : σ.Measures) {fixedPips : Float}
    (hindicator : ∀ signal indicator, hit.node.data.payload = .indicator signal indicator →
      σ.HasIndicator hit.index indicator) (h : σ.Covers (indicatorStop n fixedPips hit)) :
    (indicatorStop n fixedPips hit).ClosedIn σ := by
  have hname : OneLine (hit.node.kind.name ++ " not suitable for SL calculation") :=
    oneLine_append.mpr ⟨oneLine_name _, by decide⟩
  unfold indicatorStop at h ⊢
  simp only at h ⊢
  split at h
  case h_5 => exact fixedStop_closed hmeasures hname h
  all_goals
    rename_i hpayload
    have hbuffers := hindicator _ _ hpayload
    simp only [Scope.HasIndicator, Scope.HasBuffer] at hbuffers
    simp only [Option.getD_some, Scope.covers_iff, stopInput, forall_mem_singleton] at h
    simp +decide [closedIn_iff, atLeastTenPips, hbuffers, h, hmeasures.stop]

/-- The code of a stop is closed if the scope has what the signals declare. -/
theorem emitStopLoss_closed (hmeasures : σ.Measures) {indicators priceAction : List Node}
    {edges : List Edge}
    {known : List String} {ctx : Context} (hindicators : σ.HasIndicators indicators)
    (hactions : σ.HasActions priceAction)
    (hread : ∀ p, n.data.payload = .trading (.stopLoss p) → p.method = .atrBased →
      σ.MayRead stopAtr.buffer.text 0)
    (h : σ.Covers (emitStopLoss n indicators priceAction edges known ctx).code) :
    (emitStopLoss n indicators priceAction edges known ctx).code.ClosedIn σ := by
  have hempty : ({} : Program).ClosedIn σ := by simp [closedIn_iff]
  rw [emitStopLoss] at h ⊢
  split at h
  case h_2 => exact hempty
  case h_1 p hp =>
    obtain ⟨-, h⟩ := Scope.covers_append.mp h
    refine Program.ClosedIn.append (by simp [closedIn_iff]) ?_
    cases hmethod : p.method <;> simp only [hmethod] at h ⊢
    case fixedPips => exact fixedStop_closed hmeasures (by decide) h
    case percent => exact percentStop_closed hmeasures h
    case atrBased => exact atrStop_closed hmeasures (hread p hp hmethod) h
    case rangeOpposite =>
      split at h
      · obtain ⟨hhigh, hlow⟩ := hasRange_of_findIdx hactions ‹_›
        exact rangeStop_closed hmeasures hhigh hlow
      · exact hempty
    case indicator =>
      rw [emitIndicatorStop] at h ⊢
      split at h
      · exact hempty
      · split at h
        · rename_i hit hhit
          obtain ⟨place, -, hplace⟩ := Option.bind_eq_some_iff.mp hhit
          exact indicatorStop_closed hmeasures
            (fun _ _ hpayload => hasIndicator_of_numbered hindicators hplace hpayload) h
        · split
          · exact hempty
          · simp +decide [closedIn_iff, hmeasures.stop]

/-! ## Take profit -/

theorem noDistance_closed {x : Ident} {what : String} (hx : σ.Has x) (hwhat : OneLine what) :
    (noDistance x what).ClosedIn σ := by
  simp +decide [closedIn_iff, noDistance, hx, hwhat]

theorem atrTarget_closed (hmeasures : σ.Measures) {p : TakeProfit} {shared : Bool}
    (hread : σ.MayRead (if shared then stopAtr else targetAtr).buffer.text 0)
    (h : σ.Covers (atrTarget n p shared)) : (atrTarget n p shared).ClosedIn σ := by
  cases shared with
  | true =>
    simp only [Scope.covers_iff, atrTarget, if_true, forall_mem_singleton,
      Node.name_doubleInput] at h
    have hbuffer : σ.Has stopAtr.buffer := by simp +decide [stopAtr]
    simp +decide [closedIn_iff, atrTarget, AtrNames.closed_points hbuffer hread, h,
      hmeasures.target]
  | false =>
    have hinputs := (Scope.covers_append.mp h).1.inputs
    simp only [forall_mem_cons, Node.name_intInput, Node.name_doubleInput] at hinputs
    have hhandle : σ.Has targetAtr.handle := by simp +decide [targetAtr]
    have hbuffer : σ.Has targetAtr.buffer := by simp +decide [targetAtr]
    refine Program.ClosedIn.append ?_
      (AtrNames.setup_closed hhandle hbuffer (by simp) (by simp +decide [hinputs]))
    simp only [Bool.false_eq_true, if_false, targetAtr] at hread
    simp +decide [closedIn_iff, AtrNames.refresh, AtrNames.points, copyBuffer, targetAtr,
      hinputs, hread, hmeasures.target]

theorem emitTakeProfit_closed (hmeasures : σ.Measures)
    (hread : ∀ p, n.data.payload = .trading (.takeProfit p) → p.method = .atrBased →
      σ.MayRead (if program.mentions "int atrHandle" then stopAtr else targetAtr).buffer.text 0)
    (h : σ.Covers (emitTakeProfit n program).code) :
    (emitTakeProfit n program).code.ClosedIn σ := by
  rw [emitTakeProfit] at h ⊢
  split at h
  case h_2 => simp [closedIn_iff, Emission.fail]
  case h_1 p hp =>
    obtain ⟨-, h⟩ := Scope.covers_append.mp h
    refine Program.ClosedIn.append (by simp [closedIn_iff]) ?_
    cases hmethod : p.method <;> simp only [hmethod] at h ⊢
    case atrBased => exact atrTarget_closed hmeasures (hread p hp hmethod) h
    all_goals
      simp only [Scope.covers_iff, forall_mem_singleton, Node.name_doubleInput] at h
      simp +decide [closedIn_iff, h, hmeasures.stop, hmeasures.target]

/-! ## Size -/

theorem Mql.Scope.Trades.has_lotVar (h : σ.Trades side) : σ.Has (lotVar side) := by
  cases side <;> exact (σ.has_reserved (by decide)).mpr (h _ (by decide))

theorem closed_stopVar (hmeasures : σ.Measures) {sided : Bool} : (stopVar side sided).Closed σ := by
  rw [stopVar]
  split <;> simp +decide [hmeasures.stop]

/-- The inputs of an order that its code refers to. -/
structure Mql.Scope.HasOrder (σ : Scope) (side : Side) (s : Sizing) : Prop where
  offset : s.isPending = true → σ.HasInput (sideInput side "PendingOffset")
  lot : s.method = .fixedLot → σ.HasInput (sideInput side "LotSize")
  risk : s.method = .riskPercent → σ.HasInput (sideInput side "RiskPercent")
  smallest : σ.HasInput (sideInput side "MinLot")
  largest : σ.HasInput (sideInput side "MaxLot")
  size : s.method = .riskPercent → σ.HasFunction "CalculateLotSize"
  normalize : σ.HasFunction "NormalizeLot"

theorem hasOrder_of_covers {s : Sizing} (h : σ.Covers (sizingCode n side s program)) :
    σ.HasOrder side s := by
  obtain ⟨hstart, hlimits⟩ := Scope.covers_append.mp h
  have hbounds := hlimits.inputs
  simp only [forall_mem_cons, Node.name_doubleInput] at hbounds
  have hnormalize := hlimits.hasFunction mem_cons_self (by decide)
  have hstarts := hstart.inputs
  cases hmethod : s.method <;> cases hpending : s.isPending <;>
    simp only [hmethod, hpending, if_true, Bool.false_eq_true, if_false, nil_append,
      cons_append, forall_mem_cons, Node.name_doubleInput] at hstarts
  all_goals
    refine ⟨by simp_all, by simp_all, by simp_all, hbounds.1, hbounds.2.1, fun hrisk => ?_,
      hnormalize⟩
    first
      | exact absurd (hmethod.symm.trans hrisk) (by decide)
      | (simp only [hmethod] at hstart
         exact hstart.hasFunction (f := Library.lotSize) mem_cons_self (by decide))

theorem pendingRisk_closed (htrades : σ.Trades side) {isStop : Bool}
    (hoffset : σ.HasInput (sideInput side "PendingOffset"))
    (hpercent : σ.HasInput "InpSLPercent") (hrisk : σ.HasInput (sideInput side "RiskPercent"))
    (hsize : σ.HasFunction "CalculateLotSize") : (pendingRisk side isStop).Closed σ := by
  simp +decide [pendingRisk, riskLot, hoffset, hpercent, hrisk, hsize, htrades.has_lotVar]

/-- The size of a pending order may look at a stop in percent, which must be there. -/
theorem sizingCode_closed (htrades : σ.Trades side) (hmeasures : σ.Measures) {s : Sizing}
    (hpercent : program.stopMethod = some .percent → σ.HasInput "InpSLPercent")
    (h : σ.Covers (sizingCode n side s program)) : (sizingCode n side s program).ClosedIn σ := by
  have horder := hasOrder_of_covers h
  have hlater : (σ.declare (lotVar side)).Trades side := htrades
  refine Program.ClosedIn.append ?_ ?_
  · cases hmethod : s.method with
    | fixedLot => simp +decide [closedIn_iff, horder.lot hmethod, hlater.has_lotVar]
    | riskPercent =>
      have hlot : Library.lotSize.Closed σ.loose :=
        Library.lotSize_closed (horder.size hmethod) horder.normalize
      have hpending : InTurn (σ.declare (lotVar side))
          (if s.isPending = true ∧ program.stopMethod = some .percent then
            [pendingRisk side (s.orderType == .stop)] else []) := by
        split
        · rename_i hstop
          refine Stmt.inTurn_of_closed fun t ht => ?_
          rw [mem_singleton.mp ht]
          exact ⟨rfl, pendingRisk_closed hlater (horder.offset hstop.1) (hpercent hstop.2)
            (horder.risk hmethod) (horder.size hmethod)⟩
        · trivial
      simp +decide [closedIn_iff, riskLot, horder.risk hmethod, hlot, horder.size hmethod,
        hpending, hlater.has_lotVar, closed_stopVar hmeasures]
  · have hlot : Library.normalizeLot.Closed σ.loose := Library.normalizeLot_closed horder.normalize
    simp +decide [closedIn_iff, hlot, horder.smallest, horder.largest, horder.normalize,
      htrades.has_lotVar]

end TradeGraph

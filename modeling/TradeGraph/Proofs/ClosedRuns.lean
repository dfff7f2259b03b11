import TradeGraph.Proofs.ClosedRules
import TradeGraph.Proofs.EntryDeclarations
import TradeGraph.Proofs.Outline

/-!
# Closed runs

A part of a program may look at what the parts before it have set: the method of the stop, the
method of the target, the table of levels. Whoever sets one of them also declares what a later part
then refers to. So every step of a compile keeps the program closed, in any scope that has what the
whole program declares.
-/

namespace TradeGraph

open Mql

variable {σ : Scope}

variable {n : Node} {p program : Program}

/-! ## Consistent programs -/

/-- A closed program. If it sets a method or has the table of levels, the scope has what later parts
then refer to. -/
structure Program.Consistent (σ : Scope) (p : Program) : Prop where
  closed : p.ClosedIn σ
  percent : p.stopMethod = some .percent → σ.HasInput "InpSLPercent"
  reward : p.targetMethod = some .riskReward → σ.HasInput "InpRiskReward"
  table : p.mentions "SMLTPState" = true → σ.Covers Rule.levelTable

theorem Program.Consistent.append {q : Program} (hp : p.Consistent σ) (hq : q.Consistent σ) :
    (p ++ q).Consistent σ where
  closed := hp.closed.append hq.closed
  percent h := by
    rw [Program.append_stopMethod] at h
    cases hmethod : q.stopMethod with
    | none => exact hp.percent (by simpa [hmethod] using h)
    | some m => exact hq.percent (by simpa [hmethod] using h)
  reward h := by
    rw [Program.append_targetMethod] at h
    cases hmethod : q.targetMethod with
    | none => exact hp.reward (by simpa [hmethod] using h)
    | some m => exact hq.reward (by simpa [hmethod] using h)
  table h := by
    rw [Program.mentions_append, Bool.or_eq_true] at h
    exact h.elim hp.table hq.table

/-- A closed part that sets no method and does not declare the table. -/
theorem Program.Neutral.consistent {fs : List Function} (hneutral : p.Neutral fs)
    (htable : p.mentions "SMLTPState" = false) (hclosed : p.ClosedIn σ) : p.Consistent σ where
  closed := hclosed
  percent h := by rw [hneutral.stop] at h; cases h
  reward h := by rw [hneutral.target] at h; cases h
  table h := by rw [htable] at h; cases h

theorem Program.Quiet.consistent {fs : List Function} (hquiet : p.Quiet fs)
    (hclosed : p.ClosedIn σ) : p.Consistent σ :=
  hquiet.toNeutral.consistent hquiet.unshared.table hclosed

theorem generalInputs_consistent (s : Settings) : (generalInputs s).Consistent σ :=
  Program.Neutral.consistent (show Program.Neutral [] _ from .of_eq rfl rfl) rfl
    (by simp [Program.closedIn_iff, generalInputs])

/-! ## Steps -/

theorem emitIndicator_consistent {i : Nat} (h : σ.Covers (emitIndicator n i).code) :
    (emitIndicator n i).code.Consistent σ := by
  refine (emitIndicator_neutral n i).consistent (emitIndicator_unshared n i).table ?_
  rw [emitIndicator] at h ⊢
  split at h
  · exact indicatorCode_closed h
  · exact Program.closedIn_empty

theorem emitPriceAction_consistent {i : Nat} (h : σ.Covers (emitPriceAction n i).code) :
    (emitPriceAction n i).code.Consistent σ := by
  refine (emitPriceAction_quiet n i).consistent ?_
  rw [emitPriceAction] at h ⊢
  split at h
  · rename_i timeframe action hpayload
    exact priceActionCode_closed h
  · exact Program.closedIn_empty

theorem emitStopLoss_consistent (hmeasures : σ.Measures) {indicators priceAction : List Node}
    {edges : List Edge}
    {known : List String} {ctx : Context} (hindicators : σ.HasIndicators indicators)
    (hactions : σ.HasActions priceAction) (hread : σ.MayRead stopAtr.buffer.text 0)
    (h : σ.Covers (emitStopLoss n indicators priceAction edges known ctx).code) :
    (emitStopLoss n indicators priceAction edges known ctx).code.Consistent σ := by
  have hclosed := emitStopLoss_closed hmeasures hindicators hactions (fun _ _ _ => hread) h
  have htable := (emitStopLoss_mentions n indicators priceAction edges known ctx).2
  obtain ⟨p, hcode, hneutral, hpercent, -⟩ :=
    emitStopLoss_neutral n indicators priceAction edges known ctx
  rw [hcode] at h hclosed htable ⊢
  refine ⟨hclosed, fun hmethod => ?_, fun hmethod => ?_, fun hdeclares => ?_⟩
  · rw [Program.append_stopMethod, hneutral.stop] at hmethod
    obtain ⟨i, hi, hname⟩ := hpercent hmethod
    exact hname ▸ h.inputs i hi
  · rw [Program.append_targetMethod, hneutral.target] at hmethod
    cases hmethod
  · rw [htable] at hdeclares
    cases hdeclares

theorem emitTakeProfit_consistent (hmeasures : σ.Measures) (hread : σ.MayRead stopAtr.buffer.text 0)
    (hown : σ.MayRead targetAtr.buffer.text 0) (h : σ.Covers (emitTakeProfit n program).code) :
    (emitTakeProfit n program).code.Consistent σ := by
  have hboth : ∀ shared : Bool, σ.MayRead (if shared then stopAtr else targetAtr).buffer.text 0
    | true => hread
    | false => hown
  have hclosed := emitTakeProfit_closed hmeasures (fun _ _ _ => hboth _) h
  have htable := (emitTakeProfit_unshared n program).table
  obtain ⟨p, hcode, hneutral, hreward, -⟩ := emitTakeProfit_neutral n program
  rw [hcode] at h hclosed htable ⊢
  refine ⟨hclosed, fun hmethod => ?_, fun hmethod => ?_, fun hdeclares => ?_⟩
  · rw [Program.append_stopMethod, hneutral.stop] at hmethod
    cases hmethod
  · rw [Program.append_targetMethod, hneutral.target] at hmethod
    obtain ⟨i, hi, hname⟩ := hreward hmethod
    exact hname ▸ h.inputs i hi
  · rw [htable] at hdeclares
    cases hdeclares

/-- A closed rule whose names are of a family, or which brings the table of levels. -/
theorem Program.IsRule.consistent (hrule : p.IsRule) (hclosed : p.ClosedIn σ)
    (htable : p.mentions "SMLTPState" = true → σ.Covers Rule.levelTable) : p.Consistent σ where
  closed := hclosed
  percent h := by rw [hrule.stop] at h; cases h
  reward h := by rw [hrule.target] at h; cases h
  table := htable

/-- Names of a rule are of its family; only the rule with levels may add the table. -/
theorem managementCode_consistent {rule : Management}
    (hclosed : (managementCode n program rule).ClosedIn σ)
    (h : σ.Covers (managementCode n program rule)) :
    (managementCode n program rule).Consistent σ := by
  refine (managementCode_isRule n program rule).consistent hclosed fun hdeclares => ?_
  rw [mentions_managementCode] at hdeclares
  cases rule with
  | multiTarget p =>
    simp only [managementCode, Rule.targetsCode, Scope.covers_append] at h
    obtain ⟨⟨-, htable⟩, -⟩ := h
    cases hthere : program.mentions "SMLTPState" with
    | false => rwa [hthere] at htable
    | true =>
      rw [hthere] at hdeclares
      cases hdeclares
  | _ => cases hdeclares

theorem safeModify_consistent (hmodify : σ.HasFunction "SafePositionModify") :
    ({ helpers := [.ofFunction Rule.safeModify] } : Program).Consistent σ :=
  Program.Neutral.consistent (show Program.Neutral [Rule.safeModify] _ from .of_eq rfl rfl) rfl
    (by simp +decide [Program.closedIn_iff, Rule.safeModify_closed hmodify])

theorem emitManagement_consistent
    (htable : program.mentions "SMLTPState" = true → σ.Covers Rule.levelTable)
    (h : σ.Covers (emitManagement n program).code) :
    (emitManagement n program).code.Consistent σ := by
  rw [emitManagement] at h ⊢
  split at h
  case h_2 =>
    exact Program.Neutral.consistent (show Program.Neutral [] _ from .of_eq rfl rfl) rfl
      Program.closedIn_empty
  case h_1 rule hrule =>
    obtain ⟨hsafe, hcode⟩ := Scope.covers_append.mp h
    have hmodify : σ.HasFunction "SafePositionModify" :=
      hsafe.hasFunction (f := Rule.safeModify) List.mem_cons_self (by decide)
    exact (safeModify_consistent hmodify).append
      (managementCode_consistent (managementCode_closed hmodify htable hcode) hcode)

theorem emitOrder_consistent {side : Side} (htrades : σ.Trades side) (hmeasures : σ.Measures)
    (hpercent : program.stopMethod = some .percent → σ.HasInput "InpSLPercent")
    (h : σ.Covers (emitOrder side n program).code) :
    (emitOrder side n program).code.Consistent σ := by
  refine (emitOrder_quiet side n program).consistent ?_
  rw [emitOrder] at h ⊢
  split at h
  · exact sizingCode_closed htrades hmeasures hpercent h
  · exact Program.closedIn_empty

/-! ## Runs -/

/-- The scope has what the steps of a plan refer to beyond what they declare themselves. -/
structure Mql.Scope.Serves (σ : Scope) (r : Roles) : Prop where
  general : Library.General σ
  trades : ∀ side n, r.orders.of side = some n → σ.Trades side
  measures : r.hasEntry = true → σ.Measures
  compares : Library.Compares σ
  indicators : σ.HasIndicators r.indicators
  actions : σ.HasActions r.priceAction
  signals : ∀ nodes, r.indicators.mapM Node.indicator? = some nodes → σ.HasSignals nodes
  offsets : ∀ side n s, r.orders.of side = some n → n.sizing? = some s → s.isPending = true →
    σ.HasInput (sideInput side "PendingOffset")
  stop : σ.MayRead stopAtr.buffer.text 0
  target : σ.MayRead targetAtr.buffer.text 0

variable {r : Roles} {edges : List Edge} {known : List String} {ctx : Context}

theorem Planned.consistent (hserves : σ.Serves r) {s : Step} (hs : Planned r edges known ctx s)
    (hcovers : σ.Covers program) (hprogram : program.Consistent σ) (h : σ.Covers (s program).code) :
    (s program).code.Consistent σ := by
  cases hs with
  | spread =>
    exact (emitSpread_quiet _).consistent (emitSpread_closed _)
  | timing =>
    exact (emitTiming_quiet _).consistent (emitTiming_closed _)
  | closeTimeGate =>
    exact (emitCloseTimeGate_quiet _ ctx program).consistent (emitCloseTimeGate_closed h)
  | indicator hn => exact emitIndicator_consistent h
  | priceAction hn => exact emitPriceAction_consistent h
  | stopLoss hentry hn =>
    exact emitStopLoss_consistent (hserves.measures hentry) hserves.indicators hserves.actions
      hserves.stop h
  | noStop hentry hn =>
    exact (noDistance_quiet _ _).consistent
      (noDistance_closed ((σ.has_reserved (by decide)).mpr (hserves.measures hentry).stop)
        (by decide))
  | takeProfit hentry hn =>
    exact emitTakeProfit_consistent (hserves.measures hentry) hserves.stop hserves.target h
  | noTarget hentry hn =>
    exact (noDistance_quiet _ _).consistent
      (noDistance_closed ((σ.has_reserved (by decide)).mpr (hserves.measures hentry).target)
        (by decide))
  | order hn =>
    exact emitOrder_consistent (hserves.trades _ _ hn) (hserves.measures (hasEntry_of_order hn))
      hprogram.percent h
  | entry =>
    exact (emitEntry_quiet _ _ _ ctx program).consistent
      (emitEntry_closed hserves.general hserves.compares hserves.signals hserves.actions hcovers
        hprogram.closed.gates hprogram.reward hserves.trades
        (fun _ _ hn => hserves.measures (hasEntry_of_order hn)) hserves.offsets h)
  | closeCondition hn =>
    exact (emitCloseCondition_quiet _ _ _ _ _).consistent (emitCloseCondition_closed
      hserves.general hserves.compares hserves.indicators hserves.actions h)
  | timeExit hn =>
    exact (emitTimeExit_quiet _ _ ctx program).consistent (emitTimeExit_closed hserves.general h)

theorem emitPass_consistent (hgeneral : Library.General σ)
    (hpass : "ManageOpenPositions" ∈ σ.reserved) (hprogram : program.Consistent σ)
    (h : σ.Covers (emitPass program).code) : (emitPass program).code.Consistent σ :=
  have hneutral : (emitPass program).code.stopMethod = none ∧
      (emitPass program).code.targetMethod = none ∧
      (emitPass program).code.mentions "SMLTPState" = false := by
    rw [emitPass]
    split <;> exact ⟨rfl, rfl, rfl⟩
  { closed := emitPass_closed hgeneral hpass hprogram.closed h
    percent h := by rw [hneutral.1] at h; cases h
    reward h := by rw [hneutral.2.1] at h; cases h
    table h := by rw [hneutral.2.2] at h; cases h }

/-- **A run keeps the program closed**: a scope that has what the whole program declares knows all
that is referred to along the way. -/
theorem Run.consistent (hserves : σ.Serves r) {ss : List Step} {q : Program} (h : Run ss p q)
    (hplanned : ∀ s ∈ ss, Planned r edges known ctx s ∨ (∃ n ∈ r.management, emitManagement n = s) ∨
      s = emitPass ∧ "ManageOpenPositions" ∈ σ.reserved) (hcovers : σ.Covers q)
    (hp : p.Consistent σ) : q.Consistent σ := by
  induction h with
  | done => exact hp
  | @step s ss p q hs hrun ih =>
    -- what was declared on the way is declared in the end
    obtain ⟨rest, rfl⟩ := hrun.exists_append
    obtain ⟨hnow, -⟩ := Scope.covers_append.mp hcovers
    obtain ⟨hbefore, hcode⟩ := Scope.covers_append.mp hnow
    refine ih (fun t ht => hplanned t (List.mem_cons_of_mem _ ht)) hcovers (hp.append ?_)
    rcases hplanned s List.mem_cons_self with hs | ⟨n, -, rfl⟩ | ⟨rfl, hpass⟩
    · exact hs.consistent hserves hbefore hp hcode
    · exact emitManagement_consistent hp.table hcode
    · exact emitPass_consistent hserves.general hpass hp hcode

end TradeGraph

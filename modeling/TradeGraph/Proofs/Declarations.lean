import TradeGraph.Proofs.ClosedRisk
import TradeGraph.Proofs.Families

/-!
# What the parts of a program declare

Every part of a program declares names of one family, most parts with a number of their own, and no
name twice.
-/

namespace TradeGraph

open List Mql

variable {f : Family} {number : Option Nat} {p : Program}

/-! ## Declared names -/

/-- The names of the inputs and of the variables at file level. -/
def Program.names (p : Program) : List Ident :=
  p.inputs.map Input.name ++ p.globals.map Global.name

theorem Program.name_mem {i : Input} (hi : i ∈ p.inputs) : i.name ∈ p.names :=
  mem_append_left _ (mem_map_of_mem hi)

theorem Program.mem_names_append {q : Program} {x : Ident} :
    x ∈ (p ++ q).names ↔ x ∈ p.names ∨ x ∈ q.names := by
  simp only [Program.names, Program.append_inputs, Program.append_globals, map_append,
    mem_append]
  tauto

theorem Program.names_append_perm (p q : Program) : (p ++ q).names.Perm (p.names ++ q.names) := by
  simp only [Program.names, Program.append_inputs, Program.append_globals, map_append,
    List.append_assoc]
  refine List.Perm.append_left _ ?_
  rw [← List.append_assoc, ← List.append_assoc]
  exact perm_append_comm.append_right _

/-- A part declares names of a kind, and none twice. -/
structure Program.Declares (P : Ident → Prop) (p : Program) : Prop where
  named : ∀ x ∈ p.names, P x
  nodup : (p.names.map Ident.text).Nodup

/-- Names of a family with a given number. -/
def At (f : Family) (number : Option Nat) (x : Ident) : Prop :=
  x.Named f ∧ x.number = number

theorem Program.declares_nil {P : Ident → Prop} (h : p.names = []) : p.Declares P :=
  ⟨by simp [h], by simp [h]⟩

/-- A stem and a tail with a number. -/
def atNumber (number : Option Nat) (word : String × String) : Ident :=
  ⟨word.1, number, word.2⟩

/-- Are the stems and tails those of a family, and written differently? -/
def fits (f : Family) (numbered : Bool) (words : List (String × String)) : Bool :=
  let leads := words.map fun w => if numbered then w else (w.1 ++ w.2, "")
  decide leads.Nodup && leads.all (fun w => f.leads.contains w.1) &&
    words.all fun w => isLetters w.2

/-- Names of a family with a common number, taken from a list that has none twice. -/
theorem Program.Declares.of_sublist (words : List (String × String))
    (hnames : p.names.Sublist (words.map (atNumber number)))
    (hfits : fits f number.isSome words = true) : p.Declares (At f number) := by
  simp only [fits, Bool.and_eq_true, decide_eq_true_eq, all_map] at hfits
  obtain ⟨⟨hnodup, hleads⟩, htails⟩ := hfits
  have hkey : ∀ w, ((atNumber number w).lead, (atNumber number w).ending) =
      if number.isSome then w else (w.1 ++ w.2, "") := by
    intro w
    cases number <;> rfl
  have hnamed : ∀ w ∈ words, (atNumber number w).Named f := by
    intro w hw
    refine ⟨?_, all_eq_true.mp htails w hw⟩
    have hlead := contains_iff_mem.mp (all_eq_true.mp hleads w hw)
    beta_reduce at hlead
    rwa [← hkey w] at hlead
  refine ⟨fun x hx => ?_, ?_⟩
  · obtain ⟨w, hw, rfl⟩ := mem_map.mp (hnames.subset hx)
    exact ⟨hnamed w hw, rfl⟩
  · refine List.Nodup.sublist (hnames.map Ident.text) ?_
    rw [map_map]
    refine hnodup.of_map.map_on fun v hv w hw htext => ?_
    obtain ⟨-, hlead, -, hending⟩ := (hnamed v hv).eq_of_text_eq (hnamed w hw) htext
    refine inj_on_of_nodup_map hnodup hv hw ?_
    rw [← hkey v, ← hkey w, hlead, hending]

theorem Program.Declares.of_words (words : List (String × String))
    (hnames : p.names = words.map (atNumber number)) (hfits : fits f number.isSome words = true) :
    p.Declares (At f number) :=
  .of_sublist words (hnames ▸ List.Sublist.refl _) hfits

theorem Program.Declares.of_plain (words : List (String × String))
    (hnames : p.names = words.map (atNumber none)) (hfits : fits f false words = true) :
    p.Declares (At f none) :=
  .of_words words hnames hfits

theorem Program.Declares.of_numbered {i : Nat} (words : List (String × String))
    (hnames : p.names = words.map (atNumber (some i))) (hfits : fits f true words = true) :
    p.Declares (At f (some i)) :=
  .of_words words hnames hfits

theorem Program.Declares.of_either (words : List (String × String))
    (hnames : p.names = words.map (atNumber number)) (hplain : fits f false words = true)
    (hnumbered : fits f true words = true) : p.Declares (At f number) := by
  cases number with
  | none => exact .of_plain words hnames hplain
  | some i => exact .of_numbered words hnames hnumbered

theorem Program.Declares.append {P Q : Ident → Prop} {q : Program} (hp : p.Declares P)
    (hq : q.Declares Q) (hdiffer : ∀ x y, P x → Q y → x.text ≠ y.text) :
    (p ++ q).Declares fun x => P x ∨ Q x := by
  refine ⟨fun x hx => (Program.mem_names_append.mp hx).imp (hp.named x) (hq.named x), ?_⟩
  rw [((Program.names_append_perm p q).map Ident.text).nodup_iff, map_append,
    nodup_append]
  refine ⟨hp.nodup, hq.nodup, ?_⟩
  intro s hs t ht
  obtain ⟨x, hx, rfl⟩ := mem_map.mp hs
  obtain ⟨y, hy, rfl⟩ := mem_map.mp ht
  exact hdiffer x y (hp.named x hx) (hq.named y hy)

/-! ## General inputs and signals -/

theorem generalInputs_declares (s : Settings) :
    (generalInputs s).Declares (At .general none) :=
  .of_plain [("InpMagicNumber", ""), ("InpTradeComment", ""), ("InpMaxSlippage", "")] rfl
    (by decide)

theorem indicatorCode_declares (n : Node) (i : Nat) (timeframe : Option String)
    (indicator : Indicator) :
    (indicatorCode n i timeframe indicator).Declares (At .indicator (some i)) := by
  cases indicator with
  | movingAverage p =>
    exact .of_numbered [("InpMA", "Period"), ("InpMA", "Shift"), ("ind", "Handle"),
      ("ind", "Buffer")]
      rfl (by decide)
  | rsi p =>
    exact .of_numbered [("InpRSI", "Period"), ("InpRSI", "Overbought"), ("InpRSI", "Oversold"),
      ("ind", "Handle"), ("ind", "Buffer")] rfl (by decide)
  | macd p =>
    exact .of_numbered [("InpMACD", "Fast"), ("InpMACD", "Slow"), ("InpMACD", "Signal"),
      ("ind", "Handle"), ("ind", "MainBuffer"), ("ind", "SignalBuffer")] rfl (by decide)
  | bollingerBands p =>
    exact .of_numbered [("InpBB", "Period"), ("InpBB", "Deviation"), ("InpBB", "Shift"),
      ("ind", "Handle"), ("ind", "MiddleBuffer"), ("ind", "UpperBuffer"), ("ind", "LowerBuffer")]
      rfl (by decide)
  | atr p =>
    exact .of_numbered [("InpATR", "Period"), ("ind", "Handle"), ("ind", "Buffer")] rfl (by decide)
  | adx p =>
    exact .of_numbered [("InpADX", "Period"), ("InpADX", "TrendLevel"), ("ind", "Handle"),
      ("ind", "MainBuffer"), ("ind", "PlusDIBuffer"), ("ind", "MinusDIBuffer")] rfl
      (by decide)
  | stochastic p =>
    exact .of_numbered [("InpStoch", "K"), ("InpStoch", "D"), ("InpStoch", "Slowing"),
      ("InpStoch", "Overbought"), ("InpStoch", "Oversold"), ("ind", "Handle"),
      ("ind", "MainBuffer"), ("ind", "SignalBuffer")] rfl (by decide)
  | cci p =>
    exact .of_numbered [("InpCCI", "Period"), ("InpCCI", "Overbought"), ("InpCCI", "Oversold"),
      ("ind", "Handle"), ("ind", "Buffer")] rfl (by decide)

theorem candleCode_declares (n : Node) (i : Nat) (timeframe : Option String)
    (p : CandlestickPatterns) :
    (candleCode n i timeframe p).Declares (At .priceAction (some i)) :=
  .of_numbered [("InpCP", "MinBody"), ("pa", "BuySignal"), ("pa", "SellSignal")] rfl (by decide)

theorem levelCode_declares (n : Node) (i : Nat) (timeframe : Option String)
    (p : SupportResistance) :
    (levelCode n i timeframe p).Declares (At .priceAction (some i)) :=
  .of_numbered
    [("InpSR", "Lookback"), ("InpSR", "Touches"), ("InpSR", "ZoneSize"), ("pa", "Support"),
      ("pa", "Resistance"), ("pa", "NearSupport"), ("pa", "NearResistance")] rfl
    (by decide)

theorem if_sublist {α : Type} (p : Prop) [Decidable p] (l : List α) :
    (if p then l else []).Sublist l := by
  split
  · exact List.Sublist.refl l
  · exact nil_sublist l

theorem rangeCode_declares (n : Node) (i : Nat) (timeframe : Option String) (p : RangeBreakout) :
    (rangeCode n i timeframe p).Declares (At .priceAction (some i)) := by
  have hnames : (rangeCode n i timeframe p).names =
      ((if p.rangeType == .previousCandles then [rangeInput i "Lookback"] else []) ++
        ([rangeInput i "Buffer", rangeInput i "MinRange"] ++
          if p.isLimited then [rangeInput i "MaxRange"] else []) ++
        (if !(p.rangeType == .previousCandles) && (sessionWindow? p).isNone then
          ["StartHour", "StartMin", "EndHour", "EndMin"].map (rangeInput i) else [])) ++
      ["High", "Low", "Size", "Valid", "BreakoutUp", "BreakoutDown"].map (paVar i) := by
    rw [Program.names, rangeCode_globals]
    simp only [rangeCode, rangeSizeInputs, windowInputs, map_append]
    congr 1
    split_ifs <;> rfl
  refine .of_sublist
    (["Lookback", "Buffer", "MinRange", "MaxRange", "StartHour", "StartMin",
    "EndHour", "EndMin"].map
        (fun t => ("InpRange", t)) ++
      ["High", "Low", "Size", "Valid", "BreakoutUp", "BreakoutDown"].map fun t => ("pa", t))
    ?_ (show fits _ true _ = true by decide)
  rw [hnames]
  exact (((if_sublist _ _).append ((List.Sublist.refl _).append (if_sublist _ _))).append
    (if_sublist _ _)).append (List.Sublist.refl _)

theorem emitPriceAction_declares (n : Node) (i : Nat) :
    (emitPriceAction n i).code.Declares (At .priceAction (some i)) := by
  rw [emitPriceAction]
  split
  · rename_i timeframe action hpayload
    cases action with
    | rangeBreakout p => exact rangeCode_declares n i timeframe p
    | candlestickPattern p => exact candleCode_declares n i timeframe p
    | supportResistance p => exact levelCode_declares n i timeframe p
  · exact Program.declares_nil rfl

theorem emitIndicator_declares (n : Node) (i : Nat) :
    (emitIndicator n i).code.Declares (At .indicator (some i)) := by
  rw [emitIndicator]
  split
  · exact indicatorCode_declares n i _ _
  · exact Program.declares_nil rfl

/-! ## Stops, targets and sizes -/

theorem fixedStop_declares (n : Node) (pips : Float) (remark : String) :
    (fixedStop n pips remark).Declares (At .stop none) :=
  .of_plain [("InpStopLoss", "")] rfl (by decide)

theorem indicatorStop_declares (n : Node) (pips : Float) (hit : Numbered) :
    (indicatorStop n pips hit).Declares (At .stop none) := by
  unfold indicatorStop
  simp only
  split
  · exact .of_plain [("InpBBSLBuffer", "")] rfl (by decide)
  · exact .of_plain [("InpMASLMultiplier", "")] rfl (by decide)
  · exact .of_plain [("InpATRSLMultiplier", "")] rfl (by decide)
  · exact .of_plain [("InpADXSLBase", "")] rfl (by decide)
  · exact fixedStop_declares n pips _

theorem emitStopLoss_declares (n : Node) (indicators priceAction : List Node) (edges : List Edge)
    (known : List String) (ctx : Context) :
    (emitStopLoss n indicators priceAction edges known ctx).code.Declares (At .stop none) := by
  have hempty : ∀ method : Option StopMethod,
      ({ stopMethod := method } ++ {} : Program).Declares (At .stop none) := fun _ =>
    Program.declares_nil rfl
  rw [emitStopLoss]
  split
  case h_2 => exact Program.declares_nil rfl
  case h_1 p hp =>
    cases hmethod : p.method <;> simp only
    case fixedPips => exact .of_plain [("InpStopLoss", "")] rfl (by decide)
    case percent => exact .of_plain [("InpSLPercent", "")] rfl (by decide)
    case atrBased =>
      exact .of_plain [("InpATRSLTimeframe", ""), ("InpATRPeriod", ""), ("InpATRMultiplier", ""),
        ("atrHandle", ""), ("atrBuffer", "")] rfl (by decide)
    case rangeOpposite =>
      split
      · exact Program.declares_nil rfl
      · exact hempty _
    case indicator =>
      rw [emitIndicatorStop]
      split
      · exact hempty _
      · split
        · rename_i hit hhit
          obtain ⟨hnamed, hnodup⟩ := indicatorStop_declares n p.fixedPips hit
          exact ⟨hnamed, hnodup⟩
        · split
          · exact hempty _
          · exact Program.declares_nil rfl

theorem emitTakeProfit_declares (n : Node) (program : Program) :
    (emitTakeProfit n program).code.Declares (At .target none) := by
  rw [emitTakeProfit]
  split
  case h_2 => exact Program.declares_nil rfl
  case h_1 p hp =>
    cases p.method <;> simp only
    case fixedPips => exact .of_plain [("InpTakeProfit", "")] rfl (by decide)
    case riskReward => exact .of_plain [("InpRiskReward", "")] rfl (by decide)
    case atrBased =>
      cases program.mentions "int atrHandle"
      · exact .of_plain [("InpTPATRMultiplier", ""), ("InpTPATRPeriod", ""), ("tpAtrHandle", ""),
          ("tpAtrBuffer", "")] rfl (by decide)
      · exact .of_plain [("InpTPATRMultiplier", "")] rfl (by decide)

def orderTails : List String :=
  ["PendingOffset", "LotSize", "RiskPercent", "MinLot", "MaxLot"]

theorem emitOrder_declares (side : Side) (n : Node) (program : Program) :
    (emitOrder side n program).code.Declares (At (.order side) none) := by
  rw [emitOrder]
  split
  case h_2 => exact Program.declares_nil rfl
  case h_1 s hs =>
    have hnames : ∃ tails : List String, tails.Sublist orderTails ∧
        (sizingCode n side s program).names = tails.map (sideInput side) := by
      simp only [sizingCode]
      cases s.method <;> cases s.isPending
      · exact ⟨["LotSize", "MinLot", "MaxLot"], by decide, rfl⟩
      · exact ⟨["PendingOffset", "LotSize", "MinLot", "MaxLot"], by decide, rfl⟩
      · exact ⟨["RiskPercent", "MinLot", "MaxLot"], by decide, rfl⟩
      · exact ⟨["PendingOffset", "RiskPercent", "MinLot", "MaxLot"], by decide, rfl⟩
    obtain ⟨tails, htails, hnames⟩ := hnames
    refine .of_sublist (orderTails.map fun t => ("Inp" ++ side.label ++ t, "")) ?_
      (by cases side <;> decide)
    rw [hnames, map_map]
    exact htails.map (sideInput side)

/-! ## Parts without names -/

theorem emitSpread_names (nodes : List Node) : (emitSpread nodes).code.names = [] := by
  rw [emitSpread]
  split <;> rfl

theorem emitTiming_names (nodes : List Node) : (emitTiming nodes).code.names = [] := by
  unfold emitTiming
  split
  · rfl
  · split <;> rfl
  · simp only
    split <;> rfl

theorem emitCloseCondition_names (n : Node) (i : Nat) (indicators priceAction : List Node)
    (edges : List Edge) :
    (emitCloseCondition n i indicators priceAction edges).code.names = [] := by
  rw [emitCloseCondition]
  split
  · split
    · rfl
    · split <;> rfl
  · rfl

theorem emitPass_names (program : Program) : (emitPass program).code.names = [] := by
  rw [emitPass]
  split <;> rfl

/-! ## Time exits -/

def exitNumber (i : Nat) : Option Nat :=
  (exitName "" i).number

theorem exitNumber_injective {i j : Nat} (h : exitNumber i = exitNumber j) : i = j := by
  simp only [exitNumber, exitName] at h
  split_ifs at h <;> simp at h <;> omega

theorem closeAfterBars_declares (n : Node) (p : TimeExit) (i : Nat) :
    (closeAfterBars n p i).Declares (At .barExit (exitNumber i)) :=
  .of_either [("InpTimeExitBars", "")] rfl (by decide) (by decide)

theorem closeTimeCheck_declares (n : Node) (p : TimeExit) (i : Nat) (ctx : Context)
    (program : Program) :
    (closeTimeCheck n p i ctx program).Declares (At .closeTime (exitNumber i)) := by
  simp only [closeTimeCheck]
  split
  · exact Program.declares_nil rfl
  · exact .of_either [("InpCloseHour", ""), ("InpCloseMinute", "")] rfl (by decide) (by decide)

/-- Close times from a place on declare names with the numbers of their places. -/
theorem closeTimeChecks_declares (ctx : Context) :
    ∀ (ns : List Node) (i : Nat) (program : Program),
      (closeTimeChecks ctx i ns program).1.Declares fun x =>
        x.Named .closeTime ∧ ∃ j, i ≤ j ∧ x.number = exitNumber j
  | [], _, _ => Program.declares_nil rfl
  | n :: ns, i, program => by
    have hlater : ∀ program, (closeTimeChecks ctx (i + 1) ns program).1.Declares fun x =>
        x.Named .closeTime ∧ ∃ j, i + 1 ≤ j ∧ x.number = exitNumber j :=
      closeTimeChecks_declares ctx ns (i + 1)
    rw [closeTimeChecks]
    split
    · obtain ⟨hnamed, hnodup⟩ := hlater program
      refine ⟨fun x hx => ?_, hnodup⟩
      obtain ⟨hfamily, j, hj, hnumber⟩ := hnamed x hx
      exact ⟨hfamily, j, by omega, hnumber⟩
    · rename_i p hp
      have hboth := (closeTimeCheck_declares n p i ctx program).append
        (hlater (program ++ closeTimeCheck n p i ctx program))
        fun x y ⟨hx, hxn⟩ ⟨hy, j, hj, hyn⟩ htext => by
          obtain ⟨-, -, hnumber, -⟩ := hx.eq_of_text_eq hy htext
          have : i = j := exitNumber_injective (hxn.symm.trans (hnumber.trans hyn))
          omega
      refine ⟨fun x hx => ?_, hboth.nodup⟩
      rcases hboth.named x hx with ⟨hfamily, hnumber⟩ | ⟨hfamily, j, hj, hnumber⟩
      · exact ⟨hfamily, i, Nat.le_refl i, hnumber⟩
      · exact ⟨hfamily, j, by omega, hnumber⟩

theorem emitCloseTimeGate_declares (nodes : List Node) (ctx : Context) (program : Program) :
    (emitCloseTimeGate nodes ctx program).code.Declares (Ident.Named .closeTime) := by
  obtain ⟨hnamed, hnodup⟩ := closeTimeChecks_declares ctx nodes 0 program
  unfold emitCloseTimeGate
  split
  · exact Program.declares_nil rfl
  · rename_i code flags hflags h
    rw [h] at hnamed hnodup
    have hnames : (code ++ { tick := [.blank], gates := flags.map fun x => .not (.var x) }).names =
        code.names := by
      simp [Program.names]
    refine ⟨fun x hx => ?_, ?_⟩
    · rw [hnames] at hx
      exact (hnamed x hx).1
    · rw [hnames]
      exact hnodup

theorem emitTimeExit_names (n : Node) (i : Nat) (ctx : Context) (program : Program) :
    (emitTimeExit n i ctx program).code.names =
      match n.data.payload with
      | .trading (.timeExit p) =>
        match p.exitMode with
        | .bars => (closeAfterBars n p i).names
        | .closeAtTime => (closeTimeCheck n p i ctx program).names
      | _ => [] := by
  unfold emitTimeExit
  cases n.data.payload with
  | trading t =>
    cases t with
    | timeExit p =>
      cases hmode : p.exitMode with
      | bars =>
        simp only [hmode]
        rfl
      | closeAtTime => simp [Program.names, closeAtTime, hmode]
    | _ => rfl
  | _ => rfl

/-! ## Management rules -/

namespace Rule

theorem breakevenCode_declares (n : Node) (p : Breakeven) (program : Program) :
    (breakevenCode n p program).Declares (At .breakeven (nextRule program "InpBELockPips")) := by
  unfold breakevenCode
  cases p.trigger with
  | pips =>
    exact .of_either [("InpBETriggerPips", ""), ("InpBELockPips", "")] rfl (by decide) (by decide)
  | percentage =>
    exact .of_either [("InpBETriggerPercent", ""), ("InpBELockPips", "")] rfl (by decide)
      (by decide)
  | atr =>
    exact .of_either [("InpBEATRPeriod", ""), ("InpBEATRMultiplier", ""), ("InpBELockPips", ""),
      ("beATR", "Handle"), ("beATR", "Buffer")] rfl (by decide) (by decide)

theorem trailingCode_declares (n : Node) (p : Trailing) (program : Program) :
    (trailingCode n p program).Declares (At .trailing (nextRule program "InpTrailStartPips")) := by
  unfold trailingCode
  cases p.method with
  | fixedPips =>
    exact .of_either [("InpTrailPips", ""), ("InpTrailStartPips", "")] rfl (by decide) (by decide)
  | percentage =>
    exact .of_either [("InpTrailPercent", ""), ("InpTrailStartPips", "")] rfl (by decide)
      (by decide)
  | atrBased =>
    exact .of_either [("InpTrailATRPeriod", ""), ("InpTrailATRMultiplier", ""),
      ("InpTrailStartPips", ""), ("trailATR", "Handle"), ("trailATR", "Buffer")] rfl
      (by decide) (by decide)

theorem lockCode_declares (n : Node) (p : LockProfit) (program : Program) :
    (lockCode n p program).Declares (At .lock (nextRule program "InpLockCheckInterval")) := by
  unfold lockCode
  cases p.method with
  | percentage =>
    exact .of_either [("InpLockProfitPercent", ""), ("InpLockCheckInterval", "")] rfl
      (by decide) (by decide)
  | fixedPips =>
    exact .of_either [("InpLockProfitPips", ""), ("InpLockCheckInterval", "")] rfl
      (by decide) (by decide)

theorem partialCode_declares (n : Node) (p : PartialClose) (program : Program) :
    (partialCode n p program).Declares
      (At .partialClose (nextRule program "InpPartialClosePercent")) := by
  unfold partialCode
  cases p.triggerMethod with
  | pips =>
    exact .of_either [("InpPartialClosePercent", ""), ("InpPartialCloseTriggerPips", ""),
      ("partialClosedTickets", "")] rfl (by decide) (by decide)
  | percent =>
    exact .of_either [("InpPartialClosePercent", ""), ("InpPartialCloseTriggerPercent", ""),
      ("partialClosedTickets", "")] rfl (by decide) (by decide)
  | riskMultiple =>
    exact .of_either [("InpPartialClosePercent", ""), ("InpPartialCloseRMultiple", ""),
      ("partialClosedTickets", "")] rfl (by decide) (by decide)

def levelInputsOf (n : Node) (p : MultiTarget) (k : RuleNumber) : Program where
  inputs :=
    levelInputs k n 1 p.tp1Pips p.tp1Percent ++ levelInputs k n 2 p.tp2Pips p.tp2Percent ++
      levelInputs k n 3 p.tp3Pips p.tp3Percent

theorem levelInputsOf_declares (n : Node) (p : MultiTarget) (k : RuleNumber) :
    (levelInputsOf n p k).Declares (At .levels k) :=
  .of_either [("InpMLTP1Pips", ""), ("InpMLTP1Percent", ""), ("InpMLTP2Pips", ""),
    ("InpMLTP2Percent", ""), ("InpMLTP3Pips", ""), ("InpMLTP3Percent", "")] rfl (by decide)
    (by decide)

theorem levelTable_declares : levelTable.Declares (At .levelTable none) :=
  .of_plain [("SMLTPState", ""), ("g_mltpStates", ""), ("g_mltpCount", "")] rfl (by decide)

end Rule

end TradeGraph

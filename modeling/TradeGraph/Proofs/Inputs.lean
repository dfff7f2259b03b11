import Mathlib
import TradeGraph.Proofs.References

/-!
# Where the inputs of a program come from

Every input of a compiled program holds the value of one field of one live node, one of the
settings, or a constant. The optimizer's flag of an input is that of the field. Names, comments and
groups are plain text.
-/

namespace TradeGraph

open List Mql
open Program (append_inputs)

variable {name : Ident} {is : List Input} {indicators nodes : List Node} {group : Option String}
    {value : Scalar} {s : Settings} {comment field stem type : String}
variable {i : Input} {entries : List (Node × Signal × Indicator)}

/-! ## Labels -/

/-- Can the character stand in a label: between quotes, in a comment, or on a line of its own? -/
def isLabelChar (c : Char) : Bool :=
  !(['"', '\\', '\n', '\r'].contains c)

def isLabel (s : String) : Bool :=
  s.toList.all isLabelChar

@[simp] theorem isLabel_append (s t : String) : isLabel (s ++ t) = (isLabel s && isLabel t) := by
  simp [isLabel]

@[simp] theorem isLabel_repr (n : Nat) : isLabel n.repr = true := by
  have hother : ['"', '\\', '\n', '\r'].any isNumeralChar = false := by decide
  rw [isLabel, all_eq_true]
  intro c hc
  rw [isLabelChar, Bool.not_eq_true', ← Bool.not_eq_true, contains_iff_mem]
  exact fun hmem => any_eq_false.mp hother c hmem (repr_numeral c hc)

def isLabelByte (b : Nat) : Bool :=
  !(Nat.beq b 34 || Nat.beq b 92 || Nat.beq b 10 || Nat.beq b 13)

theorem isLabel_of_bytes {s : String} (h : (bytes s).all isLabelByte = true) :
    isLabel s = true := by
  have hother : ['"', '\\', '\n', '\r'].all (fun c => !(charBytes c).all isLabelByte) = true := by
    decide
  rw [isLabel, all_eq_true]
  intro c hc
  rw [isLabelChar, Bool.not_eq_true', ← Bool.not_eq_true, contains_iff_mem]
  intro hmem
  have hbytes : (charBytes c).all isLabelByte = true :=
    all_eq_true.mpr fun b hb => all_eq_true.mp h b (mem_bytes hc b hb)
  simpa [hbytes] using all_eq_true.mp hother c hmem

instance (s : String) : Decidable (isLabel s = true) :=
  if h : (bytes s).all isLabelByte = true then .isTrue (isLabel_of_bytes h)
  else decEq (isLabel s) true

theorem oneLine_of_isLabel {s : String} (h : isLabel s = true) : OneLine s := by
  intro hbreak
  have := all_eq_true.mp h _ hbreak
  revert this
  decide

/-- An input whose name is a word, and whose comment and group are labels. -/
structure Input.Labelled (i : Input) : Prop where
  name : isWord i.name.text = true
  comment : isLabel i.comment = true
  group : ∀ g ∈ i.group, isLabel g = true

theorem Input.Labelled.groupName (h : i.Labelled) : isLabel i.groupName = true := by
  rw [Input.groupName]
  split
  · decide
  · rename_i g hg
    split
    · decide
    · exact h.group g hg

/-! ## Values -/

/-- A value of a type of the emitted language stands for a value of a document. -/
inductive Typed : String → Scalar → Json → Prop
  | int (n : Int) : Typed "int" (.int n) (.int n)
  | double (x : Float) : Typed "double" (.float x) (.float x)
  | timeframe (name : Option String) :
      Typed Source.timeframeType (.text (sweptPeriod (name.getD ""))) (name.elim .null .str)

/-- The fields that inputs are named for, by the words before and after the number. -/
def inputFields : List (String × List (String × String)) :=
  [("InpMA", [("Period", "period"), ("Shift", "shift")]),
    ("InpRSI", [("Period", "period"), ("Overbought", "overboughtLevel"),
      ("Oversold", "oversoldLevel")]),
    ("InpMACD", [("Fast", "fastPeriod"), ("Slow", "slowPeriod"), ("Signal", "signalPeriod")]),
    ("InpBB", [("Period", "period"), ("Deviation", "deviation"), ("Shift", "shift")]),
    ("InpATR", [("Period", "period")]),
    ("InpADX", [("Period", "period"), ("TrendLevel", "trendLevel")]),
    ("InpStoch", [("K", "kPeriod"), ("D", "dPeriod"), ("Slowing", "slowing"),
      ("Overbought", "overboughtLevel"), ("Oversold", "oversoldLevel")]),
    ("InpCCI", [("Period", "period"), ("Overbought", "overboughtLevel"),
      ("Oversold", "oversoldLevel")]),
    ("InpRange", [("Lookback", "lookbackCandles"), ("Buffer", "bufferPips"),
      ("MinRange", "minRangePips"), ("MaxRange", "maxRangePips"), ("StartHour", "sessionStartHour"),
      ("StartMin", "sessionStartMinute"), ("EndHour", "sessionEndHour"),
      ("EndMin", "sessionEndMinute")]),
    ("InpCP", [("MinBody", "minBodySize")]),
    ("InpSR", [("Lookback", "lookbackPeriod"), ("Touches", "touchCount"),
    ("ZoneSize", "zoneSize")])] ++
  ([("InpStopLoss", "fixedPips"), ("InpSLPercent", "slPercent"),
    ("InpATRSLTimeframe", "atrTimeframe"), ("InpATRPeriod", "atrPeriod"),
    ("InpATRMultiplier", "atrMultiplier"), ("InpTakeProfit", "fixedPips"),
    ("InpRiskReward", "riskRewardRatio"), ("InpTPATRMultiplier", "atrMultiplier"),
    ("InpTPATRPeriod", "atrPeriod"), ("InpBuyPendingOffset", "pendingOffset"),
    ("InpBuyLotSize", "fixedLot"), ("InpBuyRiskPercent", "riskPercent"), ("InpBuyMinLot", "minLot"),
    ("InpBuyMaxLot", "maxLot"), ("InpSellPendingOffset", "pendingOffset"),
    ("InpSellLotSize", "fixedLot"), ("InpSellRiskPercent", "riskPercent"),
    ("InpSellMinLot", "minLot"), ("InpSellMaxLot", "maxLot"),
    ("InpMinEmaSeparation", "minEmaSeparation"), ("InpPullbackMaxDist", "pullbackMaxDistance"),
    ("InpTimeExitBars", "exitAfterBars"), ("InpCloseHour", "closeHour"),
    ("InpCloseMinute", "closeMinute"), ("InpBETriggerPips", "triggerPips"),
    ("InpBETriggerPercent", "triggerPercent"), ("InpBEATRPeriod", "triggerAtrPeriod"),
    ("InpBEATRMultiplier", "triggerAtrMultiplier"), ("InpBELockPips", "lockPips"),
    ("InpTrailATRPeriod", "trailAtrPeriod"), ("InpTrailATRMultiplier", "trailAtrMultiplier"),
    ("InpTrailPercent", "trailPercent"), ("InpTrailPips", "trailPips"),
    ("InpTrailStartPips", "startAfterPips"), ("InpLockProfitPercent", "lockPercent"),
    ("InpLockProfitPips", "lockPips"), ("InpLockCheckInterval", "checkIntervalPips"),
    ("InpPartialCloseRMultiple", "rMultiple"), ("InpPartialCloseTriggerPercent", "triggerPercent"),
    ("InpPartialCloseTriggerPips", "triggerPips"), ("InpPartialClosePercent", "closePercent"),
    ("InpMLTP1Pips", "tp1Pips"), ("InpMLTP1Percent", "tp1Percent"), ("InpMLTP2Pips", "tp2Pips"),
    ("InpMLTP2Percent", "tp2Percent"), ("InpMLTP3Pips", "tp3Pips"),
    ("InpMLTP3Percent", "tp3Percent")].map fun w => (w.1, [("", w.2)]))

/-- The field that an input with this name is for. -/
def Mql.Ident.field? (x : Ident) : Option String :=
  (inputFields.lookup x.stem).bind fun words => words.lookup x.tail

theorem isWord_of_mem_inputFields :
    ∀ e ∈ inputFields, isWord e.1 = true ∧ ∀ w ∈ e.2, isTail w.1 = true := by
  decide

/-- Inputs that are named for fields have words for names. -/
theorem Mql.Ident.isWord_of_field? {x : Ident} (h : x.field? = some field) :
    isWord x.text = true := by
  rw [field?, Option.bind_eq_some_iff] at h
  obtain ⟨words, hstem, htail⟩ := h
  obtain ⟨before, after, hwords, -⟩ := lookup_eq_some_iff.mp hstem
  obtain ⟨before', after', htails, -⟩ := lookup_eq_some_iff.mp htail
  have hmem := isWord_of_mem_inputFields (x.stem, words) (by simp [hwords])
  exact isWord_text hmem.1 (hmem.2 (x.tail, field) (by simp [htails]))

/-- The input holds the value of a field of a node, and may be optimized if the field may. -/
structure Input.Shows (i : Input) (n : Node) (field : String) : Prop where
  optimizable : i.optimizable = n.isOptimizable field
  value : ∃ v, n.data.payload.encode.find? field = some v ∧ Typed i.type i.value v

/-- The values that no document sets, under their names. -/
inductive Constant : Ident → String → Scalar → Prop
  | slippage : Constant "InpMaxSlippage" "int" (.int 10)
  | expiry : Constant "InpPendingExpiryHours" "int" (.int 24)
  | bandBuffer : Constant "InpBBSLBuffer" "double" (.int 5)
  | averageMultiplier : Constant "InpMASLMultiplier" "double" (.float 1.5)
  | rangeMultiplier : Constant "InpATRSLMultiplier" "double" (.float 1.5)
  | base : Constant "InpADXSLBase" "double" (.int 50)

/-- The values that are settings, under their names. -/
inductive Settings.Gives (s : Settings) : Ident → String → Scalar → Prop
  | magic : Gives s "InpMagicNumber" "int" (.int s.magicNumber)
  | comment : Gives s "InpTradeComment" "string" (.text s.comment)
  | profit : Gives s "InpMaxDailyProfitPct" "double" (.float s.maxDailyProfitPercent)
  | loss : Gives s "InpMaxDailyLossPct" "double" (.float s.maxDailyLossPercent)

/-- Where the value of an input comes from: a field of a node, a setting, or nowhere. -/
inductive Input.Supplied (s : Settings) (nodes : List Node) (i : Input) : Prop
  | field {n : Node} {field : String} : n ∈ nodes → i.name.field? = some field → i.Shows n field →
      Supplied s nodes i
  | setting : s.Gives i.name i.type i.value → Supplied s nodes i
  | constant : Constant i.name i.type i.value → Supplied s nodes i

/-- The types of inputs, each with the values that it takes. -/
inductive Fits : String → Scalar → Prop
  | int (n : Int) : Fits "int" (.int n)
  | double (x : Float) : Fits "double" (.float x)
  | whole (n : Int) : Fits "double" (.int n)
  | text (t : String) : Fits "string" (.text t)
  | timeframe (name : String) : Fits Source.timeframeType (.text (sweptPeriod name))

theorem Input.Supplied.fits (h : i.Supplied s nodes) : Fits i.type i.value := by
  cases h with
  | field _ _ hshows =>
    obtain ⟨-, v, -, htyped⟩ := hshows
    revert htyped
    generalize i.type = type, i.value = value
    rintro (n | x | name)
    · exact .int n
    · exact .double x
    · exact .timeframe _
  | setting hsetting =>
    revert hsetting
    generalize i.name = name, i.type = type, i.value = value
    rintro (_ | _ | _ | _)
    · exact .int _
    · exact .text _
    · exact .double _
    · exact .double _
  | constant hconstant =>
    revert hconstant
    generalize i.name = name, i.type = type, i.value = value
    rintro (_ | _ | _ | _ | _ | _)
    · exact .int _
    · exact .int _
    · exact .whole _
    · exact .double _
    · exact .double _
    · exact .whole _

/-- An input with labels whose value comes from settings or nodes. -/
structure Input.Sourced (s : Settings) (nodes : List Node) (i : Input) :
    Prop extends i.Labelled where
  supplied : i.Supplied s nodes

theorem Input.Sourced.of_labels {group : String} {optimizable : Bool}
    (hlabels : (isWord name.text && isLabel comment && isLabel group) = true)
    (h : Input.Supplied s nodes ⟨name, type, value, comment, optimizable, some group⟩) :
    Input.Sourced s nodes ⟨name, type, value, comment, optimizable, some group⟩ := by
  rw [Bool.and_eq_true, Bool.and_eq_true] at hlabels
  exact ⟨⟨hlabels.1.1, hlabels.1.2, fun g hg => Option.some.inj hg ▸ hlabels.2⟩, h⟩

/-- Inputs that all come from settings or nodes. -/
def AllSourced (s : Settings) (nodes : List Node) (is : List Input) : Prop :=
  ∀ i ∈ is, i.Sourced s nodes

section Sourced

variable {s : Settings} {nodes : List Node} {n : Node} {payload : Payload}

@[simp] theorem allSourced_nil : AllSourced s nodes [] :=
  fun _ h => nomatch h

@[simp] theorem allSourced_cons :
    AllSourced s nodes (i :: is) ↔ i.Sourced s nodes ∧ AllSourced s nodes is :=
  forall_mem_cons

@[simp] theorem allSourced_append {js : List Input} :
    AllSourced s nodes (is ++ js) ↔ AllSourced s nodes is ∧ AllSourced s nodes js :=
  forall_mem_append

theorem allSourced_of_names {p : Program} (h : p.names = []) : AllSourced s nodes p.inputs :=
  fun _ hi => absurd (Program.name_mem hi) (h ▸ not_mem_nil)

theorem allSourced_ite {c : Prop} [Decidable c] (h : AllSourced s nodes is) :
    AllSourced s nodes (if c then is else []) := by
  split
  · exact h
  · exact allSourced_nil

theorem Node.input_sourced {v : Json} (hn : n ∈ nodes) (hp : n.data.payload = payload)
    (hfield : payload.encode.find? field = some v) (htyped : Typed type value v)
    (hname : name.field? = some field) (hcomment : isLabel comment = true)
    (hgroup : ∀ g ∈ group, isLabel g = true) :
    (n.input field name type value comment group).Sourced s nodes :=
  ⟨⟨name.isWord_of_field? hname, hcomment, hgroup⟩, .field hn hname ⟨rfl, v, hp ▸ hfield, htyped⟩⟩

/-! ## Indicators and price action -/

theorem emitIndicator_sourced {i : Nat} (hn : n ∈ nodes) :
    AllSourced s nodes (emitIndicator n i).code.inputs := by
  rw [emitIndicator]
  split
  case h_2 => exact allSourced_nil
  case h_1 signal indicator hp =>
    cases indicator
    all_goals
      simp only [indicatorCode, append_inputs, indicatorParts, append_nil,
        allSourced_cons, allSourced_nil, and_true]
      and_intros
    all_goals
      exact n.input_sourced hn hp rfl (by constructor) (by cbv) (by simp +decide) (by simp)

theorem emitPriceAction_sourced {i : Nat} (hn : n ∈ nodes) :
    AllSourced s nodes (emitPriceAction n i).code.inputs := by
  rw [emitPriceAction]
  split
  case h_2 => exact allSourced_nil
  case h_1 timeframe action hp =>
    cases action with
    | rangeBreakout p =>
      simp only [rangeCode, rangeSizeInputs, windowInputs, allSourced_append]
      refine ⟨⟨allSourced_ite ?_, ?_, allSourced_ite ?_⟩, allSourced_ite ?_⟩
      all_goals
        simp only [allSourced_cons, allSourced_nil, and_true]
        and_intros
      all_goals
        exact n.input_sourced hn hp rfl (by constructor) (by cbv) (by simp +decide)
          (by simp +decide)
    | _ =>
      simp only [candleCode, levelCode, allSourced_cons, allSourced_nil, and_true]
      and_intros
      all_goals
        exact n.input_sourced hn hp rfl (by constructor) (by cbv) (by simp +decide) (by simp)

/-! ## Risk -/

theorem stopGroup_label : ∀ g ∈ stopGroup, isLabel g = true := by
  decide

theorem stopInput_sourced (hvalue : Constant name "double" value)
    (hname : isWord name.text = true) (hcomment : isLabel comment = true) :
    (stopInput name value comment).Sourced s nodes where
  name := hname
  comment := hcomment
  group := stopGroup_label
  supplied := .constant hvalue

theorem StopLoss.encode_atrTimeframe (p : StopLoss) :
    (Payload.trading (.stopLoss p)).encode.find? "atrTimeframe" =
      some (p.atrTimeframe.elim .null .str) := by
  have hwrite : FieldType.write (.optional .text) p.atrTimeframe =
      p.atrTimeframe.elim .null .str := by
    cases p.atrTimeframe <;> rfl
  rw [← hwrite]
  rfl

theorem fixedStop_sourced {p : StopLoss} (hn : n ∈ nodes)
    (hp : n.data.payload = .trading (.stopLoss p)) (remark : String) :
    AllSourced s nodes (fixedStop n p.fixedPips remark).inputs := by
  simp only [fixedStop, allSourced_cons, allSourced_nil, and_true]
  exact n.input_sourced hn hp rfl (by constructor) (by cbv) (by decide) stopGroup_label

theorem indicatorStop_sourced {p : StopLoss} (hn : n ∈ nodes)
    (hp : n.data.payload = .trading (.stopLoss p)) (hit : Numbered) :
    AllSourced s nodes (indicatorStop n p.fixedPips hit).inputs := by
  rw [indicatorStop]
  split
  case h_5 => exact fixedStop_sourced hn hp _
  all_goals
    simp only [Option.getD_some, allSourced_cons, allSourced_nil, and_true]
    exact stopInput_sourced (by constructor) (by decide) (by decide)

theorem emitStopLoss_sourced (hn : n ∈ nodes) (indicators priceAction : List Node)
    (edges : List Edge) (known : List String) (ctx : Context) :
    AllSourced s nodes (emitStopLoss n indicators priceAction edges known ctx).code.inputs := by
  rw [emitStopLoss]
  split
  case h_2 => exact allSourced_nil
  case h_1 p hp =>
    simp only [append_inputs, nil_append]
    cases p.method with
    | fixedPips => exact fixedStop_sourced hn hp _
    | percent =>
      simp only [percentStop, allSourced_cons, allSourced_nil, and_true]
      exact n.input_sourced hn hp rfl (by constructor) (by cbv) (by decide) stopGroup_label
    | atrBased =>
      simp only [atrStop, AtrNames.setup, append_inputs, append_nil, allSourced_cons,
        allSourced_nil, and_true]
      refine ⟨n.input_sourced hn hp p.encode_atrTimeframe (by constructor) (by cbv)
        (by decide) stopGroup_label, ?_, ?_⟩
      all_goals
        exact n.input_sourced hn hp rfl (by constructor) (by cbv) (by decide) stopGroup_label
    | rangeOpposite =>
      simp only
      split <;> exact allSourced_nil
    | indicator =>
      simp only [emitIndicatorStop]
      split
      · exact allSourced_nil
      · split
        · exact indicatorStop_sourced hn hp _
        · split <;> exact allSourced_nil

theorem emitTakeProfit_sourced (hn : n ∈ nodes) (program : Program) :
    AllSourced s nodes (emitTakeProfit n program).code.inputs := by
  have hgroup : ∀ g ∈ targetGroup, isLabel g = true := by decide
  rw [emitTakeProfit]
  split
  case h_2 => exact allSourced_nil
  case h_1 p hp =>
    simp only [append_inputs, nil_append]
    cases p.method with
    | atrBased =>
      simp only [atrTarget]
      split
      all_goals
        simp only [AtrNames.setup, append_inputs, append_nil, allSourced_cons,
          allSourced_nil, and_true]
        and_intros
      all_goals exact n.input_sourced hn hp rfl (by constructor) (by cbv) (by decide) hgroup
    | _ =>
      simp only [allSourced_cons, allSourced_nil, and_true]
      exact n.input_sourced hn hp rfl (by constructor) (by cbv) (by decide) hgroup

theorem emitOrder_sourced (hn : n ∈ nodes) (side : Side) (program : Program) :
    AllSourced s nodes (emitOrder side n program).code.inputs := by
  rw [emitOrder]
  split
  case h_2 => exact allSourced_nil
  case h_1 side' p hp =>
    simp only [sizingCode, append_inputs, allSourced_append]
    constructor
    · cases p.method
      all_goals
        simp only [allSourced_append, allSourced_cons, allSourced_nil, and_true]
        refine ⟨allSourced_ite ?_, ?_⟩
        · simp only [allSourced_cons, allSourced_nil, and_true]
          exact n.input_sourced hn hp rfl (by constructor) (by cases side <;> cbv)
            (by cases side <;> decide) (by cases side <;> decide)
        · exact n.input_sourced hn hp rfl (by constructor) (by cases side <;> cbv)
            (by cases side <;> decide) (by cases side <;> decide)
    · simp only [allSourced_cons, allSourced_nil, and_true]
      and_intros
      all_goals
        exact n.input_sourced hn hp rfl (by constructor) (by cases side <;> cbv)
          (by cases side <;> decide) (by cases side <;> decide)

/-! ## Entries -/

theorem freshInput_named {program : Program} (hstem : (stem : Ident).field? = some field) :
    (freshInput program stem).field? = some field := by
  obtain ⟨number, hfresh⟩ := exists_freshInput program stem
  rw [hfresh]
  exact hstem

/-- Entries of nodes among the given ones, with what their payloads say. -/
def AreIndicators (nodes : List Node) (entries : List (Node × Signal × Indicator)) : Prop :=
  ∀ e ∈ entries, e.1 ∈ nodes ∧ e.1.data.payload = .indicator e.2.1 e.2.2

theorem indicatorPart_sourced
    (hentries : AreIndicators nodes entries) {i : Nat} {entry : Node × Signal × Indicator}
    (hentry : entry ∈ entries) (program : Program) :
    AllSourced s nodes (indicatorPart entries i entry program).inputs := by
  have hfield (e : Node × Signal × Indicator) (he : e ∈ entries) :
      e.1.data.payload.encode.find? "minEmaSeparation" = some (.float e.2.1.minEmaSeparation) ∧
      e.1.data.payload.encode.find? "pullbackMaxDistance" =
        some (.float e.2.1.pullbackMaxDistance) := by
    rw [(hentries e he).2]
    cases e.2.2 <;> exact ⟨rfl, rfl⟩
  obtain ⟨n, signal, indicator⟩ := entry
  simp only [indicatorPart]
  split
  · rename_i fast slow hpair
    split
    · split
      · have hleg : entries.getD fast (n, signal, indicator) ∈ entries := by
          rw [getD_eq_getElem?_getD]
          cases hget : entries[fast]? with
          | none => exact hentry
          | some e => exact mem_of_getElem? hget
        simp only [allSourced_cons, allSourced_nil, and_true]
        exact Node.input_sourced (hentries _ hleg).1 rfl (hfield _ hleg).1 (.double _)
          (freshInput_named (by cbv)) (by decide) (by decide)
      · exact allSourced_nil
    · exact allSourced_nil
  · split
    · exact allSourced_nil
    · split
      · simp only [allSourced_cons, allSourced_nil, and_true]
        exact Node.input_sourced (hentries _ hentry).1 rfl (hfield _ hentry).2 (.double _)
          (freshInput_named (by cbv)) (by decide) (by decide)
      · exact allSourced_nil
    · exact allSourced_nil

theorem signalParts_sourced (hentries : AreIndicators nodes entries) :
    ∀ (i : Nat) (rest : List (Node × Signal × Indicator)) (program : Program),
      (∀ e ∈ rest, e ∈ entries) → AllSourced s nodes (signalParts entries i rest program).inputs
  | _, [], _, _ => allSourced_nil
  | i, entry :: rest, program, hrest => by
    rw [forall_mem_cons] at hrest
    rw [signalParts]
    exact allSourced_append.mpr ⟨indicatorPart_sourced hentries hrest.1 program,
      signalParts_sourced hentries (i + 1) rest _ hrest.2⟩

theorem areIndicators_of_mapM
    (hnodes : ∀ m ∈ indicators, m ∈ nodes) (h : indicators.mapM Node.indicator? = some entries) :
    AreIndicators nodes entries := by
  intro e he
  obtain ⟨i, hi⟩ := getElem?_of_mem he
  obtain ⟨m, hm, hindicator⟩ := getElem?_of_mapM_indicator? h hi
  rw [Node.indicator?] at hindicator
  split at hindicator
  · rename_i signal indicator hp
    cases hindicator
    exact ⟨hnodes m (mem_of_getElem? hm), hp⟩
  · cases hindicator

theorem allConditions_sourced (hnodes : ∀ m ∈ indicators, m ∈ nodes) (priceAction : List Node)
    (program : Program) : AllSourced s nodes (allConditions indicators priceAction program).1 := by
  rw [allConditions]
  split
  · exact allSourced_nil
  · rename_i entries hentries
    have hparts := signalParts_sourced (s := s) (areIndicators_of_mapM hnodes hentries) 0 entries
      program fun _ he => he
    simp only
    split <;> exact hparts

theorem dailyLimits_sourced : AllSourced s nodes (dailyLimits s).inputs := by
  simp only [dailyLimits, allSourced_append]
  refine ⟨allSourced_ite ?_, allSourced_ite ?_⟩
  all_goals simp only [allSourced_cons, allSourced_nil, and_true]
  · exact .of_labels (by decide) (.setting .profit)
  · exact .of_labels (by decide) (.setting .loss)

theorem pendingNeeds_sourced (program : Program) :
    AllSourced s nodes (pendingNeeds program).inputs := by
  simp only [pendingNeeds]
  split
  · exact allSourced_nil
  · simp only [allSourced_cons, allSourced_nil, and_true]
    exact .of_labels (by decide) (.constant .expiry)

theorem entryOpening_sourced (ctx : Context) (orders : Orders) (c : Conditions) :
    AllSourced ctx.settings nodes (entryOpening ctx orders c).inputs := by
  simp only [entryOpening, append_inputs, nil_append, allSourced_append]
  constructor
  · split <;> exact allSourced_nil
  · split
    · exact dailyLimits_sourced
    · exact allSourced_nil

theorem entryOrders_sourced (ctx : Context) (program : Program) (inputs : List Input)
    (sizes : List (Side × Sizing)) (priceAction : List Node) :
    AllSourced s nodes (entryOrders ctx program inputs sizes priceAction).code.inputs := by
  simp only [entryOrders, append_inputs, allSourced_append]
  refine ⟨⟨?_, allSourced_nil⟩, ?_⟩
  · split
    · exact allSourced_nil
    · exact pendingNeeds_sourced _
  · split <;> exact allSourced_nil

theorem emitEntry_sourced (hnodes : ∀ m ∈ indicators, m ∈ nodes) (priceAction : List Node)
    (orders : Orders) (ctx : Context) (program : Program) :
    AllSourced ctx.settings nodes
      (emitEntry indicators priceAction orders ctx program).code.inputs := by
  have hconditions := allConditions_sourced (s := ctx.settings) hnodes priceAction program
  simp only [emitEntry]
  split
  · exact allSourced_nil
  · split
    · rename_i inputs f hall
      rwa [hall] at hconditions
    · rename_i inputs c hall
      rw [hall] at hconditions
      have hopened : AllSourced ctx.settings nodes
          ({ inputs } ++ entryOpening ctx orders c : Program).inputs :=
        allSourced_append.mpr ⟨hconditions, entryOpening_sourced ctx orders c⟩
      split
      · exact hopened
      · exact allSourced_append.mpr ⟨hopened, entryOrders_sourced ctx program inputs _ priceAction⟩

/-! ## Exits and rules -/

theorem timeExitGroup_label : ∀ g ∈ timeExitGroup, isLabel g = true := by
  decide

theorem closeTimeCheck_sourced {p : TimeExit} (hn : n ∈ nodes)
    (hp : n.data.payload = .trading (.timeExit p)) (i : Nat) (ctx : Context) (program : Program) :
    AllSourced s nodes (closeTimeCheck n p i ctx program).inputs := by
  simp only [closeTimeCheck]
  split
  · exact allSourced_nil
  · simp only [allSourced_cons, allSourced_nil, and_true]
    constructor
    all_goals
      exact n.input_sourced hn hp rfl (by constructor) (by cbv) (by decide) timeExitGroup_label

theorem closeTimeChecks_sourced (ctx : Context) :
    ∀ (i : Nat) (ns : List Node) (program : Program), (∀ m ∈ ns, m ∈ nodes) →
      AllSourced s nodes (closeTimeChecks ctx i ns program).1.inputs
  | _, [], _, _ => allSourced_nil
  | i, n :: ns, program, h => by
    rw [forall_mem_cons] at h
    rw [closeTimeChecks]
    split
    · exact closeTimeChecks_sourced ctx (i + 1) ns program h.2
    · rename_i p hclose
      have hp : n.data.payload = .trading (.timeExit p) := by
        rw [Node.closeTime?] at hclose
        split at hclose
        · rename_i q hq
          split at hclose
          · cases hclose
            exact hq
          · cases hclose
        · cases hclose
      exact allSourced_append.mpr ⟨closeTimeCheck_sourced h.1 hp i ctx program,
        closeTimeChecks_sourced ctx (i + 1) ns _ h.2⟩

theorem emitCloseTimeGate_sourced {ns : List Node} (hnodes : ∀ m ∈ ns, m ∈ nodes) (ctx : Context)
    (program : Program) : AllSourced s nodes (emitCloseTimeGate ns ctx program).code.inputs := by
  have hchecks := closeTimeChecks_sourced (s := s) ctx 0 ns program hnodes
  rw [emitCloseTimeGate]
  split
  · exact allSourced_nil
  · rename_i code flags hcode
    rw [hcode] at hchecks
    exact allSourced_append.mpr ⟨hchecks, allSourced_nil⟩

theorem emitTimeExit_sourced (hn : n ∈ nodes) (i : Nat) (ctx : Context) (program : Program) :
    AllSourced s nodes (emitTimeExit n i ctx program).code.inputs := by
  rw [emitTimeExit]
  split
  case h_2 => exact allSourced_nil
  case h_1 p hp =>
    simp only [append_inputs, nil_append]
    cases p.exitMode with
    | bars =>
      simp only [closeAfterBars, allSourced_cons, allSourced_nil, and_true]
      exact n.input_sourced hn hp rfl (by constructor) (by cbv) (by decide) timeExitGroup_label
    | closeAtTime =>
      exact allSourced_append.mpr ⟨closeTimeCheck_sourced hn hp i ctx program, allSourced_nil⟩

open Rule

theorem isLabel_ruleComment (k : RuleNumber) {text : String} (h : isLabel text = true) :
    isLabel (k.comment text) = true := by
  cases k with
  | none => exact h
  | some m => simp +decide [RuleNumber.comment, h]

theorem Node.ruleInput_sourced {group : String} {k : RuleNumber} {v : Json} (hn : n ∈ nodes)
    (hp : n.data.payload = payload) (hfield : payload.encode.find? field = some v)
    (htyped : Typed type value v)
    (hname : (stem : Ident).field? = some field) (hcomment : isLabel comment = true)
    (hgroup : isLabel group = true) :
    (n.input field (k.name stem) type value (k.comment comment) (some group)).Sourced s nodes :=
  n.input_sourced hn hp hfield htyped hname (isLabel_ruleComment k hcomment)
    fun _ hg => Option.some.inj hg ▸ hgroup

theorem managementCode_sourced {rule : Management} (hn : n ∈ nodes)
    (hp : n.data.payload = .management rule) (program : Program) :
    AllSourced s nodes (managementCode n program rule).inputs := by
  cases rule
  case multiTarget p =>
    have htable : (if program.mentions "SMLTPState" then {} else levelTable).inputs = [] := by
      split <;> rfl
    simp only [managementCode, targetsCode, levelInputs, ruleCode, append_inputs, htable,
      append_nil, allSourced_append, allSourced_cons, allSourced_nil, and_true]
    and_intros
    all_goals
      exact n.ruleInput_sourced hn hp rfl (by constructor) (by cbv) (by simp +decide) (by decide)
  case' breakeven p =>
    simp only [managementCode, breakevenCode]
    cases p.trigger
  case' trailing p =>
    simp only [managementCode, trailingCode]
    cases p.method
  case' partialClose p =>
    simp only [managementCode, partialCode]
    cases p.triggerMethod
  case' lockProfit p =>
    simp only [managementCode, lockCode]
    cases p.method
  all_goals
    simp only [ruleCode, ruleAtr, AtrNames.setup, append_inputs, append_nil,
      allSourced_append, allSourced_cons, allSourced_nil, and_true]
    and_intros
  all_goals
    exact n.ruleInput_sourced hn hp rfl (by constructor) (by cbv) (by decide) (by decide)

theorem emitManagement_sourced (hn : n ∈ nodes) (program : Program) :
    AllSourced s nodes (emitManagement n program).code.inputs := by
  rw [emitManagement]
  split
  case h_2 => exact allSourced_nil
  case h_1 rule hp => exact managementCode_sourced hn hp program

end Sourced

/-! ## Whole programs -/

theorem generalInputs_sourced : AllSourced s nodes (generalInputs s).inputs := by
  simp only [generalInputs, allSourced_cons, allSourced_nil, and_true]
  exact ⟨.of_labels (by decide) (.setting .magic), .of_labels (by decide) (.setting .comment),
    .of_labels (by decide) (.constant .slippage)⟩

theorem mem_of_order {side : Side} {n : Node} (h : (Roles.ofNodes nodes).orders.of side = some n) :
    n ∈ nodes := by
  cases side <;> exact mem_of_mem_filter (mem_of_head? h)

theorem Planned.sourced {edges : List Edge} {known : List String} {ctx : Context} {step : Step}
    (h : Planned (Roles.ofNodes nodes) edges known ctx step) (program : Program) :
    AllSourced ctx.settings nodes (step program).code.inputs := by
  have hnodes {role : Role} : ∀ m ∈ withRole role nodes, m ∈ nodes :=
    fun m hm => mem_of_mem_filter hm
  have hplace {role : Role} {i : Nat} {m : Node} (hm : (withRole role nodes)[i]? = some m) :
      m ∈ nodes := hnodes m (mem_of_getElem? hm)
  have hhead {role : Role} {m : Node} (hm : (withRole role nodes).head? = some m) : m ∈ nodes :=
    hnodes m (mem_of_head? hm)
  cases h with
  | spread => exact allSourced_of_names (emitSpread_names _)
  | timing => exact allSourced_of_names (emitTiming_names _)
  | closeTimeGate => exact emitCloseTimeGate_sourced hnodes ctx program
  | indicator hn => exact emitIndicator_sourced (hplace hn)
  | priceAction hn => exact emitPriceAction_sourced (hplace hn)
  | stopLoss _ hn => exact emitStopLoss_sourced (hhead hn) _ _ _ _ _
  | noStop => exact allSourced_nil
  | takeProfit _ hn => exact emitTakeProfit_sourced (hhead hn) program
  | noTarget => exact allSourced_nil
  | order hn => exact emitOrder_sourced (mem_of_order hn) _ program
  | entry => exact emitEntry_sourced hnodes _ _ ctx program
  | closeCondition => exact allSourced_of_names (emitCloseCondition_names _ _ _ _ _)
  | timeExit hn => exact emitTimeExit_sourced (hplace hn) _ ctx program

/-- **Every input of a compiled program has a source**: a field of a live node, a setting, or a
constant. -/
theorem Graph.sourced {g : Graph} {project : String} {options : Options} {c : Compiled}
    (h : (g.compile project options).result = .ok c) :
    AllSourced c.context.settings g.liveNodes c.program.inputs :=
  (Graph.run_of_roles h).invariant
    (I := fun p => AllSourced c.context.settings g.liveNodes p.inputs)
    (fun _ hs m hm _ => allSourced_append.mpr ⟨hm, by
      rcases mem_laterSteps_iff.mp hs with hs | ⟨n, hn, rfl⟩ | rfl
      · exact hs.sourced m
      · exact emitManagement_sourced (mem_of_mem_filter hn) m
      · exact allSourced_of_names (emitPass_names m)⟩)
    generalInputs_sourced

end TradeGraph

import TradeGraph.Proofs.ClosedIndicators

/-!
# Closed price action

The code of a price action node refers to what it declares, in turn: most of its variables are
declared by the lines that run on every tick. Other code reads its flags.
-/

namespace TradeGraph

open List Mql Mql.Platform

variable {σ : Scope}

variable {tf : Expr} {i : Nat} {n : Node} {timeframe : Option String} {action : PriceAction}
    {p : RangeBreakout}

/-! ## Support and resistance -/

theorem sessionRange_closed (hname : σ.HasFunction sessionRange.name) :
    sessionRange.Closed σ.loose := by
  simpa +decide [Function.closed_iff, sessionRange] using hname

theorem findLevels_closed (hname : σ.HasFunction findLevels.name) : findLevels.Closed σ.loose := by
  simpa +decide [Function.closed_iff, findLevels, eachLevel, addLevel] using hname

theorem isWord_paVar {tail : String} (h : isTail tail = true) : isWord (paVar i tail).text = true :=
  isWord_text (show isWord "pa" = true by decide) h

theorem levelCode_closed {p : SupportResistance} (h : σ.Covers (levelCode n i timeframe p)) :
    (levelCode n i timeframe p).ClosedIn σ := by
  have hinputs := h.inputs
  have hvars := h.globals
  have hfind : σ.HasFunction findLevels.name := h.hasFunction (by simp [levelCode]) (by decide)
  simp only [levelCode, forall_mem_cons, Node.name_intInput, Node.name_doubleInput,
    Global.name_scalar] at hinputs hvars
  have hcall : σ.HasFunction "FindSupportResistance" := hfind
  simp +decide [Program.closedIn_iff, levelCode, isNear, isWord_paVar, hinputs, hvars, hcall,
    findLevels_closed hfind]

/-! ## Candle patterns -/

/-- The variables that a pattern reads. -/
def candleTails : CandlePattern → List String
  | .engulfingBullish | .engulfingBearish => ["C1", "O1", "C2", "O2", "Body1", "MinBody"]
  | .doji => ["C2", "O2", "Body1", "Range1", "MinBody"]
  | .hammer | .shootingStar => ["Body1", "MinBody", "Range1", "LowerShadow1", "UpperShadow1"]
  | .morningStar | .eveningStar =>
    ["C1", "O1", "C3", "O3", "Body1", "Body2", "Body3", "MinBody"]
  | .threeWhiteSoldiers | .threeBlackCrows =>
    ["C1", "O1", "C2", "O2", "C3", "O3", "Body1", "Body2", "Body3", "MinBody"]

theorem patternBody_closed {pattern : CandlePattern} (hbuy : σ.HasVar (paVar i "BuySignal"))
    (hsell : σ.HasVar (paVar i "SellSignal"))
    (hread : ∀ t ∈ candleTails pattern, σ.HasVar (paVar i t)) :
    InTurn σ (patternBody i pattern) := by
  cases pattern
  all_goals
    simp only [candleTails, forall_mem_cons] at hread
    simp +decide [patternBody, hbuy, hsell, hread]

theorem repr_bars : Nat.repr 1 = "1" ∧ Nat.repr 2 = "2" ∧ Nat.repr 3 = "3" := by
  decide

/-- The statements that read the last two bars. -/
def candleStart (i : Nat) (tf minBody : Expr) : List Stmt :=
  [.note ("Candlestick Pattern Detection " ++ toString (i + 1)),
    .assign (paVar i "BuySignal") false, .assign (paVar i "SellSignal") false,
    .declare "double" (paVar i "MinBody") minBody] ++
    barPrices i tf 1 ++ barPrices i tf 2 ++
    [barBody i 1, barBody i 2,
      .declare "double" (paVar i "Range1") (.name (paVar i "H1") - .name (paVar i "L1"))]

/-- The variables of the last two bars. -/
def barTails : List String :=
  ["MinBody", "O1", "C1", "H1", "L1", "O2", "C2", "Body1", "Body2", "Range1"]

theorem candleStart_inTurn (htf : ∀ τ : Scope, tf.Closed τ) (minBody : Expr)
    (hbody : minBody.Closed σ) (hbuy : σ.HasVar (paVar i "BuySignal"))
    (hsell : σ.HasVar (paVar i "SellSignal")) :
    InTurn σ (candleStart i tf minBody) ∧
      ∀ t ∈ barTails, (σ.afterAll (candleStart i tf minBody)).HasVar (paVar i t) := by
  constructor
  · simp +decide [candleStart, barPrices, barBody, repr_bars, htf, hbody, hbuy, hsell]
  · simp +decide [barTails, candleStart, barPrices, barBody, repr_bars, Scope.afterAll]

theorem candleMore_inTurn (htf : ∀ τ : Scope, tf.Closed τ)
    (hbars : ∀ t ∈ barTails, σ.HasVar (paVar i t)) (shadows triple : Bool) :
    InTurn σ ((if shadows then barShadows i else []) ++ (if triple then thirdBar i tf else [])) ∧
      ∀ pattern : CandlePattern, (pattern.usesShadows = true → shadows = true) →
        (pattern.isTriple = true → triple = true) → ∀ t ∈ candleTails pattern,
        (σ.afterAll ((if shadows then barShadows i else []) ++
          (if triple then thirdBar i tf else []))).HasVar (paVar i t) := by
  simp only [barTails, forall_mem_cons] at hbars
  cases shadows <;> cases triple
  all_goals
    refine ⟨?_, fun pattern hshadows htriple => ?_⟩
    · simp +decide [barShadows, thirdBar, barBody, repr_bars, htf, hbars]
    · cases pattern <;>
        simp_all +decide [candleTails, barShadows, thirdBar, barBody, repr_bars, Scope.afterAll]

theorem candleCode_closed {p : CandlestickPatterns} (h : σ.Covers (candleCode n i timeframe p)) :
    (candleCode n i timeframe p).ClosedIn σ := by
  have hinputs := h.inputs
  have hvars := h.globals
  simp only [candleCode, forall_mem_cons, Node.name_doubleInput, Global.name_scalar]
    at hinputs hvars
  let patterns := distinctPatterns p.patterns
  let shadows := patterns.any CandlePattern.usesShadows
  let triple := patterns.any CandlePattern.isTriple
  let tf := periodOf timeframe
  let minBody : Expr := .name ⟨"InpCP", some i, "MinBody"⟩ * pipFactor * point
  have htf : ∀ τ : Scope, tf.Closed τ := fun _ => closed_periodOf timeframe
  obtain ⟨hstart, hbars⟩ :=
    candleStart_inTurn htf minBody (by simp +decide [minBody, hinputs]) hvars.1 hvars.2.1
  obtain ⟨hmore, htails⟩ := candleMore_inTurn htf hbars shadows triple
  -- the patterns come last, and each finds what it reads
  have hpatterns : InTurn ((σ.afterAll (candleStart i tf minBody)).afterAll
      ((if shadows then barShadows i else []) ++ (if triple then thirdBar i tf else [])))
      ([.blank] ++ patterns.flatMap (patternBody i) ++ [.blank]) := by
    refine InTurn.append (InTurn.append (by simp) (InTurn.flatMap fun pattern hpattern => ?_))
      (by simp)
    have hkeeps {x : Ident} (hx : σ.HasVar x) := ((σ.le_afterAll _).vars.trans
      ((σ.afterAll (candleStart i tf minBody)).le_afterAll
      ((if shadows then barShadows i else []) ++
        (if triple then thirdBar i tf else []))).vars) hx
    exact patternBody_closed (hkeeps hvars.1) (hkeeps hvars.2.1)
      (htails pattern (fun hs => any_eq_true.mpr ⟨pattern, hpattern, hs⟩)
        fun ht => any_eq_true.mpr ⟨pattern, hpattern, ht⟩)
  have htick : (candleCode n i timeframe p).tick = candleStart i tf minBody ++
      ((if shadows then barShadows i else []) ++ (if triple then thirdBar i tf else [])) ++
      ([.blank] ++ patterns.flatMap (patternBody i) ++ [.blank]) := by
    simp only [candleCode, candleStart, append_assoc, patterns, shadows, triple, tf, minBody]
  refine Program.closedIn_iff.mpr ⟨?_, trivial, trivial, ?_, by simp [candleCode], trivial, trivial,
    trivial⟩
  · simp +decide [candleCode, isWord_paVar]
  · rw [htick, append_assoc, InTurn.append_iff, InTurn.append_iff]
    exact ⟨hstart, hmore, hpatterns⟩

/-! ## Range breakouts -/

/-- The variables of a range that its code sets. -/
def rangeTails : List String :=
  ["High", "Low", "Size", "Valid", "BreakoutUp", "BreakoutDown"]

section Range

variable {i : Nat} {p : RangeBreakout} (hvars : ∀ t ∈ rangeTails, σ.HasVar (paVar i t))

include hvars

theorem candleRange_inTurn (htf : ∀ τ : Scope, tf.Closed τ)
    (hlookback : σ.HasInput (rangeInput i "Lookback")) : InTurn σ (candleRange i tf) := by
  simp only [rangeTails, forall_mem_cons] at hvars
  simp +decide [candleRange, htf, hlookback, hvars]

theorem windowRange_closed (htf : tf.Closed σ) (hfunction : σ.HasFunction sessionRange.name)
    (hwindow : sessionWindow? p = none →
      ∀ t ∈ ["StartHour", "StartMin", "EndHour", "EndMin"], σ.HasInput (rangeInput i t)) :
    (windowRange i tf p).Closed σ := by
  have hcall : σ.HasFunction "GetSessionRange" := hfunction
  simp only [rangeTails, forall_mem_cons] at hvars
  cases hw : sessionWindow? p with
  | some w => simp +decide [windowRange, hw, htf, hcall, hvars]
  | none =>
    have hinputs := hwindow hw
    simp only [forall_mem_cons] at hinputs
    simp +decide [windowRange, hw, htf, hcall, hvars, hinputs]

theorem breakoutFlag_closed {tail : String} (htail : tail ∈ rangeTails) {counts : Bool}
    {parts : List Expr} (hparts : Expr.AllClosed σ parts) :
    (breakoutFlag i tail counts parts).Closed σ := by
  have hflag : σ.Has (paVar i tail) :=
    (σ.has_paVar ((by decide : ∀ t ∈ rangeTails, isTail t = true) tail htail)).mpr
    (hvars tail htail)
  have hvalid := hvars "Valid" (by decide)
  cases counts <;> simp +decide [breakoutFlag, hflag, hvalid, hparts]

theorem breakout_closed (htf : tf.Closed σ) (mode : BreakoutMode)
    (hbuffer : σ.HasInput (rangeInput i "Buffer")) :
    Expr.AllClosed σ (breakoutAbove i tf mode) ∧ Expr.AllClosed σ (breakoutBelow i tf mode) := by
  simp only [rangeTails, forall_mem_cons] at hvars
  cases mode <;>
    simp +decide [breakoutAbove, breakoutBelow, rangeBuffer, htf, hbuffer, hvars]

theorem rangeValid_closed (hmin : σ.HasInput (rangeInput i "MinRange"))
    (hmax : p.isLimited = true → σ.HasInput (rangeInput i "MaxRange")) :
    (rangeValid i p).Closed σ := by
  simp only [rangeTails, forall_mem_cons] at hvars
  cases hlimited : p.isLimited with
  | false => simp +decide [rangeValid, hlimited, hmin, hvars]
  | true => simp +decide [rangeValid, hlimited, hmin, hmax hlimited, hvars]

end Range

structure Mql.Scope.HasRange (σ : Scope) (i : Nat) (p : RangeBreakout) : Prop where
  vars : ∀ t ∈ rangeTails, σ.HasVar (paVar i t)
  buffer : σ.HasInput (rangeInput i "Buffer")
  smallest : σ.HasInput (rangeInput i "MinRange")
  largest : p.isLimited = true → σ.HasInput (rangeInput i "MaxRange")
  lookback : p.rangeType = .previousCandles → σ.HasInput (rangeInput i "Lookback")
  window : p.rangeType ≠ .previousCandles → sessionWindow? p = none →
    ∀ t ∈ ["StartHour", "StartMin", "EndHour", "EndMin"], σ.HasInput (rangeInput i t)
  function : p.rangeType ≠ .previousCandles → σ.HasFunction sessionRange.name

theorem rangeCode_helpers :
    (rangeCode n i timeframe p).helpers =
      if p.rangeType == .previousCandles then [] else [.ofFunction sessionRange] := rfl

theorem rangeCode_globals :
    (rangeCode n i timeframe p).globals =
      [.scalar "double" (paVar i "High") none none, .scalar "double" (paVar i "Low") none none,
        .scalar "double" (paVar i "Size") none none, .scalar "bool" (paVar i "Valid") none none,
        .scalar "bool" (paVar i "BreakoutUp") none none,
        .scalar "bool" (paVar i "BreakoutDown") none none] := rfl

theorem hasRange_of_covers (h : σ.Covers (rangeCode n i timeframe p)) : σ.HasRange i p := by
  have hinputs := h.inputs
  have hvars := h.globals
  rw [rangeCode_globals] at hvars
  simp only [forall_mem_cons, Global.name_scalar] at hvars
  simp only [rangeCode, rangeSizeInputs, windowInputs, mem_append, or_imp, forall_and,
    beq_iff_eq] at hinputs
  obtain ⟨⟨hlookback, ⟨hsizes, hlimit⟩⟩, hwindow⟩ := hinputs
  simp only [forall_mem_cons, Node.name_doubleInput] at hsizes
  refine ⟨by simpa [rangeTails] using hvars, hsizes.1, hsizes.2.1, fun hlimited => ?_,
    fun hcandles => ?_, fun hcandles hnone => ?_, fun hcandles => ?_⟩
  · rw [if_pos hlimited, forall_mem_singleton, Node.name_doubleInput] at hlimit
    exact hlimit
  · rw [if_pos hcandles, forall_mem_singleton, Node.name_intInput] at hlookback
    exact hlookback
  · have htunable : (!p.rangeType == .previousCandles && (sessionWindow? p).isNone) = true := by
      simp [hcandles, hnone]
    rw [if_pos htunable] at hwindow
    simpa using hwindow
  · refine h.hasFunction ?_ (by decide)
    rw [rangeCode_helpers, if_neg (fun heq => hcandles (beq_iff_eq.mp heq))]
    exact mem_cons_self

theorem rangeCode_closed (h : σ.Covers (rangeCode n i timeframe p)) :
    (rangeCode n i timeframe p).ClosedIn σ := by
  have hrange := hasRange_of_covers h
  have hvars := hrange.vars
  simp only [rangeTails, forall_mem_cons] at hvars
  obtain ⟨habove, hbelow⟩ :=
    breakout_closed hrange.vars (closed_periodOf timeframe) p.entryMode hrange.buffer
  have hmeasure : InTurn σ (if p.rangeType == .previousCandles then
      candleRange i (periodOf timeframe) else [windowRange i (periodOf timeframe) p]) := by
    by_cases hcandles : p.rangeType = .previousCandles
    · rw [if_pos (beq_iff_eq.mpr hcandles)]
      exact candleRange_inTurn hrange.vars (fun _ => closed_periodOf timeframe)
        (hrange.lookback hcandles)
    · rw [if_neg (fun heq => hcandles (beq_iff_eq.mp heq))]
      have hclosed := windowRange_closed hrange.vars (closed_periodOf timeframe)
        (hrange.function hcandles) (hrange.window hcandles)
      exact Stmt.inTurn_of_closed (by simpa using ⟨rfl, hclosed⟩)
  refine Program.closedIn_iff.mpr ⟨?_, trivial, trivial, ?_, ?_, trivial, trivial, trivial⟩
  · rw [rangeCode_globals]
    simp +decide [isWord_paVar]
  · refine InTurn.append (InTurn.append (InTurn.append (InTurn.append ?_ hmeasure) ?_) ?_) ?_
    · simp +decide
    · have hvalid := rangeValid_closed hrange.vars hrange.smallest hrange.largest
      simp +decide [hvars, hvalid]
    · split
      · simp +decide
      · trivial
    · refine Stmt.inTurn_of_closed ?_
      simp only [forall_mem_cons]
      exact ⟨⟨rfl, breakoutFlag_closed hrange.vars (by decide) habove⟩,
        ⟨rfl, breakoutFlag_closed hrange.vars (by decide) hbelow⟩, ⟨rfl, trivial⟩, by simp⟩
  · by_cases hcandles : p.rangeType = .previousCandles
    · rw [rangeCode_helpers, if_pos (beq_iff_eq.mpr hcandles)]
      simp
    · have hclosed := sessionRange_closed (hrange.function hcandles)
      rw [rangeCode_helpers, if_neg (fun heq => hcandles (beq_iff_eq.mp heq))]
      simp +decide [hclosed]

/-! ## Price action nodes -/

def priceActionCode (n : Node) (i : Nat) (timeframe : Option String) : PriceAction → Program
  | .rangeBreakout p => rangeCode n i timeframe p
  | .candlestickPattern p => candleCode n i timeframe p
  | .supportResistance p => levelCode n i timeframe p

theorem priceActionCode_closed (h : σ.Covers (priceActionCode n i timeframe action)) :
    (priceActionCode n i timeframe action).ClosedIn σ := by
  cases action with
  | rangeBreakout p => exact rangeCode_closed h
  | candlestickPattern p => exact candleCode_closed h
  | supportResistance p => exact levelCode_closed h

/-- The flags of a price action node that other code reads. -/
def flagTails : PriceAction → List String
  | .rangeBreakout _ => ["High", "Low", "BreakoutUp", "BreakoutDown"]
  | .candlestickPattern _ => ["BuySignal", "SellSignal"]
  | .supportResistance _ => ["NearSupport", "NearResistance"]

def Mql.Scope.HasAction (σ : Scope) (i : Nat) (action : PriceAction) : Prop :=
  ∀ t ∈ flagTails action, σ.HasVar (paVar i t)

theorem hasAction_of_covers (h : σ.Covers (priceActionCode n i timeframe action)) :
    σ.HasAction i action := by
  have hvars := h.globals
  cases action
  all_goals
    simp only [priceActionCode, rangeCode, candleCode, levelCode, forall_mem_cons,
      Global.name_scalar] at hvars
    simp [Scope.HasAction, flagTails, hvars]

theorem PriceAction.conditions_closed (h : σ.HasAction i action) :
    (action.conditions i).Closed σ := by
  cases action
  all_goals
    simp only [Scope.HasAction, flagTails, forall_mem_cons] at h
    exact Conditions.one_closed (by simp +decide [h]) (by simp +decide [h])

theorem PriceAction.reversal_closed (h : σ.HasAction i action) : (action.reversal i).Closed σ := by
  cases action with
  | rangeBreakout p =>
    simp only [Scope.HasAction, flagTails, forall_mem_cons] at h
    constructor
    · show Expr.AllClosed σ (if _ then _ else _)
      split <;> simp +decide [h]
    · show Expr.AllClosed σ (if _ then _ else _)
      split <;> simp +decide [h]
  | candlestickPattern p =>
    simp only [Scope.HasAction, flagTails, forall_mem_cons] at h
    exact Conditions.one_closed (by simp +decide [h]) (by simp +decide [h])
  | supportResistance p =>
    simp only [Scope.HasAction, flagTails, forall_mem_cons] at h
    exact Conditions.one_closed (by simp +decide [h]) (by simp +decide [h])

end TradeGraph

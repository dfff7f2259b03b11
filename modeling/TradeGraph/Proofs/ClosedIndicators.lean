import TradeGraph.Proofs.ClosedLibrary

/-!
# Closed indicators

The code of an indicator refers to what it declares. Its conditions refer to its buffers and to
inputs of its own.
-/

namespace TradeGraph

open List Mql Mql.Platform

variable {σ : Scope}
variable {x : Ident} {what : String} {create : Expr} {buffers : List String}
  {timeframe : Option String} {signal : Signal}

variable {indicator : Indicator} {i : Nat} {n : Node} {group : Option String}
    {comment field : String}

/-! ## Inputs of nodes -/

@[simp] theorem Node.name_input {type : String} {value : Scalar} :
    (n.input field x type value comment group).name = x := rfl

@[simp] theorem Node.name_intInput {value : Int} :
    (n.intInput field x value comment group).name = x := rfl

@[simp] theorem Node.name_doubleInput {value : Float} :
    (n.doubleInput field x value comment group).name = x := rfl

/-! ## Indicators -/

@[simp] theorem closed_periodOf (timeframe : Option String) : (periodOf timeframe).Closed σ := by
  have hplain : ∀ t ∈ timeframes, isPlain ("PERIOD_" ++ t) = true := by decide
  have hcurrent : isPlain "PERIOD_CURRENT" = true := by decide
  show σ.Has ⟨period (timeframe.getD ""), none, ""⟩
  refine σ.has_plain ?_
  rw [period]
  split
  · exact hplain _ (contains_iff_mem.mp ‹_›)
  · exact hcurrent

@[simp] theorem closed_priceOf (p : PriceField) : (priceOf p).Closed σ := by
  cases p <;> exact σ.has_plain (by decide)

@[simp] theorem closed_smoothingOf (s : Smoothing) : (smoothingOf s).Closed σ := by
  cases s <;> exact σ.has_plain (by decide)

@[simp] theorem closed_stochasticPriceOf (p : StochasticPrice) :
    (stochasticPriceOf p).Closed σ := by
  cases p <;> exact σ.has_plain (by decide)

/-- The handle and the buffers of an indicator are known where its code is covered. -/
theorem has_of_covers_parts (h : σ.Covers (indicatorParts i what create buffers)) :
    σ.HasVar (indHandle i) ∧ ∀ b ∈ buffers, σ.HasVar (indVar i b) := by
  refine ⟨h.globals (.scalar "int" (indHandle i) none none) mem_cons_self, fun b hb => ?_⟩
  exact h.globals (.array "double" (indVar i b) none)
    (mem_cons_of_mem _ (mem_map.mpr ⟨b, hb, rfl⟩))

theorem indicatorParts_closed
    (hcreate : create.Closed σ.loose) (hbuffers : ∀ b ∈ buffers, isTail b = true)
    (h : σ.Covers (indicatorParts i what create buffers)) :
    (indicatorParts i what create buffers).ClosedIn σ := by
  have hhandle : σ.Has (indHandle i) :=
    (σ.has_indVar (by decide)).mpr (has_of_covers_parts h).1
  have hbuffer : ∀ b ∈ buffers, σ.Has (indVar i b) := fun b hb =>
    (σ.has_indVar (hbuffers b hb)).mpr ((has_of_covers_parts h).2 b hb)
  have hle := σ.le_loose
  refine Program.closedIn_iff.mpr ⟨?_, ?_, ?_, ?_, by simp [indicatorParts],
    by simp [indicatorParts], by simp [indicatorParts], by simp [indicatorParts]⟩
  · intro g hg
    rcases mem_cons.mp hg with rfl | hg
    · simp +decide [hhandle.1]
    · obtain ⟨b, hb, rfl⟩ := mem_map.mp hg
      simp +decide [(hbuffer b hb).1]
  · have hseries : Stmt.AllClosed σ.loose (buffers.map fun b =>
        .run (.call "ArraySetAsSeries" [indVar i b, true])) := by
      rw [Stmt.allClosed_iff]
      intro s hs
      obtain ⟨b, hb, rfl⟩ := mem_map.mp hs
      simp +decide [(hbuffer b hb).mono hle]
    simp +decide [indicatorParts, hhandle.mono hle, hcreate, hseries]
  · simp +decide [indicatorParts, hhandle.mono hle]
  · refine Stmt.inTurn_of_closed fun s hs => ?_
    obtain ⟨⟨b, k⟩, hb, rfl⟩ := mem_map.mp hs
    exact ⟨rfl, closed_copyBuffer hhandle (hbuffer b (fst_mem_of_mem_zipIdx hb)) k copiedBars⟩

theorem closedIn_inputs (is : List Input) (bars : Nat) :
    Program.ClosedIn σ { inputs := is, bars } := by
  simp [Program.closedIn_iff]

theorem indicatorCode_closed (h : σ.Covers (indicatorCode n i timeframe indicator)) :
    (indicatorCode n i timeframe indicator).ClosedIn σ := by
  cases indicator
  all_goals
    obtain ⟨hinputs, hparts⟩ := Scope.covers_append.mp h
    have hnames := hinputs.inputs
    simp only [forall_mem_cons, Node.name_intInput, Node.name_doubleInput] at hnames
    refine (closedIn_inputs _ _).append (indicatorParts_closed ?_ (by decide) hparts)
    simp +decide [hnames]

/-- The scope has the buffer, and all bars that are copied into it may be read. -/
def Mql.Scope.HasBuffer (σ : Scope) (x : Ident) : Prop :=
  σ.HasVar x ∧ ∀ k < copiedBars, σ.MayRead x.text k

def Mql.Scope.HasIndicator (σ : Scope) (i : Nat) : Indicator → Prop
  | .movingAverage _ | .atr _ => σ.HasBuffer (indVar i "Buffer")
  | .rsi _ =>
    σ.HasBuffer (indVar i "Buffer") ∧ σ.HasInput (indInput "RSI" i "Overbought") ∧
      σ.HasInput (indInput "RSI" i "Oversold")
  | .cci _ =>
    σ.HasBuffer (indVar i "Buffer") ∧ σ.HasInput (indInput "CCI" i "Overbought") ∧
      σ.HasInput (indInput "CCI" i "Oversold")
  | .stochastic _ =>
    σ.HasBuffer (indVar i "MainBuffer") ∧ σ.HasInput (indInput "Stoch" i "Overbought") ∧
      σ.HasInput (indInput "Stoch" i "Oversold")
  | .macd _ => σ.HasBuffer (indVar i "MainBuffer") ∧ σ.HasBuffer (indVar i "SignalBuffer")
  | .bollingerBands _ => σ.HasBuffer (indVar i "LowerBuffer") ∧ σ.HasBuffer (indVar i "UpperBuffer")
  | .adx _ =>
    σ.HasBuffer (indVar i "MainBuffer") ∧ σ.HasBuffer (indVar i "PlusDIBuffer") ∧
      σ.HasBuffer (indVar i "MinusDIBuffer") ∧ σ.HasInput (indInput "ADX" i "TrendLevel")

theorem hasIndicator_of_covers
    (h : σ.Covers (indicatorCode n i timeframe indicator)) (hσ : σ.elements = none) :
    σ.HasIndicator i indicator := by
  have hread := Scope.mayRead_of_elements hσ
  cases indicator
  all_goals
    obtain ⟨hinputs, hparts⟩ := Scope.covers_append.mp h
    have hnames := hinputs.inputs
    have hbuffers := (has_of_covers_parts hparts).2
    simp only [forall_mem_cons] at hnames hbuffers
    simp_all [Scope.HasIndicator, Scope.HasBuffer]

/-! ## Conditions of indicators -/

def Conditions.Closed (σ : Scope) (c : Conditions) : Prop :=
  Expr.AllClosed σ c.buys ∧ Expr.AllClosed σ c.sells

structure Library.Compares (σ : Scope) : Prop where
  above : σ.HasFunction "DoubleGT"
  below : σ.HasFunction "DoubleLT"
  notBelow : σ.HasFunction "DoubleGE"
  notAbove : σ.HasFunction "DoubleLE"

theorem closed_compares (h : Library.Compares σ) (a b : Expr) :
    ((isAbove a b).Closed σ ↔ a.Closed σ ∧ b.Closed σ) ∧
      ((isBelow a b).Closed σ ↔ a.Closed σ ∧ b.Closed σ) ∧
      ((notBelow a b).Closed σ ↔ a.Closed σ ∧ b.Closed σ) ∧
      ((notAbove a b).Closed σ ↔ a.Closed σ ∧ b.Closed σ) := by
  simp +decide [isAbove, isBelow, notBelow, notAbove, h.above, h.below, h.notBelow, h.notAbove]

@[simp] theorem closed_valueAt {buffer : Ident} {bar : Nat} :
    (valueAt buffer bar).Closed σ ↔ σ.Has buffer ∧ σ.MayRead buffer.text bar := by
  simp [valueAt]

@[simp] theorem closed_chartClose {bar : Nat} : (chartClose bar).Closed σ := by
  simp [chartClose]

theorem Signal.barShift_lt (s : Signal) : s.barShift + 1 < copiedBars := by
  unfold Signal.barShift
  split <;> decide

theorem Signal.barShift_lt' (s : Signal) : s.barShift < copiedBars :=
  Nat.lt_of_succ_lt s.barShift_lt

theorem Conditions.one_closed {buy sell : Expr} (hbuy : buy.Closed σ) (hsell : sell.Closed σ) :
    (Conditions.one buy sell).Closed σ := by
  simp [Conditions.Closed, Conditions.one, hbuy, hsell]

theorem Conditions.append_closed {c d : Conditions} (hc : c.Closed σ) (hd : d.Closed σ) :
    (c ++ d).Closed σ :=
  ⟨Expr.allClosed_append.mpr ⟨hc.1, hd.1⟩, Expr.allClosed_append.mpr ⟨hc.2, hd.2⟩⟩

theorem Indicator.conditions_closed (h : Library.Compares σ)
    (hsignal : σ.HasIndicator i indicator) : (indicator.conditions i signal).Closed σ := by
  have hshift := signal.barShift_lt
  have hshift' := signal.barShift_lt'
  cases indicator <;> simp only [Scope.HasIndicator, Scope.HasBuffer] at hsignal
  all_goals
    refine Conditions.one_closed ?_ ?_
    all_goals
      simp +decide [crossesUp, crossesDown, closed_compares h, hsignal, hshift, hshift']

theorem Indicator.reversal_closed (h : Library.Compares σ)
    (hsignal : σ.HasIndicator i indicator) : (indicator.reversal i signal).Closed σ := by
  have hshift := signal.barShift_lt
  have hshift' := signal.barShift_lt'
  cases indicator <;> simp only [Scope.HasIndicator, Scope.HasBuffer] at hsignal
  case atr => exact ⟨trivial, trivial⟩
  all_goals
    refine Conditions.one_closed ?_ ?_
    all_goals
      simp +decide [crossesUp, crossesDown, closed_compares h, hsignal, hshift, hshift']

end TradeGraph

import TradeGraph.Proofs.Events
import TradeGraph.Proofs.Limits
import TradeGraph.Proofs.Ticks

/-!
# The bars that a program waits for

A program does nothing on a chart that has fewer bars than its guard asks for. The guard knows how
many bars one value of an indicator needs, but not how old the values are that are read: of an
average the values of up to two bars before the newest. It covers all bars that a price action node
takes a price of, but for the retest of a range of one candle.
-/

namespace TradeGraph

open List Mql

variable {p : RangeBreakout}

/-! ## Bars that are fetched -/

def barArgument? (f : String) : Option ℕ :=
  if f ∈ ["iOpen", "iClose", "iHigh", "iLow"] then some 2
  else if f ∈ ["iHighest", "iLowest"] then some 4
  else none

/-- The bar that an event takes a price of, if its number is written out. -/
def Mql.Event.bar? : Event → Option Int
  | .calls f args =>
    match (barArgument? f).bind fun k => args[k]? with
    | some (.lit (.int bar)) => some bar
    | _ => none
  | .sets _ _ => none

/-- The bars that statements take a price of. -/
def fetchedBars (ss : List Stmt) : List Int :=
  (Stmt.allEvents ss).filterMap Event.bar?

theorem fetchedBars_append (ss ts : List Stmt) :
    fetchedBars (ss ++ ts) = fetchedBars ss ++ fetchedBars ts := by
  rw [fetchedBars, Stmt.allEvents_append, filterMap_append]
  rfl

def BreakoutMode.bars : BreakoutMode → List Int
  | .immediate => []
  | .onClose => [1]
  | .afterRetest => [2, 1, 1]

/-- A range of the last candles is searched from the last closed one on; its breakouts look at the
bars of their mode, on each side that counts. -/
theorem rangeCode_fetched (h : p.rangeType = .previousCandles) (n : Node) (i : ℕ)
    (timeframe : Option String) :
    fetchedBars (rangeCode n i timeframe p).tick = [1, 1] ++
      (if p.breakoutDirection = .sellOnLow then [] else p.entryMode.bars) ++
        if p.breakoutDirection = .buyOnHigh then [] else p.entryMode.bars := by
  simp only [rangeCode, h, beq_self_eq_true, if_true, rangeValid]
  cases p.isLimited <;> cases p.entryMode <;> cases p.breakoutDirection <;> rfl

theorem patternBodies_fetched (i : ℕ) (patterns : List CandlePattern) :
    fetchedBars (patterns.flatMap (patternBody i)) = [] := by
  induction patterns with
  | nil => rfl
  | cons pattern patterns ih =>
    rw [flatMap_cons, fetchedBars_append, ih]
    cases pattern <;> rfl

theorem candleCode_fetched (n : Node) (i : ℕ) (timeframe : Option String)
    (p : CandlestickPatterns) :
    fetchedBars (candleCode n i timeframe p).tick = [1, 1, 1, 1, 2, 2, 2, 2] ++
      if (distinctPatterns p.patterns).any CandlePattern.isTriple then [3, 3] else [] := by
  have hblank : fetchedBars [.blank] = [] := rfl
  have hprices (bar : ℕ) : fetchedBars (barPrices i (periodOf timeframe) bar) =
      [(bar : Int), bar, bar, bar] := rfl
  have hshadows (b : Bool) : fetchedBars (if b then barShadows i else []) = [] := by
    cases b <;> rfl
  have hthird (b : Bool) : fetchedBars (if b then thirdBar i (periodOf timeframe) else []) =
      if b then [3, 3] else [] := by
    cases b <;> rfl
  simp only [candleCode, fetchedBars_append, patternBodies_fetched, hblank, hprices, hshadows,
    hthird, append_nil]
  rfl

/-- What a number of bars covers of a price action node, given the bars that it takes prices of. The
retest of a range of one candle looks at an older bar than the range has. -/
def PriceAction.Covered (bars : Int) (fetched : List Int) : PriceAction → Prop
  | .rangeBreakout p => p.rangeType = .previousCandles → p.lookbackCandles + 1 ≤ bars ∧
      ((∀ bar ∈ fetched, bar < bars) ↔ ¬ (p.entryMode = .afterRetest ∧ bars = 2))
  | .supportResistance p => p.lookbackPeriod ≤ bars
  | .candlestickPattern _ => ∀ bar ∈ fetched, bar < bars

section Covered

variable {n : Node} {i : ℕ} {timeframe : Option String} {bars : Int}

theorem rangeCode_covered (hlookback : 1 ≤ p.lookbackCandles)
    (hbars : (rangeCode n i timeframe p).bars ≤ bars) :
    (PriceAction.rangeBreakout p).Covered bars (fetchedBars (rangeCode n i timeframe p).tick) := by
  intro hcandles
  have hcovered : p.lookbackCandles + 1 ≤ bars := by
    have hown : (rangeCode n i timeframe p).bars = (p.lookbackCandles + 1).toNat := by
      show (if p.rangeType == .previousCandles then (p.lookbackCandles + 1).toNat else 0) = _
      rw [hcandles]
      rfl
    rw [hown] at hbars
    exact (Int.self_le_toNat _).trans hbars
  refine ⟨hcovered, ?_⟩
  rw [rangeCode_fetched hcandles]
  -- at least one side counts, so the bars of the mode are among those fetched
  cases p.entryMode <;> cases p.breakoutDirection <;> simp [BreakoutMode.bars] <;> omega

theorem candleCode_covered {p : CandlestickPatterns}
    (hbars : (candleCode n i timeframe p).bars ≤ bars) :
    (PriceAction.candlestickPattern p).Covered bars
    (fetchedBars (candleCode n i timeframe p).tick) := by
  have hown : (candleCode n i timeframe p).bars =
      if (distinctPatterns p.patterns).any CandlePattern.isTriple then 4 else 3 := rfl
  rw [PriceAction.Covered, candleCode_fetched]
  rw [hown] at hbars
  cases htriple : (distinctPatterns p.patterns).any CandlePattern.isTriple
  all_goals
    rw [htriple] at hbars
    simp at hbars ⊢
    omega

end Covered

/-! ## What a program waits for -/

/-- A program waits for as many bars as each step of its run asks for, and has its code. -/
theorem Run.bars_le {ss : List Step} {p q : Program} (h : Run ss p q) {s : Emission}
    (hs : always s ∈ ss) (ctx : Context) :
    (s.code.bars : Int) ≤ q.warmup ctx ∧ s.code.tick <:+: q.tick := by
  obtain ⟨m, rest, -, rfl⟩ := h.exists_of_mem hs
  refine ⟨?_, m.tick, rest.tick, by simp only [Program.append_tick, always]⟩
  have hbars : s.code.bars ≤ (m ++ s.code ++ rest).bars := by
    rw [Program.append_bars, Program.append_bars]
    omega
  have hwarmup : ((m ++ s.code ++ rest).bars : Int) ≤ (m ++ s.code ++ rest).warmup ctx :=
    le_max_right _ _
  exact (Int.ofNat_le.mpr hbars).trans hwarmup

theorem Program.guard_mem_handlerLines (p : Program) (ctx : Context) :
    "if(Bars(_Symbol, PERIOD_CURRENT) < " ++ toString (p.warmup ctx) ++ ") return;" ∈
      p.handlerLines ctx := by
  have hguard : Source.warmupGuard (p.warmup ctx) ∈ Source.tickStart (p.warmup ctx) := by
    simp [Source.tickStart]
  refine mem_append_left _ (Stmt.mem_block hguard ?_)
  rw [warmupGuard_lines]
  exact mem_singleton_self _

/-- How many bars one value of an indicator needs that may be moved by a shift. -/
def Indicator.span? : Indicator → Option Int
  | .movingAverage p => some (p.period + p.shift)
  | .bollingerBands p => some (p.period + p.shift)
  | _ => none

theorem Indicator.span_le {indicator : Indicator} {span : Int} (h : indicator.span? = some span)
    (n : Node) (i : ℕ) (timeframe : Option String) :
    span ≤ (indicatorCode n i timeframe indicator).bars := by
  cases indicator with
  | movingAverage p =>
    cases h
    exact (Int.self_le_toNat _).trans (Int.ofNat_le.mpr (le_max_left _ _))
  | bollingerBands p =>
    cases h
    exact (Int.self_le_toNat _).trans (Int.ofNat_le.mpr (le_max_left _ _))
  | _ => cases h

section Compiles

variable {g : Graph} {project : String} {options : Options} {c : Compiled}

/-- No line for a tick reads a value that is older than those that are copied. -/
theorem Graph.reads_copied (h : (g.compile project options).result = .ok c) {line : String}
    (hline : line ∈ c.program.tickLines) {x : String} {k : ℕ}
    (hread : element x k <:+: tokens line) :
    k < copiedBars := by
  have hserves := Scope.serves_of_all (σ := Scope.reading fun _ k => k < copiedBars)
    (fun _ => trivial) (fun _ => trivial) Scope.reading_compares
    (fun _ _ hk => Scope.mayRead_reading.mpr hk) (r := Roles.ofNodes g.liveNodes)
    (fun _ _ _ _ _ => trivial) fun _ => ⟨trivial, trivial⟩
  have hclosed := Graph.closedIn h hserves (Scope.reading_covers _) trivial
  have hstands := (Stmt.block_stands c.program.tick hclosed.tick.closed_free).stands line hline
  exact (hstands.permits.shows _ rfl).elements x k hread

theorem Graph.lookback_pos {document : Json} (hload : Graph.load document = .ok g) {n : Node}
    (hn : n ∈ g.liveNodes) {timeframe : Option String}
    (hp : n.data.payload = .priceAction timeframe (.rangeBreakout p)) : 1 ≤ p.lookbackCandles := by
  have hkept := Graph.kept_of_mem_expand hload (mem_filter.mp hn).1
  rw [hp] at hkept
  obtain ⟨⟨_, q⟩, hmake, hkeeps⟩ := hkept
  cases hmake
  have hrange := (Bool.and_eq_true_iff.mp ((Codec.keeps_pair _ _ _ _).symm.trans hkeeps)).2
  simp only [Codec.keeps, RangeBreakout.codec, Schema.keeps, FieldType.keeps,
    Bool.and_eq_true] at hrange
  have hbounds := hrange.2.1
  simp only [brokenInt?, Bound.between, Option.isNone_iff_eq_none, find?_eq_none,
    forall_mem_cons, Bound.holdsInt, Bool.not_eq_true', Bool.not_eq_false,
      decide_eq_true_eq] at hbounds
  exact hbounds.2.1

end Compiles

/-- **What the guard covers.** A compiled program waits for some number of bars. For a moving
average or bands that number covers one value, and no value is read that is more than two bars old.
It covers a range of candles and every bar that its breakout looks at, unless it is a retest and the
program waits for two bars only; and it covers support and resistance and all bars of candle
patterns. -/
theorem warmup_covers {document : Json} {g : Graph} (hload : Graph.load document = .ok g)
    {project : String} {options : Options} {c : Compiled}
    (h : (compile document project options).result = .ok c) :
    ∃ bars : Int, "if(Bars(_Symbol, PERIOD_CURRENT) < " ++ toString bars ++ ") return;" ∈
        c.program.handlerLines c.context ∧
      (∀ i n signal indicator span, (Roles.ofNodes g.liveNodes).indicators[i]? = some n →
        n.data.payload = .indicator signal indicator → indicator.span? = some span →
        span ≤ bars ∧ ∀ line ∈ c.program.tickLines, ∀ buffer k,
          element (indVar i buffer).text k <:+: tokens line → k ≤ 2) ∧
      ∀ i n timeframe action, (Roles.ofNodes g.liveNodes).priceAction[i]? = some n →
        n.data.payload = .priceAction timeframe action →
        (emitPriceAction n i).code.tick <:+: c.program.tick ∧
        action.Covered bars (fetchedBars (emitPriceAction n i).code.tick) := by
  rw [compile, hload] at h
  have hrun := Graph.run_of_roles h
  refine ⟨c.program.warmup c.context, c.program.guard_mem_handlerLines c.context, ?_, ?_⟩
  · intro i n signal indicator span hn hp hspan
    obtain ⟨hbars, -⟩ := hrun.bars_le (mem_laterSteps_iff.mpr (.inl (.indicator hn))) c.context
    rw [emitIndicator, hp] at hbars
    have hcovered := (Indicator.span_le hspan n i signal.timeframe).trans hbars
    refine ⟨hcovered, fun line hline buffer k hread => ?_⟩
    have hk : k < 3 := Graph.reads_copied h hline hread
    omega
  · intro i n timeframe action hn hp
    obtain ⟨hbars, htick⟩ :=
      hrun.bars_le (mem_laterSteps_iff.mpr (.inl (.priceAction hn))) c.context
    refine ⟨htick, ?_⟩
    simp only [emitPriceAction, hp] at hbars ⊢
    cases action with
    | rangeBreakout p =>
      exact rangeCode_covered
        (Graph.lookback_pos hload (mem_filter.mp (mem_of_getElem? hn)).1 hp) hbars
    | supportResistance p => exact (Int.self_le_toNat _).trans hbars
    | candlestickPattern p => exact candleCode_covered hbars

/-- A long average, and the retest of a range of one candle. -/
def longDocument : Json :=
  .obj [("nodes", .arr [.node "ma" "moving-average" [("period", .int 200)],
    .node "range" "range-breakout" [("lookbackCandles", .int 1),
      ("entryMode", .str "AFTER_RETEST")],
    .node "buy" "place-buy"])]

def longGraph : Graph := longDocument.graph

theorem warmup_covers_retest :
    Graph.load longDocument = .ok longGraph ∧
      ∃ c, (compile longDocument "Test" {}).result = .ok c ∧ ∃ bars : Int,
        "if(Bars(_Symbol, PERIOD_CURRENT) < " ++ toString bars ++ ") return;" ∈
          c.program.handlerLines c.context ∧ 200 ≤ bars ∧
        ∃ n, (Roles.ofNodes longGraph.liveNodes).priceAction[0]? = some n ∧
          ∀ bar ∈ fetchedBars (emitPriceAction n 0).code.tick, bar < bars := by
  have hload : Graph.load longDocument = .ok longGraph := rfl
  obtain ⟨c, hresult⟩ : ∃ c, (compile longDocument "Test" {}).result = .ok c :=
    compile_ok_of_methods hload (by decide) "Test"
  obtain ⟨bars, hguard, hindicators, hactions⟩ := warmup_covers hload hresult
  obtain ⟨hlong, -⟩ := hindicators 0 _ _ _ 200 rfl rfl rfl
  obtain ⟨-, hcovered⟩ := hactions 0 _ _ _ rfl rfl
  exact ⟨hload, c, hresult, bars, hguard, hlong, _, rfl, (hcovered rfl).2.mpr (by omega)⟩

/-- The retest of a range of one candle. -/
def retestDocument : Json :=
  .obj [("nodes", .arr [.node "range" "range-breakout" [("lookbackCandles", .int 1),
    ("entryMode", .str "AFTER_RETEST")], .node "buy" "place-buy"])]

theorem exists_waiting (document : Json) (options : Options) (bars : Int) (P : Program → Bool)
    (h : (compile document "Test" options).result.toOption.map
      (fun c => (c.program.warmup c.context, P c.program)) = some (bars, true)) :
    ∃ c, (compile document "Test" options).result = .ok c ∧
      "if(Bars(_Symbol, PERIOD_CURRENT) < " ++ toString bars ++ ") return;" ∈
        c.program.handlerLines c.context ∧ P c.program = true := by
  obtain ⟨c, hresult, hvalues⟩ := Compilation.exists_of_map h
  obtain ⟨hbars, hholds⟩ := Prod.mk.inj hvalues
  have hguard := c.program.guard_mem_handlerLines c.context
  rw [hbars] at hguard
  exact ⟨c, hresult, hguard, hholds⟩

/-- The value of the bar before the newest is read on a chart that has no bar for it, and so is the
close before it that a retest looks at. -/
theorem warmup_misses_older_value :
    (∃ c, (compile longDocument "Test" {}).result = .ok c ∧
      "if(Bars(_Symbol, PERIOD_CURRENT) < 200) return;" ∈ c.program.handlerLines c.context ∧
      ∃ line ∈ c.program.tickLines, element "ind0Buffer" 1 <:+: tokens line) ∧
    ∃ c, (compile retestDocument "Test" { warmupBars := 1 }).result = .ok c ∧
      "if(Bars(_Symbol, PERIOD_CURRENT) < 2) return;" ∈ c.program.handlerLines c.context ∧
      2 ∈ fetchedBars c.program.tick := by
  constructor
  · let line := "bool buyCondition = (DoubleGT(iClose(_Symbol, PERIOD_CURRENT, 1), " ++
      "ind0Buffer[1])) && (pa0BreakoutUp);"
    obtain ⟨c, hresult, hguard, hline⟩ := exists_waiting longDocument {} 200
      (fun p => decide (line ∈ p.tickLines)) (by decide +kernel)
    exact ⟨c, hresult, hguard, line, of_decide_eq_true hline, by decide +kernel⟩
  · obtain ⟨c, hresult, hguard, hold⟩ := exists_waiting retestDocument { warmupBars := 1 } 2
      (fun p => decide (2 ∈ fetchedBars p.tick)) (by decide +kernel)
    exact ⟨c, hresult, hguard, of_decide_eq_true hold⟩

end TradeGraph

import TradeGraph.Proofs.Distinct

/-!
# Refreshed buffers

Code may read an element of a buffer only after a line that copies enough values into it, from an
indicator that was created at the start. The indicators are copied before all that reads them; the
handles of a stop or a target are read right after they are copied, and a target may share the
handle of the stop.
-/

namespace TradeGraph

open List Mql Mql.Platform

variable {indicators : List Node} {done ss : List Stmt} {what x : String}
variable {before : List String} {timeframe period : Expr} {names : AtrNames} {flag : Ident}
  {project : String} {options : Options} {c : Compiled}

/-! ## How a buffer gets its values -/

/-- The functions that create an indicator. -/
def creators : List String :=
  ["iMA", "iRSI", "iMACD", "iBands", "iATR", "iADX", "iStochastic", "iCCI"]

/-- The line copies the newest `n` values of the `b`-th buffer of an indicator. -/
def Copies (line handle : String) (b n : Nat) (x : String) : Prop :=
  ("CopyBuffer(" ++ handle ++ ", " ++ toString b ++ ", 0, " ++ toString n ++ ", " ++ x ++
    ")").toList <:+:
    line.toList

/-- The line creates an indicator under the handle. -/
def Creates (line handle : String) : Prop :=
  ∃ f ∈ creators, ∃ arguments, line = handle ++ " = " ++ f ++ "(" ++ arguments ++ ");"

/-- After the lines, the array has its `k`-th value: enough values were copied, the array is
declared, and the handle is one that the program creates. -/
def Program.Feeds (p : Program) (before : List String) (x : String) (k : Nat) : Prop :=
  ∃ handle b n, k < n ∧ (∃ l ∈ before, Copies l handle b n x) ∧
    (∃ g ∈ p.globals, g.text = "double " ++ x ++ "[];") ∧ ∃ l ∈ p.initLines, Creates l handle

theorem Program.Feeds.append {p : Program} {k : Nat}
    (h : p.Feeds before x k) (more : List String) : p.Feeds (before ++ more) x k := by
  obtain ⟨handle, b, n, hk, ⟨l, hl, hcopies⟩, hdeclared⟩ := h
  exact ⟨handle, b, n, hk, ⟨l, mem_append_left _ hl, hcopies⟩, hdeclared⟩

/-- The program has the declarations of the part and what it runs at the start. -/
structure Program.Keeps (q code : Program) : Prop where
  globals : ∀ g ∈ code.globals, g ∈ q.globals
  init : ∀ s ∈ code.init, s ∈ q.init

theorem Program.keeps_append {q code more : Program} :
    q.Keeps (code ++ more) ↔ q.Keeps code ∧ q.Keeps more := by
  constructor
  · rintro ⟨hglobals, hinit⟩
    rw [Program.append_globals, forall_mem_append] at hglobals
    rw [Program.append_init, forall_mem_append] at hinit
    exact ⟨⟨hglobals.1, hinit.1⟩, hglobals.2, hinit.2⟩
  · rintro ⟨⟨hglobals, hinit⟩, hglobals', hinit'⟩
    exact ⟨forall_mem_append.mpr ⟨hglobals, hglobals'⟩,
      forall_mem_append.mpr ⟨hinit, hinit'⟩⟩

theorem Program.keeps_self (q : Program) : q.Keeps q :=
  ⟨fun _ h => h, fun _ h => h⟩

/-- The scope in which everything is declared and the elements of a set may be read. -/
def Mql.Scope.reading (S : String → Nat → Prop) : Scope :=
  { Scope.all with elements := some S }

section Reading

variable {S T : String → Nat → Prop}

@[simp] theorem Mql.Scope.mayRead_reading {k : Nat} : (Scope.reading S).MayRead x k ↔ S x k := by
  simp [Scope.MayRead, Scope.reading]

theorem Mql.Scope.reading_mono (h : ∀ x k, S x k → T x k) : Scope.reading S ≤ Scope.reading T :=
  ⟨fun _ h => h, fun _ h => h, fun _ h => h, fun _ h => h, fun _ hT => by
    cases hT
    exact ⟨S, rfl, h⟩⟩

theorem Mql.Scope.reading_covers (p : Program) : (Scope.reading S).Covers p :=
  ⟨fun _ _ => trivial, fun _ _ => trivial, fun _ _ _ _ => trivial⟩

theorem Mql.Scope.reading_general : Library.General (Scope.reading S) :=
  ⟨trivial, trivial⟩

theorem Mql.Scope.reading_compares : Library.Compares (Scope.reading S) :=
  ⟨trivial, trivial, trivial, trivial⟩

theorem Mql.Scope.reading_trades (side : Side) : (Scope.reading S).Trades side :=
  fun _ _ => trivial

theorem Mql.Scope.reading_measures : (Scope.reading S).Measures :=
  ⟨trivial, trivial⟩

theorem Mql.Scope.reading_actions (nodes : List Node) : (Scope.reading S).HasActions nodes :=
  fun _ _ _ _ _ _ _ _ => trivial

end Reading

section Feeding

variable {q : Program} {handle x : Ident} {f : String} {arguments : List Expr} {b n k : Nat}

theorem copyBuffer_text (handle x : Ident) (b n : Nat) :
    (copyBuffer handle b n x).text =
      "CopyBuffer(" ++ handle.text ++ ", " ++ toString b ++ ", 0, " ++ toString n ++
        ", " ++ x.text ++ ")" := by
  simp only [copyBuffer, Expr.text, Expr.texts, Scope.text_plain, String.intercalate_cons_cons,
    String.intercalate_singleton, String.append_assoc]
  rfl

/-- A buffer is fed by a statement that was made, from a handle that is created. -/
theorem Program.feeds_of_mem (handle : Ident) (b : Nat) {s : Stmt} (hs : s ∈ done)
    (hcopies : ∃ l ∈ s.lines, Copies l handle.text b n x.text) (hk : k < n)
    (hglobal : .array "double" x none ∈ q.globals) (hf : f ∈ creators)
    (hinit : .assign (.name handle) (.call f arguments) ∈ q.init) :
    q.Feeds (Stmt.block done) x.text k := by
  obtain ⟨l, hl, hcopies⟩ := hcopies
  refine ⟨handle.text, b, n, hk, ⟨l, Stmt.mem_block hs hl, hcopies⟩, ⟨_, hglobal, ?_⟩,
    _, Stmt.mem_block hinit mem_cons_self, f, hf, ", ".intercalate (Expr.texts arguments), ?_⟩
  · simp [Global.text, Action.text, Global.remarkText, String.append_assoc]
  · simp [Action.text, Expr.text, Scope.text_plain, String.append_assoc]

/-- The buffers of an indicator have their values once its part for a tick has run. -/
theorem indicatorParts_feeds {i : Nat} {buffers : List String} (hf : f ∈ creators)
    (hkeeps : q.Keeps (indicatorParts i what (.call f arguments) buffers))
    (htick : ∀ s ∈ (indicatorParts i what (.call f arguments) buffers).tick, s ∈ done) :
    ∀ b ∈ buffers, (Scope.reading (q.Feeds (Stmt.block done))).HasBuffer (indVar i b) := by
  refine fun b hb => ⟨trivial, fun k hk => Scope.mayRead_reading.mpr ?_⟩
  obtain ⟨j, hj⟩ := mem_iff_getElem?.mp hb
  refine Program.feeds_of_mem (indHandle i) j (htick _ (mem_map.mpr
      ⟨(b, j), mem_zipIdx_iff_getElem?.mpr hj, rfl⟩)) ⟨_, mem_cons_self, ?_⟩ hk
    (hkeeps.globals _ (mem_cons_of_mem _ (mem_map_of_mem hb))) hf
    (hkeeps.init _ (mem_append_left _ mem_cons_self))
  rw [Copies, ← copyBuffer_text]
  exact ⟨[], [';'], by simp [Action.text]⟩

/-- Once the part of an indicator for a tick has run, its conditions may be evaluated. -/
theorem indicatorCode_feeds {node : Node} {i : Nat} {timeframe : Option String}
    {indicator : Indicator} (hkeeps : q.Keeps (indicatorCode node i timeframe indicator))
    (htick : ∀ s ∈ (indicatorCode node i timeframe indicator).tick, s ∈ done) :
    (Scope.reading (q.Feeds (Stmt.block done))).HasIndicator i indicator := by
  have hinput (x : Ident) : (Scope.reading (q.Feeds (Stmt.block done))).HasInput x := trivial
  cases indicator
  all_goals
    have hbuffers := indicatorParts_feeds (by decide) (Program.keeps_append.mp hkeeps).2 htick
    simp only [forall_mem_cons] at hbuffers
    simp [Scope.HasIndicator, hbuffers, hinput]

theorem AtrNames.feeds
    (hkeeps : q.Keeps (names.setup timeframe period what)) (htick : names.refresh flag ∈ done) :
    q.Feeds (Stmt.block done) names.buffer.text 0 := by
  refine Program.feeds_of_mem names.handle 0 htick ⟨_, mem_cons_self, ?_⟩
    Nat.zero_lt_one (hkeeps.globals _ (mem_cons_of_mem _ mem_cons_self)) (f := "iATR")
    (by decide) (hkeeps.init _ mem_cons_self)
  rw [Copies, ← copyBuffer_text]
  exact ⟨("bool " ++ flag.text ++ " = (").toList, " >= 1);".toList, by
    simp [Action.text, Expr.text, Expr.ge, BinaryOp.sign]
    rfl⟩

end Feeding

/-! ## Statements that read what was copied -/

/-- What may be read after statements. -/
def Program.readable (q : Program) (done : List Stmt) : Scope :=
  Scope.reading (q.Feeds (Stmt.block done))

theorem Program.readable_mono (q : Program) (done more : List Stmt) :
    q.readable done ≤ q.readable (done ++ more) :=
  Scope.reading_mono fun x k h => by
    rw [Stmt.block_append]
    exact h.append _

/-- Each statement reads only what the statements before it have copied. -/
def Program.Fed (q : Program) : List Stmt → List Stmt → Prop
  | _, [] => True
  | done, s :: ss => s.Closed (q.readable done) ∧ q.Fed (done ++ [s]) ss

namespace Program.Fed

variable {q : Program}

theorem append_iff {ts : List Stmt} :
    ∀ {done : List Stmt}, q.Fed done (ss ++ ts) ↔ q.Fed done ss ∧ q.Fed (done ++ ss) ts := by
  induction ss with
  | nil => simp [Program.Fed]
  | cons s ss ih =>
    intro done
    rw [cons_append, Program.Fed, Program.Fed, ih, List.append_assoc, and_assoc]
    rfl

theorem of_closed : ∀ {done : List Stmt}, Stmt.AllClosed (q.readable done) ss → q.Fed done ss := by
  induction ss with
  | nil => exact fun _ => trivial
  | cons s ss ih =>
    exact fun h => ⟨h.1, ih (Stmt.AllClosed.mono (q.readable_mono _ [s]) ss h.2)⟩

theorem feeds_of_element {k : Nat} :
    ∀ {done : List Stmt}, q.Fed done ss →
      ∀ {before rest : List String} {line : String}, Stmt.block ss = before ++ line :: rest →
        element x k <:+: tokens line → q.Feeds (Stmt.block done ++ before) x k := by
  induction ss with
  | nil =>
    intro done _ before rest line hsplit
    simp [Stmt.block] at hsplit
  | cons s ss ih =>
    intro done h before rest line hsplit helement
    have hafter : Stmt.block (done ++ [s]) = Stmt.block done ++ s.lines := by
      rw [Stmt.block_append, Stmt.block, Stmt.block, append_nil]
    rw [Stmt.block] at hsplit
    -- the line belongs to a later statement, or to this one
    rcases append_eq_append_iff.mp hsplit with ⟨mid, hbefore, hlater⟩ | ⟨mid, hlines, hlater⟩
    · rw [hbefore, ← List.append_assoc, ← hafter]
      exact ih h.2 hlater helement
    · cases mid with
      | nil =>
        rw [append_nil] at hlines
        rw [← hlines, ← hafter, ← append_nil (Stmt.block _)]
        exact ih h.2 hlater.symm helement
      | cons l mid =>
        obtain ⟨rfl, -⟩ : line = l ∧ _ := List.cons.inj hlater
        have hmem : line ∈ s.lines := by rw [hlines]; simp
        have hshows := ((Stmt.lines_stand s h.1).stands line hmem).permits.shows _ rfl
        exact (hshows.elements x k helement).append before

end Program.Fed

/-- A program on the way to `q` whose statements for a tick are fed, and whose gates read nothing
that they do not copy. -/
structure Program.Refreshed (q m : Program) : Prop where
  fed : q.Fed [] m.tick
  gates : Expr.AllClosed (q.readable m.tick) m.gates

namespace Program.Refreshed

variable {q m code : Program}

theorem append (hm : q.Refreshed m) (htick : q.Fed m.tick code.tick)
    (hgates : Expr.AllClosed (q.readable (m ++ code).tick) code.gates) :
    q.Refreshed (m ++ code) where
  fed := Program.Fed.append_iff.mpr ⟨hm.fed, by rwa [nil_append]⟩
  gates := Expr.allClosed_append.mpr
    ⟨Expr.AllClosed.mono (q.readable_mono m.tick code.tick) _ hm.gates, hgates⟩

theorem append_closed (hm : q.Refreshed m)
    (hcode : InTurn (q.readable m.tick) code.tick ∧ Expr.AllClosed (q.readable m.tick) code.gates) :
    q.Refreshed (m ++ code) :=
  hm.append (.of_closed hcode.1.closed_free)
    (Expr.AllClosed.mono (q.readable_mono m.tick code.tick) _ hcode.2)

end Program.Refreshed

theorem Program.ClosedIn.onTick {σ : Scope} {p : Program} (h : p.ClosedIn σ) :
    InTurn σ p.tick ∧ Expr.AllClosed σ p.gates :=
  ⟨h.tick, h.gates⟩

/-! ## Stops and targets -/

/-- A part without a handle of its own, which reads at most the given indicators. -/
structure Program.Plain (indicators : List Node) (code : Program) : Prop where
  globals : code.globals = []
  closed : ∀ S, (Scope.reading S).HasIndicators indicators → code.ClosedIn (Scope.reading S)

theorem emitStopLoss_cases (n : Node) (indicators priceAction : List Node) (edges : List Edge)
    (known : List String) (ctx : Context) :
    (∃ p, (emitStopLoss n indicators priceAction edges known ctx).code =
        { stopMethod := some .atrBased } ++ atrStop n p) ∨
      (emitStopLoss n indicators priceAction edges known ctx).code.Plain indicators := by
  by_cases hatr : ∃ p, n.data.payload = .trading (.stopLoss p) ∧ p.method = .atrBased
  · obtain ⟨p, hp, hmethod⟩ := hatr
    exact .inl ⟨p, by simp only [emitStopLoss, hp, hmethod]⟩
  refine .inr ⟨?_, fun S hS => emitStopLoss_closed Scope.reading_measures hS
    (Scope.reading_actions _) (fun p hp hmethod => absurd ⟨p, hp, hmethod⟩ hatr)
    (Scope.reading_covers _)⟩
  rw [emitStopLoss]
  split
  case h_2 => rfl
  case h_1 p hp =>
    cases hmethod : p.method with
    | fixedPips => rfl
    | percent => rfl
    | atrBased => exact absurd ⟨p, hp, hmethod⟩ hatr
    | rangeOpposite =>
      simp only
      split <;> rfl
    | indicator =>
      simp only [emitIndicatorStop]
      split
      · rfl
      · split
        · simp only [indicatorStop]
          split <;> rfl
        · split <;> rfl

/-- A target measures by the handle of the stop, by a handle of its own, or it is plain. -/
theorem emitTakeProfit_cases (n : Node) (program : Program) (indicators : List Node) :
    (∃ p, (emitTakeProfit n program).code =
        { targetMethod := some .atrBased } ++ atrTarget n p (program.mentions "int atrHandle")) ∨
      (emitTakeProfit n program).code.Plain indicators := by
  by_cases hatr : ∃ p, n.data.payload = .trading (.takeProfit p) ∧ p.method = .atrBased
  · obtain ⟨p, hp, hmethod⟩ := hatr
    exact .inl ⟨p, by simp only [emitTakeProfit, hp, hmethod]⟩
  refine .inr ⟨?_, fun S _ => emitTakeProfit_closed Scope.reading_measures
    (fun p hp hmethod => absurd ⟨p, hp, hmethod⟩ hatr) (Scope.reading_covers _)⟩
  rw [emitTakeProfit]
  split
  case h_2 => rfl
  case h_1 p hp =>
    cases hmethod : p.method with
    | fixedPips => rfl
    | riskReward => rfl
    | atrBased => exact absurd ⟨p, hp, hmethod⟩ hatr

theorem noDistance_plain {x : String} (hx : x ∈ reservedWords) (hwhat : OneLine what) :
    (noDistance x what).Plain indicators :=
  ⟨rfl, fun _ _ => noDistance_closed ((Scope.has_reserved _ hx).mpr trivial) hwhat⟩

/-! ## Runs -/

/-- Whatever else was done, all indicators have been copied. -/
def Program.Copied (q : Program) (indicators : List Node) (done : List Stmt) : Prop :=
  ∀ d, done ⊆ d → (q.readable d).HasIndicators indicators

theorem Program.Copied.append {q : Program} (h : q.Copied indicators done) (more : List Stmt) :
    q.Copied indicators (done ++ more) :=
  fun d hd => h d (List.Subset.trans (subset_append_left done more) hd)

theorem Program.copied_nil (q : Program) (done : List Stmt) : q.Copied [] done :=
  fun _ _ _ _ hn => by cases hn

section Plan

variable {r : Roles} {edges : List Edge} {known : List String} {ctx : Context}
  {p m q code : Program}

theorem Program.Refreshed.append_atr (hm : q.Refreshed m) {rest : List Stmt}
    (hkeeps : q.Keeps (names.setup timeframe period what))
    (htick : code.tick = names.refresh flag :: rest)
    (hcode : ∀ S, S names.buffer.text 0 → code.ClosedIn (Scope.reading S)) :
    q.Refreshed (m ++ code) := by
  have hclosed : code.ClosedIn (q.readable (m.tick ++ [names.refresh flag])) :=
    hcode _ (AtrNames.feeds hkeeps (mem_append_right _ mem_cons_self))
  have hstmts : Stmt.AllClosed (q.readable (m.tick ++ [names.refresh flag])) code.tick :=
    hclosed.tick.closed_free
  rw [htick] at hstmts
  refine hm.append ?_ ?_
  · rw [htick]
    -- a refresh reads no elements
    exact ⟨hstmts.1, .of_closed hstmts.2⟩
  · have hle := q.readable_mono (m.tick ++ [names.refresh flag]) rest
    rw [List.append_assoc, singleton_append, ← htick] at hle
    exact Expr.AllClosed.mono hle _ hclosed.gates

theorem Run.keeps {ss : List Step} (h : Run ss p m) (hm : q.Keeps m) : q.Keeps p := by
  obtain ⟨rest, rfl⟩ := h.exists_append
  exact (Program.keeps_append.mp hm).1

theorem Run.copied_of_copied {ss : List Step} (h : Run ss p m) (hp : q.Copied indicators p.tick) :
    q.Copied indicators m.tick := by
  obtain ⟨rest, rfl⟩ := h.exists_append
  exact hp.append _

theorem Run.refreshed {ss : List Step} (h : Run ss p m)
    (hss : ∀ s ∈ ss, ∀ m S, (Scope.reading S).HasIndicators indicators →
      Expr.AllClosed (Scope.reading S) m.gates →
        InTurn (Scope.reading S) (s m).code.tick ∧
          Expr.AllClosed (Scope.reading S) (s m).code.gates)
    (hp : q.Refreshed p) (hindicators : q.Copied indicators p.tick) : q.Refreshed m := by
  refine (h.invariant (I := fun m => q.Refreshed m ∧ q.Copied indicators m.tick)
    (fun s hs m ⟨hm, hmore⟩ _ => ⟨hm.append_closed ?_, hmore.append _⟩) ⟨hp, hindicators⟩).1
  exact hss s hs m _ (hmore _ (List.Subset.refl _)) hm.gates

theorem Run.copied (h : Run (r.indicators.zipIdx.map fun (n, i) => always (emitIndicator n i)) p m)
    (hkeeps : q.Keeps m) : q.Copied r.indicators m.tick := by
  intro done hdone i n hn signal indicator hp
  obtain ⟨before, rest, -, rfl⟩ := h.exists_of_mem
    (mem_map_zipIdx (f := fun n i => always (emitIndicator n i)) |>.mpr ⟨n, i, hn, rfl⟩)
  simp only [always, emitIndicator, hp, Program.keeps_append, Program.append_tick] at hkeeps hdone
  refine indicatorCode_feeds hkeeps.1.2 fun s hs => hdone ?_
  exact mem_append_left _ (mem_append_right _ hs)

theorem Run.refreshed_signals (h : Run (signalSteps r ctx) p m) (hp : q.Refreshed p) :
    q.Refreshed m := by
  refine h.refreshed (fun s hs m S _ _ => ?_) hp (q.copied_nil _)
  rcases mem_signalSteps_iff.mp hs with (rfl | rfl | rfl) | ⟨n, i, -, rfl⟩ | ⟨n, i, -, rfl⟩
  · exact (emitSpread_closed _).onTick
  · exact (emitTiming_closed _).onTick
  · exact (emitCloseTimeGate_closed (Scope.reading_covers _)).onTick
  · exact (emitIndicator_consistent (Scope.reading_covers _)).closed.onTick
  · exact (emitPriceAction_consistent (Scope.reading_covers _)).closed.onTick

/-- A stop is fed, and if it has a handle, so is the buffer of the handle. -/
theorem refreshed_stop (hm : q.Refreshed m) (hindicators : q.Copied r.indicators m.tick)
    (hkeeps : q.Keeps code) (hnone : m.mentions "int atrHandle" = false)
    (hcode : (∃ n p, code = { stopMethod := some .atrBased } ++ atrStop n p) ∨
      code.Plain r.indicators) :
    q.Refreshed (m ++ code) ∧ ((m ++ code).mentions "int atrHandle" = true →
      q.Feeds (Stmt.block (m ++ code).tick) stopAtr.buffer.text 0) := by
  rcases hcode with ⟨n, p, rfl⟩ | hplain
  · have hsetup := (Program.keeps_append.mp (Program.keeps_append.mp hkeeps).2).2
    have hrefresh : stopAtr.refresh "atrOk" ∈
        (m ++ ({ stopMethod := some .atrBased } ++ atrStop n p)).tick :=
      mem_append_right _ mem_cons_self
    refine ⟨hm.append_atr hsetup rfl fun S hS => ?_, fun _ => AtrNames.feeds hsetup hrefresh⟩
    exact Program.ClosedIn.append (by simp [Program.closedIn_iff])
      (atrStop_closed Scope.reading_measures (Scope.mayRead_reading.mpr hS)
      (Scope.reading_covers _))
  · refine ⟨hm.append_closed (hplain.closed _ (hindicators _ (List.Subset.refl _))).onTick,
      fun h => ?_⟩
    rw [Program.mentions_append, hnone, Program.mentions, hplain.globals] at h
    cases h

theorem refreshed_target (hm : q.Refreshed m) (hindicators : q.Copied r.indicators m.tick)
    (hkeeps : q.Keeps code)
    (hstop : m.mentions "int atrHandle" = true → q.Feeds (Stmt.block m.tick) stopAtr.buffer.text 0)
    (hcode : (∃ n p, code = { targetMethod := some .atrBased } ++
        atrTarget n p (m.mentions "int atrHandle")) ∨ code.Plain r.indicators) :
    q.Refreshed (m ++ code) := by
  have hclosed (n : Node) (p : TakeProfit) (shared : Bool) {S : String → Nat → Prop}
      (hS : S (if shared then stopAtr else targetAtr).buffer.text 0) :
      ({ targetMethod := some .atrBased } ++ atrTarget n p shared).ClosedIn (Scope.reading S) :=
    Program.ClosedIn.append (by simp [Program.closedIn_iff])
      (atrTarget_closed Scope.reading_measures (Scope.mayRead_reading.mpr hS)
      (Scope.reading_covers _))
  rcases hcode with ⟨n, p, rfl⟩ | hplain
  · cases hshared : m.mentions "int atrHandle" with
    | true => exact hm.append_closed (hclosed n p true (hstop hshared)).onTick
    | false =>
      rw [hshared] at hkeeps
      have hsetup := (Program.keeps_append.mp (Program.keeps_append.mp hkeeps).2).2
      exact hm.append_atr hsetup rfl fun S hS => hclosed n p false hS
  · exact hm.append_closed (hplain.closed _ (hindicators _ (List.Subset.refl _))).onTick

theorem Run.refreshed_risk (h : Run (riskSteps r edges known ctx) p m) (hp : q.Refreshed p)
    (hindicators : q.Copied r.indicators p.tick) (hnone : p.mentions "int atrHandle" = false)
    (hkeeps : q.Keeps m) : q.Refreshed m := by
  rcases h.risk_cases with ⟨-, rfl⟩ | ⟨-, stopped, measured, hstop, htarget, horders⟩
  · exact hp
  · refine horders.refreshed (fun s hs m S _ _ => ?_) ?_ (q.copied_nil _)
    · obtain ⟨side, n, -, rfl⟩ := mem_orderSteps_iff.mp hs
      have horder : (emitOrder side n m).code.Consistent (Scope.reading S) :=
        emitOrder_consistent (Scope.reading_trades side) Scope.reading_measures (fun _ => trivial)
          (Scope.reading_covers _)
      exact horder.closed.onTick
    obtain ⟨rest, rfl⟩ := horders.exists_append
    obtain rfl := hstop.eq_append
    obtain rfl := htarget.eq_append
    obtain ⟨hstopped, htargeted⟩ := Program.keeps_append.mp (Program.keeps_append.mp hkeeps).1
    have hafter := refreshed_stop hp hindicators (Program.keeps_append.mp hstopped).2 hnone
    obtain ⟨hrefreshed, hfeeds⟩ := hafter (by
      rw [stopStep]
      cases r.stopLoss.head? with
      | some n =>
        exact (emitStopLoss_cases n r.indicators r.priceAction edges known ctx).imp_left
          fun hcode => ⟨n, hcode⟩
      | none => exact .inr (noDistance_plain (by decide) (by decide)))
    refine refreshed_target hrefreshed (hindicators.append _) htargeted hfeeds ?_
    rw [targetStep]
    cases r.takeProfit.head? with
    | some n =>
      exact (emitTakeProfit_cases n _ r.indicators).imp_left fun hcode => ⟨n, hcode⟩
    | none => exact .inr (noDistance_plain (by decide) (by decide))

theorem Run.refreshed_entry
    (h : Run (emitEntry r.indicators r.priceAction r.orders ctx :: exitSteps r edges ctx) p m)
    (hfits : ∀ n ∈ r.indicators, ∀ signal indicator, n.data.payload = .indicator signal indicator →
      signal.Fits indicator)
    (hp : q.Refreshed p) (hindicators : q.Copied r.indicators p.tick) : q.Refreshed m := by
  refine h.refreshed (fun s hs m S hS hgates => ?_) hp hindicators
  have hcovers := Scope.reading_covers (S := S)
  rw [mem_cons, mem_exitSteps_iff] at hs
  rcases hs with rfl | ⟨n, i, -, rfl⟩ | ⟨n, i, -, rfl⟩ | ⟨n, -, rfl⟩ | rfl
  · exact (emitEntry_closed Scope.reading_general Scope.reading_compares
      (fun nodes hnodes => hS.hasSignals hfits hnodes) (Scope.reading_actions _) (hcovers _) hgates
      (fun _ => trivial) (fun side _ _ => Scope.reading_trades side)
      (fun _ _ _ => Scope.reading_measures) (fun _ _ _ _ _ _ => trivial) (hcovers _)).onTick
  · exact (emitCloseCondition_closed Scope.reading_general Scope.reading_compares hS
      (Scope.reading_actions _) (hcovers _)).onTick
  · exact (emitTimeExit_closed Scope.reading_general (hcovers _)).onTick
  · exact (emitManagement_consistent (fun _ => hcovers _) (hcovers _)).closed.onTick
  · exact emitPass_onTick (σ := Scope.reading S) trivial trivial m

end Plan

/-- **A compiled program reads only what it has copied**, if no node of the graph sets a marker. -/
theorem Graph.fed {g : Graph} (hunmarked : ∀ n ∈ g.nodes, n.Unmarked)
    (h : (g.compile project options).result = .ok c) :
    c.program.Fed [] c.program.tick := by
  have hrun := Graph.run_of_roles h
  have hfits : ∀ n ∈ (Roles.ofNodes g.liveNodes).indicators, ∀ signal indicator,
      n.data.payload = .indicator signal indicator → signal.Fits indicator := fun n hn =>
    Graph.fits_of_mem_liveNodes hunmarked (mem_filter.mp hn).1
  obtain ⟨signalled, risked, hsignals, hrisk, hentry⟩ := hrun.around_entry
  obtain ⟨opened, -, hrun⟩ := Run.append_iff.mp hsignals
  obtain ⟨indicated, hindicators, hactions⟩ := Run.append_iff.mp hrun
  -- what a step declares stays declared, and what it copies stays copied
  have hrisked := hentry.keeps c.program.keeps_self
  have hcopied := hindicators.copied (hactions.keeps (hrisk.keeps hrisked))
  have hready := hactions.copied_of_copied hcopied
  have hlate := hrisk.refreshed_risk (hsignals.refreshed_signals ⟨trivial, trivial⟩) hready
    (hsignals.not_mentions_handle rfl) hrisked
  exact (hentry.refreshed_entry hfits hlate (hrisk.copied_of_copied hready)).fed

/-- **Buffers are refreshed before they are read.** In a program that was compiled from a document
whose nodes set no markers, every element that a line for a tick reads was copied by a line before
it: enough values for the element, into an array that is declared, from a handle that is created at
the start. -/
theorem buffers_refreshed {document : Json} {g : Graph} (hload : Graph.load document = .ok g)
    (hunmarked : ∀ n ∈ g.nodes, n.Unmarked)
    (h : (compile document project options).result = .ok c) {rest : List String}
    {line : String} (hsplit : c.program.tickLines = before ++ line :: rest) {x : String} {k : Nat}
    (hread : element x k <:+: tokens line) :
    ∃ handle b n, k < n ∧ (∃ l ∈ before, Copies l handle b n x) ∧
      (∃ y ∈ c.program.globals, y.text = "double " ++ x ++ "[];") ∧
      ∃ l ∈ c.program.initLines, Creates l handle := by
  rw [compile, hload] at h
  exact (Graph.fed hunmarked h).feeds_of_element hsplit hread

/-- A target that shares the handle of the stop, beside an oscillator. -/
def sharedDocument : Json :=
  .obj [("nodes", .arr [.node "turn" "rsi", .node "buy" "place-buy",
    .node "stop" "stop-loss" [("method", .str "ATR_BASED")],
    .node "target" "take-profit" [("method", .str "ATR_BASED")]])]

def sharedGraph : Graph := sharedDocument.graph

theorem buffers_refreshed_shared :
    Graph.load sharedDocument = .ok sharedGraph ∧ (∀ n ∈ sharedGraph.nodes, n.Unmarked) ∧
      ∃ c before line rest, (compile sharedDocument "Test" {}).result = .ok c ∧
        c.program.tickLines = before ++ line :: rest ∧ element "atrBuffer" 0 <:+: tokens line ∧
        ∃ handle b n, 0 < n ∧ (∃ l ∈ before, Copies l handle b n "atrBuffer") ∧
          (∃ y ∈ c.program.globals, y.text = "double atrBuffer[];") ∧
          ∃ l ∈ c.program.initLines, Creates l handle := by
  have hload : Graph.load sharedDocument = .ok sharedGraph := rfl
  have hunmarked : ∀ n ∈ sharedGraph.nodes, n.Unmarked := by decide
  have htick : (compile sharedDocument "Test" {}).result.toOption.map
      (fun c => c.program.tickLines.take 4) =
        some ["CopyBuffer(ind0Handle, 0, 0, 3, ind0Buffer);",
          "bool atrOk = (CopyBuffer(atrHandle, 0, 0, 1, atrBuffer) >= 1);",
          "double slPips = atrOk ? (atrBuffer[0] / _Point) * InpATRMultiplier : 0;",
          "double tpPips = atrOk ? (atrBuffer[0] / _Point) * InpTPATRMultiplier : 0;"] := by
    decide +kernel
  obtain ⟨c, hresult, htake⟩ := Compilation.exists_of_map htick
  have hsplit := (take_append_drop 4 c.program.tickLines).symm
  rw [htake] at hsplit
  have hsplit : c.program.tickLines = [_, _, _] ++ _ :: c.program.tickLines.drop 4 := hsplit
  have hread : element "atrBuffer" 0 <:+:
      tokens "double tpPips = atrOk ? (atrBuffer[0] / _Point) * InpTPATRMultiplier : 0;" :=
    by decide +kernel
  exact ⟨hload, hunmarked, c, _, _, _, hresult, hsplit, hread,
    buffers_refreshed hload hunmarked hresult hsplit hread⟩

end TradeGraph

import TradeGraph.Proofs.Refresh
import TradeGraph.Proofs.Reversals

/-!
# What runs on every tick

On a tick the exits of a program and its pass over the open positions are reached whatever the entry
does: only the guard at the start returns, and they stand outside of all braces.
-/

namespace TradeGraph

open List Mql Mql.Platform

variable {ss : List Stmt}
variable {g : Graph} {project : String} {options : Options} {c : Compiled}

/-! ## Lines outside of braces -/

/-- The block stands among the lines outside of all braces: before it and in it every brace that is
opened is closed. -/
def TopLevel (block ls : List String) : Prop :=
  ∃ before after, ls = before ++ block ++ after ∧ openBraces 0 (before.flatMap tokens) = some 0 ∧
    openBraces 0 (block.flatMap tokens) = some 0

section Blocks

variable {σ : Scope}

theorem openBraces_block (h : Stmt.AllClosed σ ss) :
    openBraces 0 ((Stmt.block ss).flatMap tokens) = some 0 := by
  rw [← append_nil (List.flatMap tokens _)]
  exact (Stmt.block_stands ss h).level.braces 0 []

theorem topLevel_block {before after : List Stmt} (h : Stmt.AllClosed σ (before ++ ss ++ after)) :
    TopLevel (Stmt.block ss) (Stmt.block (before ++ ss ++ after)) := by
  obtain ⟨hfront, -⟩ := Stmt.allClosed_append.mp h
  obtain ⟨hbefore, hss⟩ := Stmt.allClosed_append.mp hfront
  refine ⟨Stmt.block before, Stmt.block after, ?_, openBraces_block hbefore, openBraces_block hss⟩
  rw [Stmt.block_append, Stmt.block_append]

end Blocks

/-! ## The handler -/

def Program.handlerLines (p : Program) (ctx : Context) : List String :=
  Stmt.block (Source.tickStart (p.warmup ctx)) ++ p.tickLines

/-- The lines that leave the handler. -/
def returning (ls : List String) : List String :=
  ls.filter fun l => "return" ∈ words l

theorem returning_append (ls ms : List String) :
    returning (ls ++ ms) = returning ls ++ returning ms :=
  filter_append ls ms

theorem warmupGuard_lines (bars : Int) : (Source.warmupGuard bars).lines =
    ["if(Bars(_Symbol, PERIOD_CURRENT) < " ++ toString bars ++ ") return;"] := by
  simp [Source.warmupGuard, Stmt.lines, ifHead, Action.text, Expr.text, Expr.texts, Expr.lt,
    BinaryOp.sign, symbol, chart, Literal.written, Scope.text_plain, ← String.toList_inj]

theorem returns_warmupGuard (bars : Int) :
    ∀ l ∈ (Source.warmupGuard bars).lines, "return" ∈ words l := by
  have hfront (cs : List Char) : tokensFrom .start
      ("if(Bars(_Symbol, PERIOD_CURRENT) < ".toList ++ cs) =
        [.call "if", .mark '(', .call "Bars", .mark '(', .name "_Symbol", .mark ',',
          .name "PERIOD_CURRENT", .mark ')', .mark '<'] ++ tokensFrom .start cs := rfl
  -- the numeral is some words, after which the line goes on
  obtain ⟨ts, -, hnumeral⟩ := Reads.numeral Scope.all.inner_prints (int_numeral (n := bars))
  have hapart : Apart ") return;".toList := show Apart (')' :: _) from ⟨rfl, by decide⟩
  have hback : tokensFrom .start ") return;".toList =
      [.mark ')', .name "return", .mark ';'] := rfl
  rw [warmupGuard_lines, forall_mem_singleton, words, tokens, String.toList_append,
    String.toList_append, List.append_assoc, hfront, hnumeral _ hapart, hback]
  exact mem_filterMap.mpr ⟨.name "return", by simp, rfl⟩

theorem returning_tickStart (bars : Int) :
    returning (Stmt.block (Source.tickStart bars)) = (Source.warmupGuard bars).lines := by
  -- the number of bars stands in the guard only: what is around it can be evaluated
  have hsplit : Stmt.block (Source.tickStart bars) =
      Stmt.block ((Source.tickStart 0).take 6) ++ (Source.warmupGuard bars).lines ++
        Stmt.block ((Source.tickStart 0).drop 7) := rfl
  have hfront : returning (Stmt.block ((Source.tickStart 0).take 6)) = [] := by decide +kernel
  have hback : returning (Stmt.block ((Source.tickStart 0).drop 7)) = [] := by decide +kernel
  have hguard : returning (Source.warmupGuard bars).lines = (Source.warmupGuard bars).lines :=
    filter_eq_self.mpr fun l hl => decide_eq_true (returns_warmupGuard bars l hl)
  rw [hsplit, returning_append, returning_append, hfront, hguard, hback, nil_append,
    append_nil]

/-! ## Runs -/

section Plan

variable {r : Roles} {edges : List Edge} {known : List String} {ctx : Context} {p q : Program}

theorem Run.length_rules : ∀ {ns : List Node} {p : Program}, Run (ns.map emitManagement) p q →
    Role.All .management ns → q.rules.length = p.rules.length + ns.length
  | [], _, h, _ => by
    cases h
    rfl
  | n :: ns, p, h, hroles => by
    obtain ⟨m, hfirst, hrest⟩ := Run.cons_iff.mp h
    obtain rfl := hfirst.eq_append
    obtain ⟨rule, hp⟩ := Payload.of_role (hroles n mem_cons_self)
    have hone : (emitManagement n p).code.rules.length = 1 := by
      simp only [emitManagement, hp]
      exact (managementCode_isRule n p rule).rules
    rw [Run.length_rules hrest fun x hx => hroles x (mem_cons_of_mem _ hx),
      Program.append_rules, length_append, hone, length_cons]
    omega

theorem Run.exists_after {ss : List Step} (h : Run ss p q) {s : Step} (hs : s ∈ ss) :
    ∃ done more, q = p ++ done ++ (s (p ++ done)).code ++ more := by
  induction h with
  | done => cases hs
  | @step t ts p q ht hrun ih =>
    rcases mem_cons.mp hs with rfl | hs
    · obtain ⟨more, rfl⟩ := hrun.exists_append
      exact ⟨{}, more, by rw [Program.append_empty]⟩
    · obtain ⟨done, more, hq⟩ := ih hs
      exact ⟨(t p).code ++ done, more, by rw [← Program.append_assoc]; exact hq⟩

theorem emitTimeExit_of_hasCloseTimes {ns : List Node} {n : Node} {i : Nat} (hn : ns[i]? = some n)
    (hp : HasCloseTimes ns p) (hq : HasCloseTimes ns q) :
    emitTimeExit n i ctx p = emitTimeExit n i ctx q := by
  rw [emitTimeExit, emitTimeExit]
  split
  · rename_i t ht
    cases hmode : t.exitMode with
    | bars => rfl
    | closeAtTime =>
      have htime : n.closeTime?.isSome = true := by simp [Node.closeTime?, ht, hmode]
      simp only [closeAtTime, closeTimeCheck, hp i n hn htime, hq i n hn htime, if_true]
  · rfl

/-- What a time exit is headed by. -/
def TimeExit.heading (t : TimeExit) (useServerTime : Bool) : String :=
  match t.exitMode with
  | .bars => "//--- Time-Based Exit (bars since entry)"
  | .closeAtTime => "//--- Close At Time " ++ closeClock t useServerTime

/-- The lines by which a time exit tells that it is time, and closes. -/
def TimeExit.closing (i : ℕ) (t : TimeExit) : List String :=
  match t.exitMode with
  | .bars =>
    ["   if(barsSinceEntry >= " ++ (exitName "InpTimeExitBars" i).text ++ ")",
      "      if(!trade.PositionClose(ticket))"]
  | .closeAtTime =>
    ["if(" ++ (closeFlag i).text ++ ")", "      CloseBuyPositions();",
      "      CloseSellPositions();", "   DeletePendingOrders();"]

theorem mem_eachOwnPosition {s : Stmt} (hs : s ∈ ss) {l : String} (hl : l ∈ s.lines) (h : l ≠ "") :
    "   " ++ l ∈ (Library.eachOwnPosition ss).lines :=
  mem_cons_of_mem _ (mem_braces (Stmt.mem_block (mem_append_right _ hs) hl) h)

/-- A time exit whose close time has been compared with the clock begins with its heading, and it
closes. -/
theorem emitTimeExit_lines {ns : List Node} {n : Node} {i : ℕ} (hn : ns[i]? = some n)
    (hp : HasCloseTimes ns p) {t : TimeExit} (ht : n.data.payload = .trading (.timeExit t)) :
    ∃ rest, Stmt.block (emitTimeExit n i ctx p).code.tick =
        "" :: t.heading ctx.usesServerTime :: rest ∧ t.closing i ⊆ rest := by
  simp only [emitTimeExit, ht, TimeExit.heading, TimeExit.closing]
  cases hmode : t.exitMode with
  | bars =>
    have htest : "   if(barsSinceEntry >= " ++ (exitName "InpTimeExitBars" i).text ++ ")" =
        "   " ++ ifHead ((Expr.var "barsSinceEntry").ge (exitName "InpTimeExitBars" i)) := by
      simp [ifHead, Expr.text, Expr.ge, Expr.var, BinaryOp.sign, Scope.text_plain,
        ← String.toList_inj]
    refine ⟨(Library.eachOwnPosition _).lines ++ [], rfl, ?_⟩
    rw [cons_subset, cons_subset, htest]
    refine ⟨mem_append_left _ ?_, mem_append_left _ ?_, nil_subset _⟩
    · refine mem_eachOwnPosition (.tail _ (.tail _ (.tail _ (.head _)))) ?_ ?_
      · exact mem_cons_self
      · simp [ifHead]
    · refine mem_eachOwnPosition (l := "   if(!trade.PositionClose(ticket))")
        (.tail _ (.tail _ (.tail _ (.head _)))) ?_ (by decide)
      exact mem_cons_of_mem _ (by decide)
  | closeAtTime =>
    have htime : n.closeTime?.isSome = true := by simp [Node.closeTime?, ht, hmode]
    simp only [closeAtTime, closeTimeCheck, hp i n hn htime, if_true]
    refine ⟨_, rfl, ?_⟩
    rw [cons_subset]
    refine ⟨mem_cons_self, fun l hl => mem_cons_of_mem _ ?_⟩
    revert l
    decide

/-- The code of a time exit is in the program as it would be added to the whole program. -/
theorem Run.exists_timeExit (h : Run (laterSteps r edges known ctx) p q) {n : Node} {i : Nat}
    (hn : r.timeExit[i]? = some n) :
    HasCloseTimes r.timeExit q ∧ ∃ m more, q = m ++ (emitTimeExit n i ctx q).code ++ more := by
  rw [laterSteps_eq, earlierSteps] at h
  simp only [List.append_assoc, cons_append, nil_append] at h
  obtain ⟨spread, -, h⟩ := Run.cons_iff.mp h
  obtain ⟨opened, -, h⟩ := Run.cons_iff.mp h
  obtain ⟨gated, hgate, h⟩ := Run.cons_iff.mp h
  obtain rfl := hgate.eq_append
  -- after the gate all close times are declared, so the exit does not look at what came between
  have htimes := emitCloseTimeGate_hasCloseTimes r.timeExit ctx opened
  have hmem : ∃ m j, r.timeExit[j]? = some m ∧ emitTimeExit m j ctx = emitTimeExit n i ctx :=
    ⟨n, i, hn, rfl⟩
  obtain ⟨done, more, hq⟩ := h.exists_after (s := emitTimeExit n i ctx) (by
    simp only [mem_append, mem_cons, mem_map_zipIdx (f := fun n i => emitTimeExit n i ctx),
      hmem, true_or, or_true])
  have hlast : HasCloseTimes r.timeExit q := by
    obtain ⟨rest, rfl⟩ := h.exists_append
    exact htimes.append _ rest
  rw [emitTimeExit_of_hasCloseTimes hn (htimes.append _ done) hlast] at hq
  exact ⟨hlast, _, more, hq⟩

end Plan

/-! ## Compiles -/

theorem Payload.role?_management_iff {q : Payload} :
    q.role? = some .management ↔ q.kind.category = .management := by
  fun_cases Payload.kind q <;> simp [Payload.role?, Kind.category]

theorem Graph.management_eq_nil_iff : (Roles.ofNodes g.liveNodes).management = [] ↔
    ∀ n ∈ g.liveNodes, n.category ≠ .management := by
  show withRole .management g.liveNodes = [] ↔ _
  simp only [withRole, filter_eq_nil_iff, beq_iff_eq, Payload.role?_management_iff]
  rfl

/-- The scope in which only the reserved words of orders may be used: code that lets the tick go on
and does not call the pass. -/
def Mql.Scope.still : Scope :=
  { Scope.all with reserved := {w | w ∈ tradeWords} }

theorem Mql.Scope.still_serves (r : Roles) : Scope.still.Serves r := by
  refine Scope.serves_of_all (fun _ => ?_) (fun _ => ?_) ⟨?_, ?_, ?_, ?_⟩
    (fun x k _ => Scope.mayRead_of_elements rfl x k) (fun side _ _ _ => side.mem_tradeWords)
    fun _ => ⟨show "slPips" ∈ tradeWords by decide, show "tpPips" ∈ tradeWords by decide⟩ <;>
    trivial

theorem Mql.Scope.still_covers (p : Program) : Scope.still.Covers p :=
  ⟨fun _ _ => trivial, fun _ _ => trivial, fun _ _ _ _ => trivial⟩

theorem notMem_words_of_still (h : Stmt.AllClosed Scope.still ss) {w : String}
    (hw : w ∈ reservedWords) (hother : w ∉ tradeWords) : ∀ l ∈ Stmt.block ss, w ∉ words l :=
  fun l hl hmem => hother ((words_of_stands ((Stmt.block_stands ss h).stands l hl) hmem).2.2 hw)

/-- Of a compiled program only the pass at the end is called on a tick beside what lets the tick go
on; it is there if there are rules. -/
theorem Graph.still (h : (g.compile project options).result = .ok c) :
    ∃ m : Program, Stmt.AllClosed Scope.still m.tick ∧
      m.rules.length = (Roles.ofNodes g.liveNodes).management.length ∧
      c.program.tick = m.tick ++ (emitPass m).code.tick := by
  have hrun := Graph.run_of_roles h
  rw [laterSteps_eq] at hrun
  obtain ⟨managed, hrun, hpass⟩ := Run.append_iff.mp hrun
  have hclosed := (hrun.consistent (Scope.still_serves _)
    (fun s hs => (mem_append.mp hs).imp mem_earlierSteps_iff.mp
      fun hs => .inl (mem_map.mp hs))
    (Scope.still_covers _) (generalInputs_consistent _)).closed
  obtain ⟨exited, hrun, hrules⟩ := Run.append_iff.mp hrun
  have hcount := hrules.length_rules fun _ => role_of_mem
  rw [hrun.rules_eq_nil rfl] at hcount
  exact ⟨managed, hclosed.tick.closed_free, hcount.trans (Nat.zero_add _),
    congrArg Program.tick hpass.eq_append⟩

theorem Program.topLevel_part {σ : Scope} {p m code more : Program}
    (hclosed : Stmt.AllClosed σ p.tick) (h : p = m ++ code ++ more) :
    TopLevel (Stmt.block code.tick) p.tickLines := by
  subst h
  exact topLevel_block hclosed

theorem emitPass_tick (m : Program) : (emitPass m).code.tick =
    if m.rules = [] then []
    else [.blank, .heading "Trade Management"] ++ [.run (.call "ManageOpenPositions" [])] := by
  rw [emitPass]
  cases m.rules <;> rfl

/-! ### Before and after the pass is added -/

section Pass

variable {m : Program} (hm : Stmt.AllClosed Scope.still m.tick)

include hm

theorem goesOn_of_still : ∀ l ∈ Stmt.block (m.tick ++ (emitPass m).code.tick),
    "return" ∉ words l := by
  have hpass : ∀ l ∈ ["", "//--- Trade Management", "ManageOpenPositions();"],
      "return" ∉ words l := by
    decide +kernel
  rw [Stmt.block_append, List.forall_mem_append]
  refine ⟨notMem_words_of_still hm (by decide) (by decide), ?_⟩
  rw [emitPass_tick]
  split
  · exact fun l hl => by cases hl
  · exact hpass

theorem pass_last_of_still (hrules : m.rules ≠ []) :
    ∃ before, Stmt.block (m.tick ++ (emitPass m).code.tick) =
        before ++ ["ManageOpenPositions();"] ∧ openBraces 0 (before.flatMap tokens) = some 0 ∧
      ∀ l ∈ before, "ManageOpenPositions" ∉ words l := by
  rw [emitPass_tick, if_neg hrules, ← List.append_assoc]
  have hbefore : Stmt.AllClosed Scope.still (m.tick ++ [.blank, .heading "Trade Management"]) :=
    Stmt.allClosed_append.mpr ⟨hm, by simp +decide⟩
  exact ⟨_, Stmt.block_append _ _, openBraces_block hbefore,
    notMem_words_of_still hbefore (by decide) (by decide)⟩

theorem pass_absent_of_still (hrules : m.rules = []) :
    ∀ l ∈ Stmt.block (m.tick ++ (emitPass m).code.tick), "ManageOpenPositions" ∉ words l := by
  rw [emitPass_tick, if_pos hrules, List.append_nil]
  exact notMem_words_of_still hm (by decide) (by decide)

end Pass

/-- **Exits and rules are never skipped.** In a compiled program the handler of ticks returns only
in the guard that waits for enough bars. The lines of every live close condition and of every live
time exit, from the heading on, stand outside of all braces; they test the conditions of the one,
and the bars or the clock for the other, and close. If a management node is live, the pass over the
open positions is called outside of all braces by the last line and by no other; if none is live, it
is never called. -/
theorem exits_never_skipped {document : Json} (hload : Graph.load document = .ok g)
    (h : (compile document project options).result = .ok c) :
    let p := c.program
    let live := Roles.ofNodes g.liveNodes
    (∀ l ∈ p.tickLines, "return" ∉ words l) ∧
      returning (p.handlerLines c.context) = (Source.warmupGuard (p.warmup c.context)).lines ∧
      (∀ i n, live.closeCondition[i]? = some n →
        let edges := (expand g.nodes g.edges).edges
        let lines := Stmt.block
          (emitCloseCondition n i live.indicators live.priceAction edges).code.tick
        TopLevel lines p.tickLines ∧ ∃ direction signals,
          n.data.payload = .trading (.closeCondition direction) ∧
          exitSignals live.indicators live.priceAction (neighbours n.id edges) = .ok signals ∧
          lines = closeLines i direction.sides signals) ∧
      (∀ i n, live.timeExit[i]? = some n →
        let lines := Stmt.block (emitTimeExit n i c.context p).code.tick
        TopLevel lines p.tickLines ∧ ∃ t rest, n.data.payload = .trading (.timeExit t) ∧
          lines = "" :: t.heading c.context.usesServerTime :: rest ∧ t.closing i ⊆ rest) ∧
      ((∃ n ∈ g.liveNodes, n.category = .management) →
        ∃ before, p.tickLines = before ++ ["ManageOpenPositions();"] ∧
          openBraces 0 (before.flatMap tokens) = some 0 ∧
          ∀ l ∈ before, "ManageOpenPositions" ∉ words l) ∧
      ((∀ n ∈ g.liveNodes, n.category ≠ .management) →
        ∀ l ∈ p.tickLines, "ManageOpenPositions" ∉ words l) := by
  rw [compile, hload] at h
  have hclosed := (Graph.closedIn_all h).tick.closed_free
  have hrun := Graph.run_of_roles h
  obtain ⟨m, hm, hrules, htick⟩ := Graph.still h
  have hlines : c.program.tickLines = Stmt.block (m.tick ++ (emitPass m).code.tick) :=
    congrArg Stmt.block htick
  have hgoesOn : ∀ l ∈ c.program.tickLines, "return" ∉ words l := by
    rw [hlines]
    exact goesOn_of_still hm
  refine ⟨hgoesOn, ?_, fun i n hn => ?_, fun i n hn => ?_, fun hmanaged => ?_, fun hnone => ?_⟩
  · have hown : returning c.program.tickLines = [] :=
      filter_eq_nil_iff.mpr fun l hl hreturn => hgoesOn l hl (of_decide_eq_true hreturn)
    rw [Program.handlerLines, returning_append, returning_tickStart, hown, append_nil]
  · obtain ⟨before, after, -, hparts⟩ :=
      hrun.exists_of_mem (mem_laterSteps_iff.mpr (.inl (.closeCondition hn)))
    refine ⟨Program.topLevel_part hclosed hparts, ?_⟩
    obtain ⟨direction, hp⟩ := Payload.of_role (role_of_mem (mem_of_getElem? hn))
    obtain ⟨signals, hsignals⟩ := exitSignals_ok (fun _ => role_of_mem)
      (fun _ => role_of_mem) (neighbours n.id (expand g.nodes g.edges).edges)
    exact ⟨direction, signals, hp, hsignals, emitCloseCondition_lines hp hsignals i⟩
  · obtain ⟨htimes, before, after, hparts⟩ := hrun.exists_timeExit hn
    refine ⟨Program.topLevel_part hclosed hparts, ?_⟩
    obtain ⟨t, hp⟩ := Payload.of_role (role_of_mem (mem_of_getElem? hn))
    obtain ⟨rest, hlines⟩ := emitTimeExit_lines hn htimes hp
    exact ⟨t, rest, hp, hlines⟩
  · obtain ⟨n, hn, hrule⟩ := hmanaged
    rw [hlines]
    refine pass_last_of_still hm fun hnil => ?_
    rw [hnil, length_nil] at hrules
    exact Graph.management_eq_nil_iff.mp (length_eq_zero_iff.mp hrules.symm) n hn hrule
  · rw [Graph.management_eq_nil_iff.mpr hnone] at hrules
    rw [hlines]
    exact pass_absent_of_still hm (length_eq_zero_iff.mp hrules)

/-- A strategy that leaves on a signal, at a time of day and by a rule. -/
def leavingDocument : Json :=
  .obj [("nodes", .arr [.node "turn" "rsi", .node "buy" "place-buy",
    .node "back" "close-condition", .node "late" "time-exit" [("exitMode", .str "CLOSE_AT_TIME")],
    .node "trail" "trailing-stop"]),
    ("edges", .arr [.edge "turn" "back" [("id", .str "e")]])]

def leavingGraph : Graph := leavingDocument.graph

theorem exits_never_skipped_leaving :
    Graph.load leavingDocument = .ok leavingGraph ∧
      (∃ n ∈ leavingGraph.liveNodes, n.category = .management) ∧
      ∃ c back late, (compile leavingDocument "Test" {}).result = .ok c ∧
        (Roles.ofNodes leavingGraph.liveNodes).closeCondition[0]? = some back ∧
        (Roles.ofNodes leavingGraph.liveNodes).timeExit[0]? = some late ∧
        (∀ l ∈ c.program.tickLines, "return" ∉ words l) ∧
        TopLevel (Stmt.block (emitCloseCondition back 0
          (Roles.ofNodes leavingGraph.liveNodes).indicators
          (Roles.ofNodes leavingGraph.liveNodes).priceAction
          (expand leavingGraph.nodes leavingGraph.edges).edges).code.tick) c.program.tickLines ∧
        TopLevel (Stmt.block (emitTimeExit late 0 c.context c.program).code.tick)
          c.program.tickLines ∧
        ∃ before, c.program.tickLines = before ++ ["ManageOpenPositions();"] := by
  have hload : Graph.load leavingDocument = .ok leavingGraph := rfl
  have hrule : ∃ n ∈ leavingGraph.liveNodes, n.category = .management := by decide +kernel
  obtain ⟨back, hback⟩ : ∃ n, (Roles.ofNodes leavingGraph.liveNodes).closeCondition[0]? = some n :=
    Option.isSome_iff_exists.mp (by decide +kernel)
  obtain ⟨late, hlate⟩ : ∃ n, (Roles.ofNodes leavingGraph.liveNodes).timeExit[0]? = some n :=
    Option.isSome_iff_exists.mp (by decide +kernel)
  obtain ⟨c, hresult⟩ : ∃ c, (compile leavingDocument "Test" {}).result = .ok c :=
    compile_ok_of_methods hload (by decide) "Test"
  obtain ⟨hreturns, -, hcloses, htimes, hpass, -⟩ := exits_never_skipped hload hresult
  obtain ⟨before, hbefore, -⟩ := hpass hrule
  exact ⟨hload, hrule, c, back, late, hresult, hback, hlate, hreturns, (hcloses 0 back hback).1,
    (htimes 0 late hlate).1, before, hbefore⟩

end TradeGraph

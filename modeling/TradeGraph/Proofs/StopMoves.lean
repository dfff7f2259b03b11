import TradeGraph.Proofs.Passes
import TradeGraph.Proofs.References

/-!
# Stops of compiled programs

The functions of a compiled program that have to do with open positions come from its management
nodes. So whatever the rules, their numbers and their order, a pass over the open positions moves
stops in favour of the positions, but for the one kind of rule that does not look at the stop.
-/

namespace TradeGraph

open List Mql Rule

/-! ## The library -/

/-- The function has nothing to do with open positions. -/
def isUnmanaged (f : Function) : Bool :=
  (stem? f.name.text).isNone && f.name.text != "ManageOpenPositions"

theorem isUnmanaged_library (options : Options) :
    ∀ f ∈ libraryFunctions options, isUnmanaged f = true := by
  -- the options are looked at in the bodies of functions only
  have hnames : (libraryFunctions options).map Function.name =
      (libraryFunctions {}).map Function.name := rfl
  have hall : ∀ x ∈ (libraryFunctions {}).map Function.name,
      ((stem? x.text).isNone && x.text != "ManageOpenPositions") = true := by decide
  exact fun f hf => hall f.name (hnames ▸ mem_map_of_mem hf)

/-! ## Programs that manage their positions -/

section Passes

variable {p q : Program}

theorem Program.Passes.append (hp : p.Passes) (hq : q.Passes) : (p ++ q).Passes where
  rules r hr := (mem_append.mp hr).elim (hp.rules r) (hq.rules r)
  beforeLoop := Stmt.allCalm_append.mpr ⟨hp.beforeLoop, hq.beforeLoop⟩

theorem Program.passes_of_nil (hrules : p.rules = []) (hbefore : p.beforeLoop = []) : p.Passes where
  rules r hr := by rw [hrules] at hr; cases hr
  beforeLoop := by rw [hbefore]; trivial

end Passes

theorem ruleCode_passes {stem : String} (hstem : stem ∈ ruleStems) (k : RuleNumber) (what : String)
    (body : List Stmt) (ready : Option Ident) :
    (ruleCode (k.name stem) what (ruleParams stem) body ready).Passes := by
  refine ⟨fun r hr => ?_, trivial⟩
  refine ⟨k.name stem, stem, hstem, stem?_name (mem_append_right _ hstem) k, ?_⟩
  rw [mem_singleton.mp hr]
  cases ready with
  | none => exact .inl rfl
  | some flag => exact .inr ⟨flag, rfl⟩

theorem ruleAtr_passes (k : RuleNumber) (stem : String) (period : Ident) (what : String) :
    (ruleAtr k stem period what).Passes := by
  refine (Program.passes_of_nil rfl rfl).append ⟨by simp, ?_⟩
  simp +decide [AtrNames.refresh, copyBuffer, IdleCall]

theorem calm_clearEvery {counter prune : Ident} (h : CalledLike pruneStems prune.text) :
    Stmt.AllCalm IdleCall (fun _ => True) (clearEvery counter prune) := by
  simp [clearEvery, clearTicks, IdleCall, h]

theorem levelTable_passes : levelTable.Passes :=
  ⟨by simp [levelTable], calm_clearEvery ⟨"PruneMLTPStates", by decide, by decide⟩⟩

theorem managementCode_passes (n : Node) (program : Program) (rule : Management) :
    (managementCode n program rule).Passes := by
  have hnil {p : Program} (hrules : p.rules = []) (hbefore : p.beforeLoop = []) : p.Passes :=
    Program.passes_of_nil hrules hbefore
  cases rule with
  | breakeven q =>
    refine Program.Passes.append (Program.Passes.append ?_ (hnil rfl rfl))
      (ruleCode_passes (show "CheckBreakevenStop" ∈ ruleStems by decide) _ _ _ _)
    split
    · exact hnil rfl rfl
    · exact hnil rfl rfl
    · exact (hnil rfl rfl).append (ruleAtr_passes _ _ _ _)
  | trailing q =>
    refine Program.Passes.append (Program.Passes.append ?_ (hnil rfl rfl))
      (ruleCode_passes (show "CheckTrailingStop" ∈ ruleStems by decide) _ _ _ _)
    split
    · exact (hnil rfl rfl).append (ruleAtr_passes _ _ _ _)
    · exact hnil rfl rfl
    · exact hnil rfl rfl
  | partialClose q =>
    refine Program.Passes.append ⟨by simp, ?_⟩
      (ruleCode_passes (show "CheckPartialClose" ∈ ruleStems by decide) _ _ _ _)
    exact calm_clearEvery (calledLike_name (by decide) (by decide) _)
  | lockProfit q =>
    exact (hnil rfl rfl).append
      (ruleCode_passes (show "CheckLockProfit" ∈ ruleStems by decide) _ _ _ _)
  | multiTarget q =>
    refine Program.Passes.append (Program.Passes.append (hnil rfl rfl) ?_)
      (ruleCode_passes (show "CheckMultiLevelTP" ∈ ruleStems by decide) _ _ _ _)
    split
    · exact hnil rfl rfl
    · exact levelTable_passes

def Node.resetsStop (n : Node) : Bool :=
  match n.data.payload with
  | .management (.multiTarget q) => q.moveSlAfterTp1 != .nothing
  | _ => false

theorem managementCode_manages {n : Node} {rule : Management}
    (hrule : n.data.payload = .management rule) (program : Program) {loose : Prop}
    (hloose : n.resetsStop = true → loose) :
    ∀ f ∈ (managementCode n program rule).functions, f.Manages (Move.Fine loose) := by
  intro f hf
  cases rule with
  | breakeven q => exact .rule (by decide) (breakeven_tightens n q program loose f hf)
  | trailing q => exact .rule (by decide) (trailing_tightens n q program loose f hf)
  | partialClose q =>
    rcases partial_tightens n q program loose f hf with htable | htightens
    · exact .table htable
    · exact .rule (by decide) htightens
  | lockProfit q => exact .rule (by decide) (lock_tightens n q program loose f hf)
  | multiTarget q =>
    have hresets : n.resetsStop = (q.moveSlAfterTp1 != .nothing) := by rw [Node.resetsStop, hrule]
    have hset : q.moveSlAfterTp1 ≠ .nothing → loose := fun h =>
      hloose (hresets.trans (bne_iff_ne.mpr h))
    rcases targets_tightens n q program hset f hf with htable | htightens
    · exact .table htable
    · exact .rule (by decide) htightens

/-! ## Compiles -/

/-- A program whose functions for open positions are the known ones, and whose pass runs the known
rules. -/
structure Program.Managing (F : Move → Prop) (p : Program) : Prop extends p.Passes where
  functions : ∀ f ∈ p.functions, f.Manages F

section Managing

variable {F : Move → Prop} {p q : Program}

theorem Program.Managing.append (hp : p.Managing F) (hq : q.Managing F) : (p ++ q).Managing F where
  toPasses := hp.toPasses.append hq.toPasses
  functions f hf := (Program.mem_functions_append hf).elim (hp.functions f) (hq.functions f)

/-- A part that asks for functions that have nothing to do with open positions. -/
theorem Program.Asks.managing {fs : List Function} (h : p.Asks fs)
    (hfs : ∀ f ∈ fs, isUnmanaged f = true) : p.Managing F where
  toPasses := Program.passes_of_nil h.rules h.beforeLoop
  functions f hf := by
    obtain ⟨k, hk, hf⟩ := mem_flatMap.mp hf
    obtain ⟨g, hg, rfl⟩ := mem_map.mp (h.asked hk)
    cases mem_singleton.mp hf
    have hf := hfs f hg
    rw [isUnmanaged, Bool.and_eq_true, Option.isNone_iff_eq_none, bne_iff_ne] at hf
    exact .other hf.1 hf.2

theorem Program.managing_of_nil (hhelpers : p.helpers = []) (hrules : p.rules = [])
    (hbefore : p.beforeLoop = []) : p.Managing F where
  toPasses := Program.passes_of_nil hrules hbefore
  functions f hf := by
    rw [Program.functions, hhelpers] at hf
    cases hf

theorem emitManagement_managing {n : Node} {program : Program} {loose : Prop}
    (hloose : n.resetsStop = true → loose) :
    (emitManagement n program).code.Managing (Move.Fine loose) := by
  rw [emitManagement]
  split
  · rename_i rule hrule
    refine Program.Managing.append ⟨Program.passes_of_nil rfl rfl, fun f hf => ?_⟩
      ⟨managementCode_passes n program rule, managementCode_manages hrule program hloose⟩
    cases mem_singleton.mp hf
    exact .modify
  · exact Program.managing_of_nil rfl rfl rfl

theorem emitPass_managing (h : p.Passes) : (emitPass p).code.Managing F := by
  rw [emitPass]
  split
  · exact Program.managing_of_nil rfl rfl rfl
  · refine ⟨Program.passes_of_nil rfl rfl, fun f hf => ?_⟩
    cases mem_singleton.mp hf
    exact .pass h

end Managing

section Compiles

variable {g : Graph} {project : String} {options : Options} {c : Compiled}

theorem Graph.managing (h : (g.compile project options).result = .ok c) :
    c.program.Managing (Move.Fine (∃ n ∈ g.liveNodes, n.resetsStop = true)) := by
  refine (Graph.run_of_roles h).invariant (fun s hs m hm _ => hm.append ?_)
    (Program.managing_of_nil rfl rfl rfl)
  rcases mem_laterSteps_iff.mp hs with hs | ⟨n, hn, rfl⟩ | rfl
  · exact (hs.asks m).managing (isUnmanaged_library _)
  · exact emitManagement_managing fun hresets => ⟨n, mem_of_mem_filter hn, hresets⟩
  · exact emitPass_managing hm.toPasses

/-- **A pass never loosens a stop**, but for rules that set it without a look. Whatever the market
answers and whichever positions are open, each stop that a pass over them sets is not worse for the
position than the one that it had at that moment; or the graph has such a rule, and the stop is the
rounded open price. -/
theorem pass_never_loosens (h : (g.compile project options).result = .ok c) (market : Market)
    (bound depth : ℕ) (w : World) :
    ∃ new, (callAt market c.program.functions bound depth
        (.call "ManageOpenPositions" []) w).2.moves = w.moves ++ new ∧
      ∀ m ∈ new, m.NotWorse ∨ (∃ n ∈ g.liveNodes, n.resetsStop = true) ∧
        ∃ places, m.stop = roundTo places m.position.openPrice :=
  (callAt_pass (Graph.managing h).functions w).moves

end Compiles

/-! ## A pass with a rule of each kind -/

/-- A rule of each kind, with values by default but for what follows the first target. -/
def rulesDocument (after : String) : Json :=
  .obj [("nodes", .arr [.node "even" "breakeven-stop", .node "trail" "trailing-stop",
    .node "lock" "lock-profit", .node "part" "partial-close",
    .node "targets" "multi-level-tp" [("moveSLAfterTP1", .str after)]])]

def rulesGraph (after : String) : Graph := (rulesDocument after).graph

/-- A market with one price, on which all positions are of the program. -/
def quoting (price : ℚ) : Market := fun _ q =>
  match q with
  | .call "SymbolInfoDouble" [_, .constant "SYMBOL_BID"] => .num price
  | .call "SymbolInfoDouble" [_, .constant "SYMBOL_ASK"] => .num price
  | .call "SymbolInfoDouble" _ => .num (1 / 100)
  | .call "PositionGetInteger" _ => .constant "InpMagicNumber"
  | .call "PositionGetString" _ => .constant "_Symbol"
  | _ => .num 0

/-- The inputs of the rules as they are by default, and how prices are counted. -/
def defaultValues : List (String × ℚ) :=
  [("_Point", 1 / 100000), ("_Digits", 5), ("_pipFactor", 10), ("InpBETriggerPips", 20),
    ("InpBELockPips", 2), ("InpTrailPips", 20), ("InpTrailStartPips", 20),
    ("InpLockProfitPercent", 50), ("InpLockCheckInterval", 10), ("InpPartialClosePercent", 50),
    ("InpPartialCloseTriggerPips", 30), ("InpMLTP1Pips", 20), ("InpMLTP1Percent", 50)]

def boughtWith (stop volume : ℚ) : Position where
  ticket := 7
  side := .buy
  openPrice := 11 / 10
  stop
  target := 0
  volume

/-- The position with a stop at 1.09. -/
def boughtWorld : World where
  positions := [boughtWith (109 / 100) 1]
  selected := none
  globals x := (defaultValues.lookup x).map .num
  asked := []
  moves := []

def passMoves (c : Compiled) : List Move :=
  (callAt (quoting (1105 / 1000)) c.program.functions 10 3
    (.call "ManageOpenPositions" []) boughtWorld).2.moves

/-- The same, if the compile succeeds. -/
def Compilation.passMoves? (x : Compilation) : Option (List Move) :=
  match x.result with
  | .ok c => some (passMoves c)
  | .error _ => none

theorem Compilation.exists_of_passMoves? {x : Compilation} {moves : List Move}
    (h : x.passMoves? = some moves) : ∃ c, x.result = .ok c ∧ passMoves c = moves := by
  rw [passMoves?] at h
  cases hresult : x.result with
  | ok c =>
    rw [hresult] at h
    exact ⟨c, rfl, Option.some.inj h⟩
  | error f =>
    rw [hresult] at h
    cases h

theorem pass_never_loosens_default :
    ∃ c, ((rulesGraph "NONE").compile "Test" {}).result = .ok c ∧
      passMoves c = [⟨boughtWith (109 / 100) 1, 11002 / 10000⟩,
        ⟨boughtWith (11002 / 10000) 1, 1103 / 1000⟩] ∧
      ∀ m ∈ passMoves c, m.NotWorse := by
  have hmoves : ((rulesGraph "NONE").compile "Test" {}).passMoves? =
      some [⟨boughtWith (109 / 100) 1, 11002 / 10000⟩,
        ⟨boughtWith (11002 / 10000) 1, 1103 / 1000⟩] := by decide +kernel
  have hnone : ¬ ∃ n ∈ (rulesGraph "NONE").liveNodes, n.resetsStop = true := by decide +kernel
  obtain ⟨c, hc, hmoves⟩ := Compilation.exists_of_passMoves? hmoves
  obtain ⟨new, hnew, hfine⟩ := pass_never_loosens hc (quoting (1105 / 1000)) 10 3 boughtWorld
  have hsame : passMoves c = new := hnew
  exact ⟨c, hc, hmoves, fun m hm => (hfine m (hsame ▸ hm)).resolve_right fun h => hnone h.1⟩

/-- The stop follows the price to 1.103, and after the first target it is set back to 1.10. -/
theorem targets_loosen_trailed_stop :
    ∃ c, (compile (rulesDocument "BREAKEVEN") "Test" {}).result = .ok c ∧
      ⟨boughtWith (1103 / 1000) (1 / 4), 11 / 10⟩ ∈ passMoves c ∧
      ¬ Move.NotWorse ⟨boughtWith (1103 / 1000) (1 / 4), 11 / 10⟩ := by
  have hmoves : (compile (rulesDocument "BREAKEVEN") "Test" {}).passMoves? =
      some [⟨boughtWith (109 / 100) 1, 11002 / 10000⟩, ⟨boughtWith (11002 / 10000) 1, 1103 / 1000⟩,
        ⟨boughtWith (1103 / 1000) (1 / 4), 11 / 10⟩] := by decide +kernel
  have hlower : ¬ (1103 / 1000 : ℚ) ≤ 11 / 10 := by decide +kernel
  have hstop : (1103 / 1000 : ℚ) ≠ 0 := by decide +kernel
  obtain ⟨c, hc, hmoves⟩ := Compilation.exists_of_passMoves? hmoves
  exact ⟨c, hc, by simp [hmoves], fun h => hlower ((h hstop).1 rfl)⟩

end TradeGraph

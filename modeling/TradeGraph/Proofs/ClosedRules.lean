import TradeGraph.Proofs.ClosedExits

/-!
# Closed management rules

A rule is a function of its own, called in the pass over the open positions. Rules move stops by one
common function; two kinds keep tables, whose functions come with them.
-/

namespace TradeGraph.Rule

open List Mql Mql.Platform

variable {σ : Scope}
variable {k : RuleNumber} {n : Node} {stem what : String} {program : Program}
variable {group field comment : String} {params : List RuleParam} {body : List Stmt} {level : Nat}

/-! ## Common code -/

@[simp] theorem name_double
    {value : Float} : (k.double n group field stem value comment).name = k.name stem := rfl

@[simp] theorem name_int
    {value : Int} : (k.int n group field stem value comment).name = k.name stem := rfl

@[simp] theorem closed_common : isBuyPosition.Closed σ ∧ declareBalance.Closed σ ∧
    declareProfit.Closed σ ∧ Stmt.AllClosed σ declareLots := by
  simp +decide [isBuyPosition, declareBalance, declareProfit, declareLots]

@[simp] theorem closed_ofExpr {e : Expr} : ((selectTicket e).Closed σ ↔ e.Closed σ) ∧
    ((inPrice e).Closed σ ↔ e.Closed σ) ∧ ((noStop e).Closed σ ↔ e.Closed σ) ∧
    ((wholeLots e).Closed σ ↔ e.Closed σ) := by
  simp +decide [selectTicket, inPrice, noStop, wholeLots]

@[simp] theorem closed_shareReached {profit limit : Expr} :
    (shareReached profit limit).Closed σ ↔ profit.Closed σ ∧ limit.Closed σ := by
  simp +decide [shareReached]

@[simp] theorem closed_ofFlag {x : Ident} : ((triggerReached x).Closed σ ↔ σ.Has x) ∧
    ((keepValidLot x).Closed σ ↔ σ.Has x) := by
  simp +decide [triggerReached, keepValidLot]

theorem closed_modify (h : σ.HasFunction "SafePositionModify") {stop target : Expr} :
    (modify stop target).Closed σ.loose ↔ stop.Closed σ.loose ∧ target.Closed σ.loose := by
  simp +decide [modify, h]

theorem closed_clearEvery {counter prune : Ident} (hcounter : σ.loose.Has counter)
    (hprune : σ.loose.Has prune) (hname : σ.HasFunction prune) :
    Stmt.AllClosed σ.loose (clearEvery counter prune) := by
  simp +decide [clearEvery, clearTicks, hcounter, hprune, hname]

theorem safeModify_closed (hname : σ.HasFunction "SafePositionModify") :
    safeModify.Closed σ.loose := by
  simp +decide [Function.closed_iff, safeModify, hname]

/-! ## Rules -/

@[simp] theorem has_param (p : RuleParam) : σ.Has p.name := by
  cases p <;> exact σ.has_plain (by decide)

theorem hasWord_param (p : RuleParam) : σ.HasWord p.type := by
  cases p <;> exact σ.hasWord_plain (by decide)

def ruleFunction (name : Ident) (what : String) (params : List RuleParam) (body : List Stmt) :
    Function where
  title := some (what ++ " for one position")
  result := "void"
  name
  params := params.map fun p => { type := p.type, name := p.name }
  body

theorem ruleCode_helpers (name : Ident) (what : String) (params : List RuleParam)
    (body : List Stmt) (ready : Option Ident) :
    (ruleCode name what params body ready).helpers =
      [.ofFunction (ruleFunction name what params body)] := rfl

theorem ruleFunction_closed {name : Ident} (hname : σ.Calls name) (hwhat : OneLine what)
    (hbody : Stmt.AllClosed σ body) : (ruleFunction name what params body).Closed σ where
  title := by simp +decide [ruleFunction, hwhat]
  result := by simp +decide [ruleFunction]
  name := hname
  params := by simp [ruleFunction, hasWord_param]
  body := hbody

theorem ruleCode_closed {ready : Option Ident}
    (hstem : isLongPlain stem "" = true ∧ isOwnKey stem = true) (hwhat : OneLine what)
    (hready : ∀ x ∈ ready, σ.loose.Has x) (hbody : Stmt.AllClosed σ.loose body)
    (h : σ.Covers (ruleCode (k.name stem) what params body ready)) :
    (ruleCode (k.name stem) what params body ready).ClosedIn σ := by
  have hfunction : σ.HasFunction (ruleFunction (k.name stem) what params body).name :=
    h.hasFunction (f := ruleFunction (k.name stem) what params body)
      (by rw [ruleCode_helpers]; exact mem_cons_self) hstem.2
  have hcalls : σ.loose.Calls (k.name stem) := ⟨σ.loose.has_ruleName hstem.1, .inr hfunction⟩
  have hargs : Expr.AllClosed σ.loose (params.map fun p => Expr.var p.name) := by
    rw [Expr.allClosed_iff]
    intro e he
    obtain ⟨p, -, rfl⟩ := mem_map.mp he
    exact has_param p
  have hrule : Stmt.AllClosed σ.loose (ruleCode (k.name stem) what params body ready).rules := by
    cases ready with
    | none => exact ⟨⟨hcalls, hargs⟩, trivial⟩
    | some flag => exact ⟨⟨hready flag rfl, hcalls, hargs⟩, trivial⟩
  have hhelpers : ∀ f ∈ (ruleCode (k.name stem) what params body ready).helpers,
      f.Sound σ.loose := by
    rw [ruleCode_helpers, forall_mem_singleton]
    exact (Helper.sound_ofFunction (f := ruleFunction (k.name stem) what params body) hstem.2).mpr
      (ruleFunction_closed hcalls hwhat hbody)
  exact Program.closedIn_iff.mpr ⟨by simp [ruleCode], by simp [ruleCode], by simp [ruleCode],
    by simp [ruleCode], hhelpers, by simp [ruleCode], hrule, by simp [ruleCode]⟩

theorem ruleAtr_closed {period : Ident}
    (hstem : ∀ t ∈ ["Handle", "Buffer", "Ready"], isLongPlain stem t = true)
    (hperiod : σ.Has period) :
    (ruleAtr k stem period what).ClosedIn σ := by
  simp only [forall_mem_cons] at hstem
  have hhandle : σ.Has (k.atr stem).handle := σ.has_ruleName hstem.1
  have hvalues : σ.Has (k.atr stem).buffer := σ.has_ruleName hstem.2.1
  refine (AtrNames.setup_closed hhandle hvalues (by simp) (by simpa using hperiod)).append ?_
  have hrefresh : ((k.atr stem).refresh (k.name stem "Ready")).Closed σ.loose :=
    (AtrNames.closed_refresh (hhandle.mono σ.le_loose) (hvalues.mono σ.le_loose)).mpr
      (σ.loose.has_ruleName hstem.2.2.1)
  simp [Program.closedIn_iff, hrefresh]

/-! ## Rules that move the stop -/

section Rules

variable (hmodify : σ.HasFunction "SafePositionModify")

theorem closed_atrPoints {factor : Expr} (hbuffer : isLongPlain stem "Buffer" = true) :
    ((k.atr stem).points factor).Closed σ.loose ↔ factor.Closed σ.loose := by
  have hvalues : σ.loose.Has (k.atr stem).buffer := σ.loose.has_ruleName hbuffer
  exact AtrNames.closed_points hvalues (Scope.mayRead_of_elements rfl _ _)

include hmodify in
theorem breakevenCode_closed {p : Breakeven} (h : σ.Covers (breakevenCode n p program)) :
    (breakevenCode n p program).ClosedIn σ := by
  unfold breakevenCode at h ⊢
  cases htrigger : p.trigger
  all_goals
    simp only [htrigger] at h ⊢
    obtain ⟨h, hrule⟩ := Scope.covers_append.mp h
    obtain ⟨hcode, hlock⟩ := Scope.covers_append.mp h
    have hlock := hlock.inputs
    simp only [forall_mem_cons, name_double] at hlock
  case atr =>
    obtain ⟨hinputs, -⟩ := Scope.covers_append.mp hcode
    have hinputs := hinputs.inputs
    simp only [forall_mem_cons, name_double, name_int] at hinputs
    refine (((closedIn_inputs _ _).append (ruleAtr_closed (by decide)
      (by simp +decide [hinputs]))).append (closedIn_inputs _ _)).append
      (ruleCode_closed (by decide) (by decide) (by simp +decide) ?_ hrule)
    simp +decide [closed_modify hmodify, closed_atrPoints, hlock, hinputs]
  all_goals
    have hinputs := hcode.inputs
    simp only [forall_mem_cons, name_double] at hinputs
    refine ((closedIn_inputs _ _).append (closedIn_inputs _ _)).append
      (ruleCode_closed (by decide) (by decide) (by simp) ?_ hrule)
    simp +decide [closed_modify hmodify, hlock, hinputs]

include hmodify in
theorem trailingCode_closed {p : Trailing} (h : σ.Covers (trailingCode n p program)) :
    (trailingCode n p program).ClosedIn σ := by
  unfold trailingCode at h ⊢
  cases hmethod : p.method
  all_goals
    simp only [hmethod] at h ⊢
    obtain ⟨h, hrule⟩ := Scope.covers_append.mp h
    obtain ⟨hcode, hstart⟩ := Scope.covers_append.mp h
    have hstart := hstart.inputs
    simp only [forall_mem_cons, name_double] at hstart
  case atrBased =>
    obtain ⟨hinputs, -⟩ := Scope.covers_append.mp hcode
    have hinputs := hinputs.inputs
    simp only [forall_mem_cons, name_double, name_int] at hinputs
    refine (((closedIn_inputs _ _).append (ruleAtr_closed (by decide)
      (by simp +decide [hinputs]))).append (closedIn_inputs _ _)).append
      (ruleCode_closed (by decide) (by decide) (by simp +decide) ?_ hrule)
    simp +decide [closed_modify hmodify, closed_atrPoints, hstart, hinputs]
  all_goals
    have hinputs := hcode.inputs
    simp only [forall_mem_cons, name_double] at hinputs
    refine ((closedIn_inputs _ _).append (closedIn_inputs _ _)).append
      (ruleCode_closed (by decide) (by decide) (by simp) ?_ hrule)
    simp +decide [closed_modify hmodify, hstart, hinputs]

include hmodify in
theorem lockCode_closed {p : LockProfit} (h : σ.Covers (lockCode n p program)) :
    (lockCode n p program).ClosedIn σ := by
  unfold lockCode at h ⊢
  cases hmethod : p.method
  all_goals
    simp only [hmethod] at h ⊢
    obtain ⟨hinputs, hrule⟩ := Scope.covers_append.mp h
    have hinputs := hinputs.inputs
    simp only [forall_mem_cons, name_double] at hinputs
    refine (closedIn_inputs _ _).append (ruleCode_closed (by decide) (by decide) (by simp) ?_ hrule)
    simp +decide [closed_modify hmodify, hinputs]

/-! ## Partial closes -/

theorem text_name (k : RuleNumber) (stem : String) :
    (k.name stem).text = stem ++ (k.name "").digits := by
  rw [Ident.text_eq]
  show stem ++ ((k.name "").digits ++ "") = stem ++ (k.name "").digits
  rw [String.append_empty]

theorem isPrefixOf_closedTable (k : RuleNumber) :
    "PartialClosedTable".toList.isPrefixOf (k.name "PartialClosedTable").text.toList = true := by
  rw [text_name, String.toList_append, isPrefixOf_iff_prefix]
  exact prefix_append _ _

theorem keyNames_closedTable (k : RuleNumber) :
    keyNames (k.name "PartialClosedTable").text =
      [(k.name "IsPartialClosed").text, (k.name "MarkPartialClosed").text,
        (k.name "PrunePartialClosed").text] := by
  have hlevels : (k.name "PartialClosedTable").text ≠ "MLTPStateTable" := by
    intro heq
    have hprefix := isPrefixOf_closedTable k
    rw [heq] at hprefix
    cases hprefix
  have hdigits : (k.name "PartialClosedTable").text.toList.drop
      "PartialClosedTable".toList.length = (k.name "").digits.toList := by
    rw [text_name, String.toList_append, drop_left]
  rw [keyNames, if_neg hlevels, if_pos (isPrefixOf_closedTable k), hdigits, String.ofList_toList]
  simp only [map_cons, map_nil, text_name]

theorem closedTableFunctions_closed (his : σ.HasFunction (k.name "IsPartialClosed"))
    (hmark : σ.HasFunction (k.name "MarkPartialClosed"))
    (hprune : σ.HasFunction (k.name "PrunePartialClosed")) :
    ∀ f ∈ closedTableFunctions k, f.Closed σ.loose := by
  simp +decide [closedTableFunctions, Function.closed_iff, closedTable, his, hmark, hprune]

/-- The table of tickets of a rule. -/
def closedTableHelper (k : RuleNumber) : Helper where
  key := (k.name "PartialClosedTable").text
  body := .functions (closedTableFunctions k)

theorem closedTableHelper_sound
    (h : ∀ f ∈ closedTableFunctions k, f.Closed σ) : (closedTableHelper k).Sound σ where
  closed := ⟨rfl, h⟩
  names := (keyNames_closedTable k).symm
  key := by
    show isKey (k.name "PartialClosedTable").text = true
    rw [isKey, isPrefixOf_closedTable, Bool.or_true, Bool.true_or]

include hmodify in
theorem partialCode_closed {p : PartialClose} (h : σ.Covers (partialCode n p program)) :
    (partialCode n p program).ClosedIn σ := by
  unfold partialCode at h ⊢
  generalize nextRule program "InpPartialClosePercent" = k at h ⊢
  simp only at h ⊢
  obtain ⟨hown, hrule⟩ := Scope.covers_append.mp h
  have hnames := hown.helpers (closedTableHelper k) mem_cons_self
  rw [show (closedTableHelper k).key = (k.name "PartialClosedTable").text from rfl,
    keyNames_closedTable] at hnames
  simp only [forall_mem_cons] at hnames
  obtain ⟨his, hmark, hprune, -⟩ := hnames
  have his : σ.HasFunction (k.name "IsPartialClosed") := his
  have hmark : σ.HasFunction (k.name "MarkPartialClosed") := hmark
  have hprune : σ.HasFunction (k.name "PrunePartialClosed") := hprune
  have hinputs := hown.inputs
  refine Program.ClosedIn.append ?_ ?_
  · have htable : ∀ f ∈ [closedTableHelper k], f.Sound σ.loose := by
      rw [forall_mem_singleton]
      exact closedTableHelper_sound (closedTableFunctions_closed his hmark hprune)
    have hclear : Stmt.AllClosed σ.loose
        (clearEvery (k.name "_prunePartialCounter") (k.name "PrunePartialClosed")) :=
      closed_clearEvery (Scope.has_ruleName _ (by decide)) (Scope.has_ruleName _ (by decide)) hprune
    have hword : σ.Has (closedTable k) := σ.has_ruleName (by decide)
    exact Program.closedIn_iff.mpr ⟨by simp +decide [hword.1], trivial, trivial, trivial, htable,
      hclear, trivial, trivial⟩
  · refine ruleCode_closed (by decide) (by decide) (by simp) ?_ hrule
    cases hmethod : p.triggerMethod <;> cases hprotect : p.moveSlToBreakeven
    all_goals
      simp only [hmethod, forall_mem_cons, name_double] at hinputs
      simp +decide [closed_modify hmodify, hinputs, his, hmark]

/-! ## Targets in three levels -/

theorem levelTableFunctions_closed (hget : σ.HasFunction "GetMLTPLevel")
    (hset : σ.HasFunction "SetMLTPLevel") (hprune : σ.HasFunction "PruneMLTPStates") :
    ∀ f ∈ levelTableFunctions, f.Closed σ.loose := by
  simp +decide [levelTableFunctions, Function.closed_iff, levelCount, levelEntry, hget, hset,
    hprune]

theorem hasFunction_of_levelTable (h : σ.Covers levelTable) :
    σ.HasFunction "GetMLTPLevel" ∧ σ.HasFunction "SetMLTPLevel" ∧
      σ.HasFunction "PruneMLTPStates" := by
  have hnames := h.helpers { key := "MLTPStateTable", body := .functions levelTableFunctions }
    mem_cons_self
  rw [show keyNames "MLTPStateTable" = ["GetMLTPLevel", "SetMLTPLevel", "PruneMLTPStates"] from rfl]
    at hnames
  simpa only [forall_mem_cons, Scope.HasFunction, Scope.text_plain, not_mem_nil,
    false_imp_iff, implies_true, and_true] using hnames

theorem levelTable_closed (h : σ.Covers levelTable) : levelTable.ClosedIn σ := by
  obtain ⟨hget, hset, hprune⟩ := hasFunction_of_levelTable h
  have hclear : Stmt.AllClosed σ.loose (clearEvery "_pruneMLTPCounter" "PruneMLTPStates") :=
    closed_clearEvery (Scope.has_plain _ (by decide)) (Scope.has_plain _ (by decide)) hprune
  have hsound : ∀ f ∈ levelTable.helpers, f.Sound σ.loose := by
    intro f hf
    rw [mem_singleton.mp hf]
    exact ⟨⟨rfl, levelTableFunctions_closed hget hset hprune⟩, rfl, rfl⟩
  exact Program.closedIn_iff.mpr ⟨by simp +decide [levelTable], trivial, trivial, trivial, hsound,
    hclear, trivial, trivial⟩

theorem has_levelInputs {pips percent : Float} (hlevel : level ∈ [1, 2, 3])
    (h : ∀ x ∈ levelInputs k n level pips percent, σ.HasInput x.name) :
    σ.loose.Has (levelInput k level "Pips") ∧ σ.loose.Has (levelInput k level "Percent") := by
  simp only [levelInputs, forall_mem_cons, name_double] at h
  obtain ⟨hpips, hpercent, -⟩ := h
  simp only [mem_cons, not_mem_nil, or_false] at hlevel
  rcases hlevel with rfl | rfl | rfl
  all_goals
    exact ⟨(Scope.has_input _ (by decide)).mpr hpips, (Scope.has_input _ (by decide)).mpr hpercent⟩

@[simp] theorem closed_levelReached {before : Expr} :
    (levelReached k before level).Closed σ ↔
      before.Closed σ ∧ σ.Has (levelInput k level "Pips") := by
  simp +decide [levelReached]

include hmodify in
theorem trailAfterFirst_closed (hpips : σ.loose.Has (levelInput k 1 "Pips")) :
    Stmt.AllClosed σ.loose (trailAfterFirst k) := by
  simp +decide [trailAfterFirst, closed_modify hmodify, hpips]

include hmodify in
theorem targetsCode_closed {p : MultiTarget}
    (htable : program.mentions "SMLTPState" = true → σ.Covers levelTable)
    (h : σ.Covers (targetsCode n p program)) : (targetsCode n p program).ClosedIn σ := by
  unfold targetsCode at h ⊢
  generalize nextRule program "InpMLTP1Pips" = k at h ⊢
  simp only at h ⊢
  obtain ⟨h, hrule⟩ := Scope.covers_append.mp h
  obtain ⟨hinputs, hlevels⟩ := Scope.covers_append.mp h
  have hlevels : σ.Covers levelTable := by
    split at hlevels
    · exact htable ‹_›
    · exact hlevels
  obtain ⟨hget, hset, -⟩ := hasFunction_of_levelTable hlevels
  have hinputs := hinputs.inputs
  simp only [mem_append, or_imp, forall_and] at hinputs
  obtain ⟨⟨hfirst, hsecond⟩, hthird⟩ := hinputs
  obtain ⟨hpips₁, hpercent₁⟩ := has_levelInputs (by decide) hfirst
  obtain ⟨hpips₂, hpercent₂⟩ := has_levelInputs (by decide) hsecond
  obtain ⟨hpips₃, hpercent₃⟩ := has_levelInputs (by decide) hthird
  refine Program.ClosedIn.append (Program.ClosedIn.append (closedIn_inputs _ _) ?_) ?_
  · split
    · exact Program.closedIn_empty
    · exact levelTable_closed hlevels
  · refine ruleCode_closed (by decide) (by decide) (by simp) ?_ hrule
    cases p.moveSlAfterTp1
    all_goals
      simp +decide [closed_modify hmodify, trailAfterFirst_closed hmodify, setLevel, closesPart,
        hget, hset, hpips₁, hpips₂, hpips₃, hpercent₁, hpercent₂, hpercent₃]

end Rules

end TradeGraph.Rule

namespace TradeGraph

open List Mql Mql.Platform Rule

variable {σ : Scope}

/-! ## Steps -/

theorem managementCode_closed {n : Node} {program : Program} {rule : Management}
    (hmodify : σ.HasFunction "SafePositionModify")
    (htable : program.mentions "SMLTPState" = true → σ.Covers levelTable)
    (h : σ.Covers (managementCode n program rule)) :
    (managementCode n program rule).ClosedIn σ := by
  cases rule with
  | breakeven p => exact breakevenCode_closed hmodify h
  | trailing p => exact trailingCode_closed hmodify h
  | partialClose p => exact partialCode_closed hmodify h
  | lockProfit p => exact lockCode_closed hmodify h
  | multiTarget p => exact targetsCode_closed hmodify htable h

theorem ruleCalls_closed {rules : List Stmt} (h : Stmt.AllClosed σ rules) :
    Stmt.AllClosed σ (ruleCalls rules) := by
  have hreselect : Stmt.AllClosed σ reselect := by simp +decide [reselect]
  cases rules with
  | nil => trivial
  | cons first rest =>
    refine ⟨h.1, ?_⟩
    rw [Stmt.allClosed_iff]
    intro s hs
    obtain ⟨r, hr, hs⟩ := mem_flatMap.mp hs
    rcases mem_append.mp hs with hs | hs
    · exact Stmt.allClosed_iff.mp hreselect s hs
    · rw [mem_singleton.mp hs]
      exact Stmt.allClosed_iff.mp h.2 r hr

theorem passFunction_closed (hgeneral : Library.General σ) {program : Program}
    (hname : σ.HasFunction "ManageOpenPositions")
    (hbefore : Stmt.AllClosed σ.loose program.beforeLoop)
    (hrules : Stmt.AllClosed σ.loose program.rules) : (passFunction program).Closed σ.loose := by
  have hblank : Stmt.AllClosed σ.loose (if program.beforeLoop.isEmpty then [] else [.blank]) := by
    split <;> simp
  refine Function.closed_iff.mpr ⟨by simp +decide [passFunction], by simp +decide [passFunction],
    by simp +decide [passFunction, hname], by simp [passFunction], ?_⟩
  show Stmt.AllClosed σ.loose (_ ++ _ ++ _)
  rw [Stmt.allClosed_append, Stmt.allClosed_append]
  refine ⟨⟨hbefore, hblank⟩, ?_⟩
  simp +decide [Library.ownPosition_closed hgeneral.loose, ruleCalls_closed hrules]

theorem emitPass_onTick (hname : σ.HasFunction "ManageOpenPositions")
    (hpass : "ManageOpenPositions" ∈ σ.reserved) (program : Program) :
    InTurn σ (emitPass program).code.tick ∧ Expr.AllClosed σ (emitPass program).code.gates := by
  rw [emitPass]
  split <;> simp +decide [hname, hpass]

theorem emitPass_closed (hgeneral : Library.General σ) {program : Program}
    (hpass : "ManageOpenPositions" ∈ σ.reserved) (hprogram : program.ClosedIn σ)
    (h : σ.Covers (emitPass program).code) : (emitPass program).code.ClosedIn σ := by
  rw [emitPass] at h ⊢
  split at h
  · rename_i hnone
    rw [if_pos hnone]
    exact Program.closedIn_empty
  · rename_i hsome
    rw [if_neg hsome]
    have hkey : isOwnKey (passFunction program).name.stem = true := by
      show isOwnKey "ManageOpenPositions" = true
      decide
    have hname : σ.HasFunction "ManageOpenPositions" :=
      h.hasFunction (f := passFunction program) mem_cons_self hkey
    have hsound : (Helper.ofFunction (passFunction program)).Sound σ.loose :=
      (Helper.sound_ofFunction hkey).mpr
        (passFunction_closed hgeneral hname hprogram.beforeLoop hprogram.rules)
    simp +decide [Program.closedIn_iff, hsound, hname, hpass]

end TradeGraph

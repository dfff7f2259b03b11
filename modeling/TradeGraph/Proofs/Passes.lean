import TradeGraph.Proofs.Tightening

/-!
# The pass over the open positions

The pass selects one position after the other and calls all rules for it. Between two rules it
selects the position again and reads its stop, so that each rule is told the truth.
-/

namespace TradeGraph

open List Mql Mql.Platform Rule

/-! ## Functions -/

def ruleAction (f : Ident) (stem : String) : Action :=
  .run (.call f ((ruleParams stem).map fun q => Expr.var q.name))

/-- The statement calls a rule, perhaps if a flag is set. -/
def RuleCall (r : Stmt) : Prop :=
  ∃ (f : Ident) (stem : String), stem ∈ ruleStems ∧ stem? f.text = some stem ∧
    (r = .act (ruleAction f stem) ∨ ∃ flag : Ident, r = .guard flag (ruleAction f stem))

/-- What the pass runs: rules, and before them code that changes no position. -/
structure Program.Passes (p : Program) : Prop where
  rules : ∀ r ∈ p.rules, RuleCall r
  beforeLoop : Stmt.AllCalm IdleCall (fun _ => True) p.beforeLoop

inductive Mql.Function.Manages (F : Move → Prop) : Function → Prop
  | modify : Manages F safeModify
  | table {f : Function} : f.OfTable → Manages F f
  | rule {f : Function} {stem : String} : stem ∈ ruleStems → f.Tightens F stem → Manages F f
  | pass {p : Program} : p.Passes → Manages F (passFunction p)
  | other {f : Function} : stem? f.name.text = none → f.name.text ≠ "ManageOpenPositions" →
      Manages F f

theorem stem?_pass (p : Program) : stem? (passFunction p).name.text = none := by
  have hnone : stem? "ManageOpenPositions" = none := by decide
  exact hnone

section Functions

variable {F : Move → Prop} {functions : List Function}

theorem managed_of_manages (h : ∀ f ∈ functions, f.Manages F) : Managed functions := by
  intro f hf stem hstem
  cases h f hf with
  | modify => exact .inr (.inr rfl)
  | table htable => exact .inr (.inl htable)
  | rule hrule htightens =>
    rw [htightens.named] at hstem
    cases hstem
    exact .inl hrule
  | pass _ =>
    rw [stem?_pass] at hstem
    cases hstem
  | other hnone _ =>
    rw [hnone] at hstem
    cases hstem

theorem Mql.Function.Manages.tightens {f : Function} (h : f.Manages F) {stem : String}
    (hrule : stem ∈ ruleStems) (hstem : stem? f.name.text = some stem) : f.Tightens F stem := by
  cases h with
  | modify =>
    cases hstem
    exact absurd hrule (by decide)
  | table htable =>
    rcases htable.named with ⟨other, hother, hname⟩ | ⟨other, hother, hname⟩
    all_goals
      rw [hname] at hstem
      cases hstem
    · exact absurd hrule (tableStems_apart _ (mem_append_left _ hother))
    · exact absurd hrule (tableStems_apart _ (mem_append_right _ hother))
  | rule _ htightens =>
    rw [htightens.named] at hstem
    cases hstem
    exact htightens
  | pass _ =>
    rw [stem?_pass] at hstem
    cases hstem
  | other hnone _ =>
    rw [hnone] at hstem
    cases hstem

theorem Mql.Function.Manages.passes {f : Function} (h : f.Manages F)
    (hname : f.name.text = "ManageOpenPositions") :
    ∃ p : Program, p.Passes ∧ f = passFunction p := by
  have hnone : stem? f.name.text = none := hname ▸ by decide
  cases h with
  | modify => cases hnone
  | table htable =>
    rcases htable.named with ⟨other, hother, hnamed⟩ | ⟨other, hother, hnamed⟩
    all_goals
      rw [hnone] at hnamed
      cases hnamed
  | rule _ htightens =>
    rw [htightens.named] at hnone
    cases hnone
  | @pass p hpasses => exact ⟨p, hpasses, rfl⟩
  | other _ hne => exact absurd hname hne

end Functions

/-! ## Calls of rules -/

section Rules

variable {F : Move → Prop} {market : Market} {functions : List Function} {bound depth : ℕ}
  {s t : State} {p : Position}

theorem Mql.Function.enter_map (f : Function) (value : String → Value) {x : String}
    (hx : x ∈ f.params.map fun q => q.name.text) :
    f.enter ((f.params.map fun q => q.name.text).map value) x = some (value x) := by
  rw [Function.enter, ← map_prod_left_eq_zip, lookup_graph value hx]

theorem mem_ruleParams : ∀ stem ∈ ruleStems, ∀ x ∈ ["ticket", "openPrice", "posType"],
    x ∈ (ruleParams stem).map fun q => q.name.text := by
  decide

/-- **A rule that is called for its position** sets fine stops only. -/
theorem callAt_rule (h : ∀ f ∈ functions, f.Manages F) {f stem : String} (hrule : stem ∈ ruleStems)
    (hstem : stem? f = some stem) (hseat : Seated s p)
    (hstop : s.locals "currentSL" = some (.num p.stop)) :
    s.world.Later F (callAt market functions bound depth
      (.call f ((ruleParams stem).map fun q => s.lookup q.name.text)) s.world).2 := by
  rcases callAt_call f ((ruleParams stem).map fun q => s.lookup q.name.text) depth s.world with
    hcall | ⟨g, hg, rfl, below, hcall⟩
  · rw [hcall]
    exact (perform_quiet (q := .call _ _) (not_mem_selectCalls hstem) s.world).later
  · have htightens := (h g hg).tightens hrule hstem
    have hargs : (ruleParams stem).map (fun q => s.lookup q.name.text) =
        (g.params.map fun q => q.name.text).map s.lookup := by
      rw [htightens.given, map_map]
      rfl
    have henter {x : String} (hx : x ∈ (ruleParams stem).map fun q => q.name.text) :
        g.enter ((ruleParams stem).map fun q => s.lookup q.name.text) x = some (s.lookup x) := by
      rw [hargs]
      exact g.enter_map s.lookup (htightens.given ▸ hx)
    have hgiven {x : String} (hx : x ∈ ["ticket", "openPrice", "posType"]) :=
      henter (mem_ruleParams stem hrule x hx)
    let start : State := ⟨g.enter ((ruleParams stem).map fun q => s.lookup q.name.text), s.world⟩
    rw [hcall, Function.run_world]
    refine (htightens.kept (s := start) (p := p)
      (serves_callAt (managed_of_manages h) below) ?_ ?_).world
    · exact
        { selected := hseat.selected
          there := hseat.there
          ticket := (hgiven (by decide)).trans (congrArg some hseat.lookup_ticket)
          openPrice := (hgiven (by decide)).trans
            (congrArg some (State.lookup_of_local (by decide) hseat.openPrice))
          posType := (hgiven (by decide)).trans
            (congrArg some (State.lookup_of_local (by decide) hseat.posType)) }
    · intro hparam
      exact (henter (mem_map.mpr ⟨_, hparam, rfl⟩)).trans
        (congrArg some (State.lookup_of_local (by decide) hstop))

/-- Rules that are called for their position set fine stops only. -/
def Mql.Caller.RunsRules (F : Move → Prop) (call : Caller) : Prop :=
  ∀ {f stem : String}, stem ∈ ruleStems → stem? f = some stem → ∀ {s : State} {p : Position},
    Seated s p → s.locals "currentSL" = some (.num p.stop) →
      s.world.Later F
        (call (.call f ((ruleParams stem).map fun q => s.lookup q.name.text)) s.world).2

theorem evalAll_vars (call : Caller) (s : State) :
    ∀ params : List RuleParam, Expr.evalAll call (params.map fun q => Expr.var q.name) s =
      (params.map fun q => s.lookup q.name.text, s)
  | [] => rfl
  | q :: params => by
    simp only [map_cons, Expr.evalAll, Expr.eval, evalAll_vars call s params]

variable {call : Caller}

theorem kept_ruleCall (hruns : call.RunsRules F) {r : Stmt} (hr : RuleCall r) (hseat : Seated s p)
    (hstop : s.locals "currentSL" = some (.num p.stop)) :
    Kept (World.Later F) NotGiven s (Stmt.execAll call bound [r] s).2 := by
  have hlater := along_later F
  obtain ⟨f, stem, hrule, hstem, hcase⟩ := hr
  have hcall : Kept (World.Later F) NotGiven s ((ruleAction f stem).exec call s).2 := by
    simp only [ruleAction, Action.exec, Expr.eval, evalAll_vars]
    exact ⟨hruns hrule hstem hseat hstop, fun _ _ => rfl⟩
  refine kept_andThen hlater ?_ (.refl hlater)
  rcases hcase with rfl | ⟨flag, rfl⟩
  · exact hcall
  · show Kept _ _ s (if (s.lookup flag.text).isTrue = true then _ else (Flow.on, s)).2
    split
    · exact hcall
    · exact .refl hlater s

theorem execAll_readStop (hserves : call.Serves F market) (hselected : s.world.selected = some p)
    (hsome : (s.locals "currentSL").isSome) (rest : List Stmt) :
    Stmt.execAll call bound (.assign "currentSL" (positionDouble "POSITION_SL") :: rest) s =
      Stmt.execAll call bound rest (s.declare "currentSL" (.num p.stop)) := by
  have hset : s.set "currentSL" (.num p.stop) = s.declare "currentSL" (.num p.stop) := if_pos hsome
  let read : Expr := positionDouble "POSITION_SL"
  show Stmt.execAll call bound rest ((read.eval call s).2.set "currentSL" (read.eval call s).1) = _
  rw [eval_stop hserves hselected, hset]

theorem Seated.declare_stop (hseat : Seated s p) :
    Seated (s.declare "currentSL" (.num p.stop)) p where
  selected := hseat.selected
  there := hseat.there
  ticket := hseat.ticket
  openPrice := hseat.openPrice
  posType := hseat.posType

theorem kept_laterRules (hserves : call.Serves F market) (hruns : call.RunsRules F) :
    ∀ {rules : List Stmt}, (∀ r ∈ rules, RuleCall r) → ∀ {s t : State} {p : Position},
      Seated s p → (s.locals "currentSL").isSome → Kept (World.Later F) NotGiven s t →
        Kept (World.Later F) (fun _ => True) t
          (Stmt.execAll call bound (rules.flatMap fun r => reselect ++ [r]) t).2
  | [], _, _, t, _, _, _, _ => .refl (along_later F) t
  | r :: rules, hrules, s, t, p, hseat, hsome, hsince => by
    have hlater := along_later F
    obtain ⟨hr, hrest⟩ := forall_mem_cons.mp hrules
    let volume : List Stmt := [.assign "volume" (positionDouble "POSITION_VOLUME")]
    have hcalm : Stmt.AllCalm QuietCall NotGiven volume := by simp +decide [volume, QuietCall]
    show Kept _ _ t (Stmt.execAll call bound (.guard (.not (selectTicket "ticket")) .skip ::
      .assign "currentSL" (positionDouble "POSITION_SL") ::
        (volume ++ ([r] ++ rules.flatMap fun r => reselect ++ [r]))) t).2
    -- The position may have another stop by now: from here on it is the one just selected.
    refine kept_reselect hserves hseat hsince (.inr rfl) fun u q hu hkept => ?_
    have hthere : (u.locals "currentSL").isSome := by
      rw [hkept.locals _ id, hsince.given (by decide)]
      exact hsome
    rw [execAll_readStop hserves hu.selected hthere]
    have hread : Kept World.Quiet (fun _ => True) u (u.declare "currentSL" (.num q.stop)) :=
      kept_declare along_quiet trivial _ u
    refine (hread.mono World.Quiet.later).trans hlater ?_
    have hvolume := Stmt.kept_execAll along_quiet hserves.quiet bound volume hcalm
      (u.declare "currentSL" (.num q.stop))
    refine Stmt.kept_append hlater ((hvolume.mono World.Quiet.later).weaken fun _ _ => trivial)
      fun v hv _ => ?_
    rw [← hv] at hvolume
    have hnow := hu.declare_stop.kept hvolume
    have hstop : v.locals "currentSL" = some (.num q.stop) := hvolume.given (by decide)
    have hrule : Kept _ _ v (Stmt.execAll call bound [r] v).2 := kept_ruleCall hruns hr hnow hstop
    refine Stmt.kept_append hlater (hrule.weaken fun _ _ => trivial) fun x hx _ => ?_
    exact kept_laterRules hserves hruns hrest hnow (by rw [hstop]; rfl) (hx ▸ hrule)

/-- **All rules for one position**, one after the other. -/
theorem kept_ruleCalls (hserves : call.Serves F market) (hruns : call.RunsRules F)
    {rules : List Stmt} (hrules : ∀ r ∈ rules, RuleCall r) (hseat : Seated s p)
    (hstop : s.locals "currentSL" = some (.num p.stop)) :
    Kept (World.Later F) (fun _ => True) s (Stmt.execAll call bound (ruleCalls rules) s).2 := by
  have hlater := along_later F
  cases rules with
  | nil => exact .refl hlater s
  | cons r rules =>
    obtain ⟨hr, hrest⟩ := forall_mem_cons.mp hrules
    have hrule : Kept _ _ s (Stmt.execAll call bound [r] s).2 := kept_ruleCall hruns hr hseat hstop
    show Kept _ _ s (Stmt.execAll call bound ([r] ++ rules.flatMap fun r => reselect ++ [r]) s).2
    refine Stmt.kept_append hlater (hrule.weaken fun _ _ => trivial) fun t ht _ => ?_
    exact kept_laterRules hserves hruns hrest hseat (by rw [hstop]; rfl) (ht ▸ hrule)

/-! ## Rounds -/

/-- What is read of a position though no rule needs it. -/
def otherReadings : List Stmt :=
  [.declare "double" "currentTP" (positionDouble "POSITION_TP"),
    .declare "double" "positionProfit" (positionDouble "POSITION_PROFIT"),
    .declare "double" "volume" (positionDouble "POSITION_VOLUME")]

/-- A position is read before the rest is done. -/
def readings (rest : List Stmt) : List Stmt :=
  .declare "double" "openPrice" (positionDouble "POSITION_PRICE_OPEN") ::
    .declare "double" "currentSL" (positionDouble "POSITION_SL") ::
    (otherReadings ++ .declare "long" "posType" (positionInteger "POSITION_TYPE") :: rest)

theorem kept_describe (hserves : call.Serves F market) (hchosen : Chosen s p) {rest : List Stmt}
    (hrest : ∀ t, Seated t p → t.locals "currentSL" = some (.num p.stop) →
      Kept (World.Later F) (fun _ => True) t (Stmt.execAll call bound rest t).2) :
    Kept (World.Later F) (fun _ => True) s (Stmt.execAll call bound (readings rest) s).2 := by
  have hlater := along_later F
  let opened : State := s.declare "openPrice" (.num p.openPrice)
  let known : State := opened.declare "currentSL" (.num p.stop)
  have hopen : (positionDouble "POSITION_PRICE_OPEN").eval call s = (.num p.openPrice, s) :=
    eval_property hserves hchosen.selected (.inl rfl) (by decide) rfl
  have hstop : (positionDouble "POSITION_SL").eval call opened = (.num p.stop, opened) :=
    eval_stop hserves hchosen.selected
  have hknown : Kept World.Quiet (· ≠ "ticket") s known :=
    (kept_declare along_quiet (by decide) _ s).trans along_quiet
      (kept_declare along_quiet (by decide) _ opened)
  rw [readings, Stmt.execAll_declare, hopen]
  show Kept _ _ s (Stmt.execAll call bound (.declare _ _ _ :: _) opened).2
  rw [Stmt.execAll_declare, hstop]
  refine ((hknown.mono World.Quiet.later).weaken fun _ _ => trivial).trans hlater ?_
  show Kept _ _ known (Stmt.execAll call bound (otherReadings ++ _) known).2
  have hothers : Kept World.Quiet NotGiven known (Stmt.execAll call bound otherReadings known).2 :=
    Stmt.kept_execAll along_quiet hserves.quiet bound _
      (by simp +decide [otherReadings, QuietCall]) known
  refine Stmt.kept_append hlater ((hothers.mono World.Quiet.later).weaken fun _ _ => trivial)
    fun t ht _ => ?_
  rw [← ht] at hothers
  -- reading on changes neither the position nor what was read of it before
  have hnow := (hchosen.kept (by decide) hknown).kept (by decide) hothers
  have htype : (positionInteger "POSITION_TYPE").eval call t = (.ofSide p.side, t) :=
    eval_property hserves hnow.selected (.inr rfl) (by decide) rfl
  rw [Stmt.execAll_declare, htype]
  have hlast : Kept World.Quiet (fun _ => True) t (t.declare "posType" (.ofSide p.side)) :=
    kept_declare along_quiet trivial _ t
  refine (hlast.mono World.Quiet.later).trans hlater (hrest _ ?_ ?_)
  · exact
      { selected := hnow.selected
        there := hnow.there
        ticket := hnow.ticket
        openPrice := hothers.given (by decide)
        posType := rfl }
  · exact hothers.given (by decide)

/-- **One round of the pass.** -/
theorem kept_round (hserves : call.Serves F market) (hruns : call.RunsRules F)
    {rules : List Stmt} (hrules : ∀ r ∈ rules, RuleCall r) (s : State) :
    Kept (World.Later F) (fun _ => True) s (Stmt.execAll call bound
      ([Library.positionTicket, .guard (.not (selectTicket "ticket")) .skip] ++
        Library.ownPosition ++ [.blank] ++ readings (.blank :: ruleCalls rules)) s).2 := by
  have hlater := along_later F
  let ticket : Expr := .call "PositionGetTicket" ["i"]
  let chosen : Value × World := s.world.selectAt (s.lookup "i").toNum
  have hcall : call (.call "PositionGetTicket" [s.lookup "i"]) s.world = chosen :=
    hserves.platform _ (by decide) _ _
  have heval : ticket.eval call s = (chosen.1, { s with world := chosen.2 }) := by
    show State.request call (.call "PositionGetTicket" [s.lookup "i"]) s = _
    rw [State.request, hcall]
  obtain ⟨x, hx⟩ : ∃ x, chosen.1 = .num x := World.selectAt_num _ _
  have hticket : Kept World.Idle (fun _ => True) s
      (State.declare "ticket" chosen.1 { s with world := chosen.2 }) :=
    ⟨selectAt_idle _ _, fun _ h => absurd trivial h⟩
  show Kept _ _ s (Stmt.execAll call bound (.declare _ "ticket" ticket ::
    .guard (.not (selectTicket "ticket")) .skip :: (Library.ownPosition ++ [.blank] ++ _)) s).2
  rw [Stmt.execAll_declare, heval]
  refine (hticket.mono fun h => h.still.later).trans hlater ?_
  refine kept_choose hserves (congrArg some hx) (.inr rfl) fun u q hu _ _ => ?_
  have hown : Kept World.Quiet (fun _ => False) u
      (Stmt.execAll call bound (Library.ownPosition ++ [.blank]) u).2 :=
    Stmt.kept_execAll along_quiet hserves.quiet bound _
      (by simp +decide [Library.ownPosition, Library.magic, QuietCall]) u
  refine Stmt.kept_append hlater ((hown.mono World.Quiet.later).weaken fun _ _ => trivial)
    fun v hv _ => ?_
  rw [← hv] at hown
  exact kept_describe hserves (hu.kept id hown) fun w hw hstop =>
    kept_ruleCalls hserves hruns hrules hw hstop

/-! ## The pass -/

theorem kept_pass (hserves : call.Serves F market) (hruns : call.RunsRules F) {p : Program}
    (hpasses : p.Passes) (s : State) :
    Kept (World.Later F) (fun _ => True) s (Stmt.execAll call bound (passFunction p).body s).2 := by
  have hlater := along_later F
  have hidle : call.Respects IdleCall (World.Later F) := fun q hq w =>
    (hserves.idle q hq w).still.later
  refine Stmt.kept_after_calm hlater hlater id hidle ?_ fun t _ => ?_
  · refine Stmt.allCalm_append.mpr ⟨hpasses.beforeLoop, ?_⟩
    split <;> simp
  · refine kept_andThen hlater ?_ (.refl hlater)
    refine Loop.kept_exec hlater hidle (kept_round hserves hruns hpasses.rules) _ ?_ t
    simp +decide [Library.positionLoop, Library.downFrom, IdleCall]

/-- **The pass sets fine stops only.** -/
theorem callAt_pass (h : ∀ f ∈ functions, f.Manages F) (w : World) :
    w.Later F (callAt market functions bound depth (.call "ManageOpenPositions" []) w).2 := by
  have hselect : "ManageOpenPositions" ∉ selectCalls := by decide
  rcases callAt_call "ManageOpenPositions" [] depth w with hcall | ⟨g, hg, hname, below, hcall⟩
  · rw [hcall]
    exact (perform_quiet (q := .call _ _) hselect w).later
  · obtain ⟨p, hpasses, rfl⟩ := (h g hg).passes hname
    rw [hcall, Function.run_world]
    refine (kept_pass (serves_callAt (managed_of_manages h) below) ?_ hpasses ⟨_, w⟩).world
    exact fun hrule hstem _ _ hseat hstop => callAt_rule h hrule hstem hseat hstop

end Rules

end TradeGraph

import TradeGraph.Proofs.Emission
import TradeGraph.Proofs.Seats

/-!
# Rules only tighten stops

A rule compares the stop that it would set with the one that the position has, and moves it in
favour of the position or not at all. There is one exception: after its first target, a rule with
several targets sets the stop to the open price without a look at the stop that is there.
-/

namespace TradeGraph

open List Mql Mql.Platform Rule

variable {loose : Prop}

/-! ## Moves -/

/-- If there was a stop, the new one is not worse: not lower for a buy, not higher for a sell. -/
def Mql.Move.NotWorse (m : Move) : Prop :=
  m.position.stop ≠ 0 → (m.position.side = .buy → m.position.stop ≤ m.stop) ∧
    (m.position.side = .sell → m.stop ≤ m.position.stop)

theorem Mql.Move.notWorse_of_lt {p : Position} {stop : ℚ} (hside : p.side = .buy)
    (h : p.stop < stop ∨ p.stop = 0) : Move.NotWorse ⟨p, stop⟩ :=
  fun hstop => ⟨fun _ => (h.resolve_right hstop).le, fun hsell => (by cases hside.symm.trans hsell)⟩

theorem Mql.Move.notWorse_of_gt {p : Position} {stop : ℚ} (hside : p.side = .sell)
    (h : stop < p.stop ∨ p.stop = 0) : Move.NotWorse ⟨p, stop⟩ :=
  fun hstop => ⟨fun hbuy => (by cases hside.symm.trans hbuy), fun _ => (h.resolve_right hstop).le⟩

/-- A stop that is not worse; or, if there is a rule that sets it so, the open price. -/
def Mql.Move.Fine (loose : Prop) (m : Move) : Prop :=
  m.NotWorse ∨ loose ∧ ∃ places, m.stop = roundTo places m.position.openPrice

section Rules

variable {F : Move → Prop} {market : Market} {call : Caller} {bound : ℕ} {s t : State}
  {p : Position}

/-- The test of a rule, which has the stop of the position in a variable: if it holds, the new stop
is fine. -/
def Tests (F : Move → Prop) (call : Caller) (p : Position) (x : String) (test : Expr) : Prop :=
  ∀ s : State, s.lookup x = .num p.stop → test.Tells call s (F ⟨p, (s.lookup "newSL").toNum⟩)

theorem kept_block (hserves : call.Serves F market) (hseat : Seated s p) {X : String → Prop}
    (hX : ∀ y, X y → NotGiven y) {x : String} (hx : ¬ X x) (hconst : x ∉ positionConstants)
    (hstop : s.locals x = some (.num p.stop)) {block : List Stmt} (k : ℕ)
    (hpre : Stmt.AllCalm QuietCall X (block.take k)) {test target : Expr}
    (hlast : block.drop k = [.guard test (modify "newSL" target)] ∨
      block.drop k = [.guardBelow test (modify "newSL" target)])
    (htarget : target.Calm QuietCall NotGiven) (htest : Tests F call p x test) :
    Kept (World.Later F) NotGiven s (Stmt.execAll call bound block s).2 := by
  have hlater := along_later F
  have hpre := Stmt.kept_execAll along_quiet hserves.quiet bound _ hpre s
  rw [← take_append_drop k block]
  refine Stmt.kept_append hlater ((hpre.weaken hX).mono World.Quiet.later) fun t ht _ => ?_
  rw [← ht] at hpre
  have hnow : t.lookup x = .num p.stop :=
    State.lookup_of_local hconst ((hpre.locals x hx).trans hstop)
  have hset : Kept (World.Later F) NotGiven t
      (test.decideOn call ((modify "newSL" target).exec call) (fun s => (.on, s)) t).2 :=
    kept_tested hserves (hseat.kept (hpre.weaken hX)) (by trivial) htarget (htest t hnow)
      (.refl hlater t)
  rcases hlast with hlast | hlast
  all_goals
    rw [hlast]
    exact kept_andThen hlater hset (.refl hlater)

/-- A rule that finds a new stop for each side and sets it if a test of that side holds. -/
theorem kept_sided (hserves : call.Serves F market) (hseat : Seated s p)
    (hstop : s.locals "currentSL" = some (.num p.stop)) {body yes no : List Stmt}
    {buys sells target : Expr} (k m : ℕ) (hbody : body.drop k = [.branchElse isBuyPosition yes no])
    (hyes : yes.drop m = [.guard buys (modify "newSL" target)])
    (hno : no.drop m = [.guard sells (modify "newSL" target)])
    (htarget : target.Calm QuietCall NotGiven)
    (hcalm : Stmt.AllCalm QuietCall NotGiven (body.take k ++ yes.take m ++ no.take m))
    (hbuys : p.side = .buy → Tests F call p "currentSL" buys)
    (hsells : p.side = .sell → Tests F call p "currentSL" sells) :
    Kept (World.Later F) NotGiven s (Stmt.execAll call bound body s).2 := by
  simp only [Stmt.allCalm_append] at hcalm
  obtain ⟨⟨hpre, hpreBuy⟩, hpreSell⟩ := hcalm
  rw [← take_append_drop k body, hbody]
  refine Stmt.kept_after_calm (along_later F) along_quiet World.Quiet.later hserves.quiet hpre ?_
  intro t ht
  have hnow : t.locals "currentSL" = some (.num p.stop) := (ht.given (by decide)).trans hstop
  rw [Stmt.execAll_branchElse, eval_isBuyPosition (hseat.kept ht).posType, append_nil]
  cases hside : p.side with
  | buy =>
    exact kept_block hserves (hseat.kept ht) (fun _ => id) (by decide) (by decide) hnow m hpreBuy
      (.inl hyes) htarget (hbuys hside)
  | sell =>
    exact kept_block hserves (hseat.kept ht) (fun _ => id) (by decide) (by decide) hnow m hpreSell
      (.inl hno) htarget (hsells hside)

/-! ## Breakeven, trailing and profit lock -/

/-- What breakeven stops look at. -/
def breakevenParams : List RuleParam :=
  [.ticket, .openPrice, .currentSL, .currentTP, .positionProfit, .posType]

/-- What the rules that are called like this look at. -/
def ruleParams (stem : String) : List RuleParam :=
  if stem = "CheckBreakevenStop" then breakevenParams
  else if stem ∈ ["CheckTrailingStop", "CheckLockProfit"] then stopParams
  else volumeParams

/-- A rule that sets fine stops only, if it is told the truth about its position. -/
structure Mql.Function.Tightens (F : Move → Prop) (f : Function) (stem : String) : Prop where
  named : stem? f.name.text = some stem
  given : f.params.map (fun q => q.name.text) = (ruleParams stem).map fun q => q.name.text
  kept : ∀ {market : Market} {call : Caller} {bound : ℕ} {s : State} {p : Position},
    call.Serves F market → Seated s p →
      (.currentSL ∈ ruleParams stem → s.locals "currentSL" = some (.num p.stop)) →
        Kept (World.Later F) NotGiven s (Stmt.execAll call bound f.body s).2

section Sides

variable {loose : Prop} {x : String} {stop : ℚ}

theorem fine_buy (hside : p.side = .buy) (hx : s.lookup x = .num p.stop)
    (h : (s.lookup x).toNum < stop ∨ s.lookup x = .num 0) : Move.Fine loose ⟨p, stop⟩ := by
  rw [hx, Value.toNum_num, Value.num.injEq] at h
  exact .inl (Move.notWorse_of_lt hside h)

theorem fine_sell (hside : p.side = .sell) (hx : s.lookup x = .num p.stop)
    (h : stop < (s.lookup x).toNum ∨ s.lookup x = .num 0) : Move.Fine loose ⟨p, stop⟩ := by
  rw [hx, Value.toNum_num, Value.num.injEq] at h
  exact .inl (Move.notWorse_of_gt hside h)

end Sides

theorem breakeven_tightens (n : Node) (q : Breakeven) (program : Program) (loose : Prop) :
    ∀ f ∈ (breakevenCode n q program).functions,
      f.Tightens (Move.Fine loose) "CheckBreakevenStop" := by
  intro f hf
  cases htrigger : q.trigger <;> simp only [breakevenCode, htrigger] at hf <;>
    cases mem_singleton.mp hf
  all_goals
    refine ⟨stem?_name (by decide) _, rfl, fun hserves hseat hstop =>
      kept_sided hserves hseat (hstop (by decide)) 6 1 rfl rfl rfl trivial ?_ ?_ ?_⟩
    · simp +decide [triggerReached, isBuyPosition, inPrice, declareBalance, shareReached,
        AtrNames.points, RuleNumber.atr, QuietCall]
    · exact fun hside s hs => (Expr.Tells.lt "currentSL" "newSL").mono fun h =>
        fine_buy hside hs (.inl h)
    · exact fun hside s hs => ((Expr.Tells.gt "currentSL" "newSL").any (.noStop "currentSL")).mono
        (fine_sell hside hs)

theorem trailing_tightens (n : Node) (q : Trailing) (program : Program) (loose : Prop) :
    ∀ f ∈ (trailingCode n q program).functions,
      f.Tightens (Move.Fine loose) "CheckTrailingStop" := by
  have hbuys {call : Caller} {p : Position} (hside : p.side = .buy) :
      Tests (Move.Fine loose) call p "currentSL" ((Expr.var "newSL").gt "currentSL") := fun s hs =>
    (Expr.Tells.gt "newSL" "currentSL").mono fun h => fine_buy hside hs (.inl h)
  have hsells {call : Caller} {p : Position} (hside : p.side = .sell) :
      Tests (Move.Fine loose) call p "currentSL"
        (.any [(Expr.var "newSL").lt "currentSL", noStop "currentSL"]) := fun s hs =>
    ((Expr.Tells.lt "newSL" "currentSL").any (.noStop "currentSL")).mono (fine_sell hside hs)
  intro f hf
  cases hmethod : q.method <;> simp only [trailingCode, hmethod] at hf <;>
    cases mem_singleton.mp hf
  case percentage =>
    refine ⟨stem?_name (by decide) _, rfl, fun hserves hseat hstop =>
      kept_sided hserves hseat (hstop (by decide)) 5 3 rfl rfl rfl trivial ?_ hbuys hsells⟩
    simp +decide [declareProfit, isBuyPosition, inPrice, QuietCall]
  all_goals
    refine ⟨stem?_name (by decide) _, rfl, fun hserves hseat hstop =>
      kept_sided hserves hseat (hstop (by decide)) 4 3 rfl rfl rfl trivial ?_ hbuys hsells⟩
    simp +decide [inPrice, AtrNames.points, RuleNumber.atr, QuietCall]

theorem lock_tightens (n : Node) (q : LockProfit) (program : Program) (loose : Prop) :
    ∀ f ∈ (lockCode n q program).functions, f.Tightens (Move.Fine loose) "CheckLockProfit" := by
  intro f hf
  cases hmethod : q.method <;> simp only [lockCode, hmethod] at hf <;>
    cases mem_singleton.mp hf
  all_goals
    refine ⟨stem?_name (by decide) _, rfl, fun hserves hseat hstop =>
      kept_sided hserves hseat (hstop (by decide)) 1 5 rfl rfl rfl trivial ?_ ?_ ?_⟩
    · simp +decide [inPrice, QuietCall]
    · exact fun hside s hs => ((Expr.Tells.gt "newSL" "currentSL").all (.lt "newSL" "bid")).mono
        fun h => fine_buy hside hs (.inl h.1)
    · exact fun hside s hs =>
        (((Expr.Tells.lt "newSL" "currentSL").any (.noStop "currentSL")).group.all
          (.gt "newSL" "ask")).mono fun h => fine_sell hside hs h.1

theorem Program.mem_functions_append {a b : Program} {f : Function}
    (h : f ∈ (a ++ b).functions) : f ∈ a.functions ∨ f ∈ b.functions := by
  obtain ⟨helper, hhelper, hf⟩ := mem_flatMap.mp h
  exact (Program.mem_of_mem_joinHelpers _ hhelper).imp
    (fun ha => mem_flatMap.mpr ⟨helper, ha, hf⟩)
    (fun hb => mem_flatMap.mpr ⟨helper, hb, hf⟩)

/-! ## Partial closes -/

theorem kept_protect (hserves : call.Serves (Move.Fine loose) market) (hseat : Seated s p)
    (hsince : Kept (World.Later (Move.Fine loose)) NotGiven s t) :
    Kept (World.Later (Move.Fine loose)) NotGiven t (Stmt.execAll call bound
      [.guard (.not (selectTicket "ticket")) .ret,
        .declare "double" "slNow" (positionDouble "POSITION_SL"),
        .declare "double" "breakeven" (normalizePrice "openPrice"),
        .elseIfBelow (.all [isBuyPosition, (Expr.var "slNow").lt "breakeven"])
          (modify "breakeven" "keepTP")
          (.all [(Expr.var "posType").eq "POSITION_TYPE_SELL",
            .group (.any [(Expr.var "slNow").gt "breakeven", noStop "slNow"])])
          (modify "breakeven" "keepTP")] t).2 := by
  have hlater := along_later (Move.Fine loose)
  refine kept_reselect hserves hseat hsince (.inl rfl) fun u q hq _ => ?_
  let price : Expr := normalizePrice "openPrice"
  let known : State := u.declare "slNow" (.num q.stop)
  let last : State := (price.eval call known).2.declare "breakeven" (price.eval call known).1
  have hread : (positionDouble "POSITION_SL").eval call u = (.num q.stop, u) :=
    eval_stop hserves hq.selected
  have hknown : Kept World.Quiet NotGiven u known := kept_declare along_quiet (by decide) _ u
  have hprice : Kept World.Quiet (· = "breakeven") known last :=
    kept_declared hserves (by simp +decide [price, QuietCall]) _ _
  have hlast : Kept World.Quiet NotGiven u last :=
    hknown.trans along_quiet (hprice.weaken (by rintro x rfl; decide))
  have hstop : last.lookup "slNow" = .num q.stop :=
    State.lookup_of_local (by decide) (hprice.locals "slNow" (by decide))
  have hthere := hq.kept hlast
  rw [Stmt.execAll_declare, hread, Stmt.execAll_declare]
  refine (hlast.mono World.Quiet.later).trans hlater (kept_andThen hlater ?_ (.refl hlater))
  refine kept_tested hserves hthere (by trivial) (by trivial) ?_ <|
    kept_tested hserves hthere (by trivial) (by trivial) ?_ (.refl hlater last)
  · exact ((Expr.Tells.isSide (c := "POSITION_TYPE_BUY") rfl hthere.posType).all
      (.lt "slNow" "breakeven")).mono fun h => fine_buy h.1 hstop (.inl h.2)
  · exact ((Expr.Tells.isSide (c := "POSITION_TYPE_SELL") rfl hthere.posType).all
      ((Expr.Tells.gt "slNow" "breakeven").any (.noStop "slNow")).group).mono fun h =>
        fine_sell h.1 hstop h.2

theorem partial_tightens (n : Node) (q : PartialClose) (program : Program) (loose : Prop) :
    ∀ f ∈ (partialCode n q program).functions,
      f.OfTable ∨ f.Tightens (Move.Fine loose) "CheckPartialClose" := by
  intro f hf
  have hlater := along_later (Move.Fine loose)
  have hclosed (k : RuleNumber) : CalledLike tableStems (k.name "IsPartialClosed").text :=
    calledLike_name (by decide) (by decide) k
  have hmark (k : RuleNumber) : CalledLike tableStems (k.name "MarkPartialClosed").text :=
    calledLike_name (by decide) (by decide) k
  rcases Program.mem_functions_append hf with htable | hrule
  · have htable : f ∈ closedTableFunctions _ ++ [] := htable
    exact .inl (closedTable_ofTable _ f (append_nil _ ▸ htable))
  · clear hf
    cases mem_singleton.mp hrule
    refine .inr ⟨stem?_name (by decide) _, rfl, fun hserves hseat _ => ?_⟩
    refine Stmt.kept_after_calm hlater along_still World.Still.later hserves.still ?_ fun t ht => ?_
    · cases q.triggerMethod <;>
        simp +decide [triggerReached, isBuyPosition, inPrice, declareBalance, shareReached,
          declareLots, wholeLots, keepValidLot, noStop, StillCall, IdleCall, hclosed, hmark]
    · split
      · exact kept_protect hserves hseat (ht.mono World.Still.later)
      · exact .refl hlater t

/-! ## Targets -/

/-- Code that reads the stop of the position and then treats the two sides apart. -/
theorem kept_readSides (hserves : call.Serves F market) (hseat : Seated s p) {first : Stmt}
    (hfirst : first.Calm QuietCall NotGiven) {yes no : List Stmt}
    (hyes : ∀ t, Seated t p → t.locals "trailSL" = some (.num p.stop) → p.side = .buy →
      Kept (World.Later F) NotGiven t (Stmt.execAll call bound yes t).2)
    (hno : ∀ t, Seated t p → t.locals "trailSL" = some (.num p.stop) → p.side = .sell →
      Kept (World.Later F) NotGiven t (Stmt.execAll call bound no t).2) :
    Kept (World.Later F) NotGiven s (Stmt.execAll call bound
      ([first] ++ [.declare "double" "trailSL" (positionDouble "POSITION_SL"),
        .branchElse isBuyPosition yes no]) s).2 := by
  have hlater := along_later F
  refine Stmt.kept_after_calm hlater along_quiet World.Quiet.later hserves.quiet
    ⟨hfirst, trivial⟩ fun t ht => ?_
  have hread : (positionDouble "POSITION_SL").eval call t = (.num p.stop, t) :=
    eval_stop hserves (hseat.kept ht).selected
  have hknown : Kept World.Quiet NotGiven t (t.declare "trailSL" (.num p.stop)) :=
    kept_declare along_quiet (by decide) _ t
  have hthere := (hseat.kept ht).kept hknown
  rw [Stmt.execAll_declare, hread]
  show Kept _ _ t (Stmt.execAll call bound [_] (t.declare "trailSL" (.num p.stop))).2
  rw [Stmt.execAll_branchElse, eval_isBuyPosition hthere.posType, append_nil]
  refine (hknown.mono World.Quiet.later).trans hlater ?_
  cases hside : p.side with
  | buy => exact hyes _ hthere rfl hside
  | sell => exact hno _ hthere rfl hside

theorem kept_trail (hserves : call.Serves (Move.Fine loose) market) (hseat : Seated s p)
    (k : RuleNumber) {rest : List Stmt}
    (hrest : ∀ t, Kept (World.Later (Move.Fine loose)) NotGiven s t →
      Kept (World.Later (Move.Fine loose)) NotGiven t (Stmt.execAll call bound rest t).2) :
    Kept (World.Later (Move.Fine loose)) NotGiven s
      (Stmt.execAll call bound (trailAfterFirst k ++ rest) s).2 := by
  have hlater := along_later (Move.Fine loose)
  let reached : Expr := (Expr.var "tpLevel").ge 1
  have hreached : (reached.eval call s).2 = s := rfl
  show Kept _ _ s (Stmt.execAll call bound (.branch reached _ :: .blank :: rest) s).2
  rw [Stmt.execAll_branch, hreached]
  split
  · show Kept _ _ s (Stmt.execAll call bound ([_, _, _] ++ (_ :: .blank :: rest)) s).2
    refine Stmt.kept_append hlater (kept_readSides hserves hseat ?_ ?_ ?_) fun t _ ht => ?_
    · simp +decide [inPrice]
    · intro t ht hstop hside
      refine kept_block (X := (· = "newSL")) hserves ht (by rintro x rfl; decide) (by decide)
        (by decide) hstop 1 ?_ (.inr rfl) ?_ fun u hu => ?_
      · simp +decide [QuietCall]
      · simp +decide [QuietCall]
      · exact ((Expr.Tells.gt "newSL" "openPrice").all
          ((Expr.Tells.noStop "trailSL").any (.gt "newSL" "trailSL")).group).mono fun h =>
            fine_buy hside hu h.2.symm
    · intro t ht hstop hside
      refine kept_block (X := (· = "newSL")) hserves ht (by rintro x rfl; decide) (by decide)
        (by decide) hstop 1 ?_ (.inr rfl) ?_ fun u hu => ?_
      · simp +decide [QuietCall]
      · simp +decide [QuietCall]
      · exact ((Expr.Tells.lt "newSL" "openPrice").all
          ((Expr.Tells.noStop "trailSL").any (.lt "newSL" "trailSL")).group).mono fun h =>
            fine_sell hside hu h.2.symm
    · exact kept_reselect hserves hseat ht (.inl rfl) fun u _ _ hu =>
        hrest u (ht.trans hlater ((hu.weaken fun _ => False.elim).mono fun h => h.still.later))
  · exact hrest s (.refl hlater s)

/-- After the first target the stop is set to the open price, whatever it was. -/
theorem kept_unprotected (hloose : loose) (hserves : call.Serves (Move.Fine loose) market)
    (hseat : Seated s p) (hsince : Kept (World.Later (Move.Fine loose)) NotGiven s t) :
    Kept (World.Later (Move.Fine loose)) NotGiven t (Stmt.execAll call bound
      [.guardBelow (selectTicket "ticket")
        (modify (normalizePrice "openPrice") (positionDouble "POSITION_TP"))] t).2 := by
  have hlater := along_later (Move.Fine loose)
  refine kept_andThen hlater ?_ (.refl hlater)
  simp only [Stmt.exec, Expr.decideOn]
  rcases eval_selectTicket hserves ((hsince.given (by decide)).trans hseat.ticket) with
    ⟨q, u, heval, hu, hq, hkept⟩ | heval
  · simp only [heval, Value.isTrue_flag, if_true]
    have hu := hseat.again hsince hu hq hkept
    refine ((hkept.weaken fun _ => False.elim).mono fun h => h.still.later).trans hlater
      (kept_modify hserves ?_ ?_ hu.there hu.lookup_ticket ?_)
    · simp +decide [QuietCall]
    · simp +decide [QuietCall]
    · have hopen : u.lookup "openPrice" = .num q.openPrice :=
        State.lookup_of_local (by decide) hu.openPrice
      have hround : ((normalizePrice "openPrice").eval call u).1 =
          .num (roundTo (u.lookup "_Digits").toNum.floor.toNat (u.lookup "openPrice").toNum) :=
        congrArg Prod.fst (hserves.platform "NormalizeDouble" (by decide) _ u.world)
      exact .inr ⟨hloose, _, by rw [hround, Value.toNum_num, hopen, Value.toNum_num]⟩
  · simp only [heval, Value.isTrue_flag, Bool.false_eq_true, if_false]
    exact .refl hlater t

theorem Mql.Caller.Serves.still_later (hserves : call.Serves F market) :
    call.Respects StillCall (World.Later F) :=
  fun q hq w => (hserves.still q hq w).later

theorem calledLike_setLevel : CalledLike tableStems "SetMLTPLevel" :=
  ⟨"SetMLTPLevel", by decide, by decide⟩

theorem calm_closesPart : closesPart.Calm StillCall NotGiven := by
  simp +decide [closesPart, StillCall]

/-- The first target: when a part was closed, code may follow that sets the stop. -/
theorem kept_firstTarget (hserves : call.Serves F market) {reached volume : Expr}
    (hreached : reached.Calm StillCall NotGiven) (hvolume : volume.Calm StillCall NotGiven)
    {protect : List Stmt}
    (hprotect : ∀ t, Kept (World.Later F) NotGiven s t →
      Kept (World.Later F) NotGiven t (Stmt.execAll call bound protect t).2) :
    Kept (World.Later F) NotGiven s (Stmt.execAll call bound
      [.branch reached
        [.declare "double" "closeVol" volume, keepValidLot "closeVol",
          .branch closesPart (.act (setLevel 1) :: protect), .act .ret]] s).2 := by
  have hlater := along_later F
  have hcall := hserves.still_later
  have hfirst := reached.kept_eval hlater hcall hreached s
  rw [Stmt.execAll_branch]
  split
  · refine hfirst.trans hlater ?_
    show Kept _ _ _ (Stmt.execAll call bound ([_, _] ++ [.branch closesPart _, _]) _).2
    refine Stmt.kept_after_calm hlater hlater id hcall ?_ fun t ht => ?_
    · simp +decide [hvolume, keepValidLot, wholeLots, StillCall, IdleCall]
    · have hclosed := closesPart.kept_eval hlater hcall calm_closesPart t
      rw [Stmt.execAll_branch]
      split
      · refine hclosed.trans hlater ?_
        show Kept _ _ _ (Stmt.execAll call bound ([.act (setLevel 1)] ++ (protect ++ [_])) _).2
        refine Stmt.kept_after_calm hlater hlater id hcall ?_ fun u hu => ?_
        · simp [setLevel, StillCall, IdleCall, Scope.text_plain, calledLike_setLevel]
        have hsince := ((hfirst.trans hlater ht).trans hlater hclosed).trans hlater hu
        exact Stmt.kept_append hlater (hprotect u hsince) fun v _ _ => .refl hlater v
      · exact hclosed
  · exact hfirst

theorem calm_levelReached (k : RuleNumber) {before : Expr} (h : before.Calm StillCall NotGiven)
    (level : ℕ) : (levelReached k before level).Calm StillCall NotGiven := by
  simp [levelReached, h]

theorem targets_tightens (n : Node) (q : MultiTarget) (program : Program)
    (hloose : q.moveSlAfterTp1 ≠ .nothing → loose) :
    ∀ f ∈ (targetsCode n q program).functions,
      f.OfTable ∨ f.Tightens (Move.Fine loose) "CheckMultiLevelTP" := by
  intro f hf
  have hlater := along_later (Move.Fine loose)
  have hget : CalledLike tableStems "GetMLTPLevel" := ⟨"GetMLTPLevel", by decide, by decide⟩
  rcases Program.mem_functions_append hf with hf | hf
  · rcases Program.mem_functions_append hf with hf | hf
    · cases hf
    · split at hf
      · cases hf
      · exact .inl (levelTable_ofTable f hf)
  · cases mem_singleton.mp hf
    refine .inr ⟨stem?_name (by decide) _, rfl, fun {market call bound s p} hserves hseat _ => ?_⟩
    simp only [append_assoc]
    -- The rule reads the position; follows the price, if it is told to; and tries the three levels.
    rw [← append_assoc [_, _], ← append_assoc _ [Stmt.blank]]
    refine Stmt.kept_after_calm hlater along_quiet World.Quiet.later hserves.quiet ?_ fun t ht => ?_
    · simp +decide [declareProfit, isBuyPosition, declareLots, QuietCall, Scope.text_plain, hget]
    · have hthere := hseat.kept ht
      -- Where the stop follows the price, the levels are tried after that.
      suffices hlevels : ∀ u, Kept (World.Later (Move.Fine loose)) NotGiven t u →
          Kept (World.Later (Move.Fine loose)) NotGiven u
            (Stmt.execAll call bound ([_] ++ [.blank, _, .blank, _]) u).2 by
        split
        · exact kept_trail hserves hthere _ hlevels
        · exact hlevels t (.refl hlater t)
      intro u hu
      refine Stmt.kept_append hlater (kept_firstTarget hserves ?_ ?_ fun v hv => ?_) fun v _ _ =>
        Stmt.kept_execAll hlater hserves.still_later bound _ ?_ v
      · exact calm_levelReached _ (by trivial) 1
      · simp +decide [wholeLots, StillCall, IdleCall]
      · split
        · exact .refl hlater v
        · exact kept_unprotected (hloose (by assumption)) hserves hthere (hu.trans hlater hv)
      · simp +decide [calm_levelReached, calm_closesPart, setLevel, wholeLots, keepValidLot,
          StillCall, IdleCall, Scope.text_plain, calledLike_setLevel]

end Rules

end TradeGraph

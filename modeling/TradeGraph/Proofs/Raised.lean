import TradeGraph.Proofs.JoinedConditions

/-!
# Flags that the parts of a program raise

An entry is held back by flags that earlier parts of the program declare. Each part is taken for
what it declares among them and for what it adds to the gates; all else it does on a tick is idle.
-/

namespace TradeGraph

open List Mql Mql.Platform

variable {body : List Stmt} {n : Node} {program : Program}
variable {ss : List Stmt} {nodes : List Node} {flag : Ident} {i : ℕ}

/-! ## Gate flags -/

/-- Is it the name of a flag that holds back an entry? -/
def isGateFlag (x : String) : Bool :=
  x == "isTradingTime" || ["newBar", "spreadOk", "atrOk", "tpAtrOk", "dailyLimitHit"].contains x ||
    "pastCloseTime".toList.isPrefixOf x.toList

def gateFlags (ss : List Stmt) : List String :=
  ((Stmt.allFlags ss).map fun x => x.1.text).filter isGateFlag

theorem gateFlags_append (ss ts : List Stmt) :
    gateFlags (ss ++ ts) = gateFlags ss ++ gateFlags ts := by
  rw [gateFlags, Stmt.allFlags_append, map_append, filter_append]
  rfl

theorem gateFlags_declare (x : Ident) (e : Expr) :
    gateFlags [.declare "bool" x e] = [x.text].filter isGateFlag := rfl

/-- Is the statement the heading of the orders? -/
def Mql.Stmt.opensOrders : Stmt → Bool
  | .heading t => t == "Execute Entry"
  | _ => false

/-- The flag that a statement declares outside of braces. -/
def Mql.Stmt.flag? : Stmt → Option String
  | .act (.declare type x (some _) _) => if type = "bool" then some x.text else none
  | _ => none

/-- Does the statement declare no truth value, and is it not the heading of the orders? -/
def Mql.Stmt.isIdle (s : Stmt) : Bool :=
  s.isTidy && s.flags.isEmpty && !s.opensOrders

theorem allTidy_of_isIdle (h : ss.all Stmt.isIdle = true) :
    Stmt.allTidy ss = true ∧ Stmt.allFlags ss = [] ∧ ss.any Stmt.opensOrders = false := by
  induction ss with
  | nil => exact ⟨rfl, rfl, rfl⟩
  | cons s ss ih =>
    rw [all_cons, Bool.and_eq_true, Stmt.isIdle, Bool.and_eq_true, Bool.and_eq_true,
      List.isEmpty_iff, Bool.not_eq_true'] at h
    obtain ⟨⟨⟨htidy, hflags⟩, hquiet⟩, hss⟩ := h
    obtain ⟨hrest, hnone, hothers⟩ := ih hss
    rw [Stmt.allTidy, Stmt.allFlags, any_cons, htidy, hrest, hflags, hnone, hquiet, hothers]
    exact ⟨rfl, rfl, rfl⟩

theorem branch_isIdle {c : Expr} (h : body.all Stmt.isIdle = true) :
    (Stmt.branch c body).isIdle = true := by
  obtain ⟨htidy, hflags, -⟩ := allTidy_of_isIdle h
  simp only [Stmt.isIdle, Stmt.isTidy, Stmt.flags, htidy, hflags]
  rfl

/-- The statements declare these flags of gates, and do not have the heading of the orders. -/
structure Mql.Stmt.AllRaise (ss : List Stmt) (xs : List String) : Prop where
  tidy : Stmt.allTidy ss = true
  quiet : ss.any Stmt.opensOrders = false
  flags : gateFlags ss = xs

theorem Mql.Stmt.AllRaise.append {ts : List Stmt} {xs ys : List String}
    (hs : Stmt.AllRaise ss xs) (ht : Stmt.AllRaise ts ys) : Stmt.AllRaise (ss ++ ts)
    (xs ++ ys) where
  tidy := by rw [Stmt.allTidy_append, hs.tidy, ht.tidy]; rfl
  quiet := by rw [any_append, hs.quiet, ht.quiet]; rfl
  flags := by rw [gateFlags_append, hs.flags, ht.flags]

theorem Mql.Stmt.AllRaise.after {s t : List Stmt} {xs : List String} (hs : Stmt.AllRaise s [])
    (ht : Stmt.AllRaise t xs) : Stmt.AllRaise (s ++ t) xs :=
  hs.append ht

theorem allRaise_of_isIdle (h : ss.all Stmt.isIdle = true) :
    Stmt.AllRaise ss [] := by
  obtain ⟨htidy, hflags, hquiet⟩ := allTidy_of_isIdle h
  exact ⟨htidy, hquiet, by rw [gateFlags, hflags]; rfl⟩

/-- The part declares these flags outside of braces and no other flag of a gate, and adds the gates;
it does not have the heading of the orders. -/
structure Program.Raises (p : Program) (xs gs : List String) : Prop where
  tidy : Stmt.allTidy p.tick = true
  quiet : p.tick.any Stmt.opensOrders = false
  flags : gateFlags p.tick = xs
  top : ∀ x ∈ xs, ∃ s ∈ p.tick, s.flag? = some x
  gates : p.gates.map Expr.text = gs

namespace Program.Raises

variable {p q : Program} {xs ys gs hs : List String}

theorem stmts (h : p.Raises xs gs) : Stmt.AllRaise p.tick xs :=
  ⟨h.tidy, h.quiet, h.flags⟩

theorem of_one {x : String} {s : Stmt} (h : Stmt.AllRaise p.tick [x]) (hs : s ∈ p.tick)
    (hflag : s.flag? = some x) (hgates : p.gates.map Expr.text = gs) : p.Raises [x] gs :=
  ⟨h.tidy, h.quiet, h.flags, by simpa using ⟨s, hs, hflag⟩, hgates⟩

theorem append (hp : p.Raises xs gs) (hq : q.Raises ys hs) :
    (p ++ q).Raises (xs ++ ys) (gs ++ hs) := by
  obtain ⟨htidy, hquiet, hflags⟩ := hp.stmts.append hq.stmts
  refine ⟨htidy, hquiet, hflags, fun x hx => ?_, ?_⟩
  · rw [Program.append_tick]
    rcases mem_append.mp hx with hx | hx
    · obtain ⟨s, hs, hflag⟩ := hp.top x hx
      exact ⟨s, mem_append_left _ hs, hflag⟩
    · obtain ⟨s, hs, hflag⟩ := hq.top x hx
      exact ⟨s, mem_append_right _ hs, hflag⟩
  · rw [Program.append_gates, map_append, hp.gates, hq.gates]

theorem of_idle (htick : p.tick.all Stmt.isIdle = true) (hgates : p.gates = []) :
    p.Raises [] [] := by
  obtain ⟨htidy, hquiet, hflags⟩ := allRaise_of_isIdle htick
  exact ⟨htidy, hquiet, hflags, by simp, by rw [hgates]; rfl⟩

theorem of_nil (htick : p.tick = []) (hgates : p.gates = []) : p.Raises [] [] :=
  .of_idle (by rw [htick]; rfl) hgates

theorem idle_append (hp : p.Raises [] []) (hq : q.Raises xs gs) : (p ++ q).Raises xs gs :=
  hp.append hq

theorem append_idle (hp : p.Raises xs gs) (hq : q.Raises [] []) : (p ++ q).Raises xs gs := by
  have h := hp.append hq
  rwa [append_nil, append_nil] at h

end Program.Raises

/-! ## Spread and timing -/

theorem emitSpread_raises (h : Role.All .spread nodes) :
    (emitSpread nodes).code.Raises (if nodes.isEmpty then [] else ["spreadOk"])
      (if nodes.isEmpty then [] else ["spreadOk"]) := by
  cases nodes with
  | nil => exact .of_nil rfl rfl
  | cons n ns =>
    obtain ⟨pips, hp⟩ := Payload.of_role (h n mem_cons_self)
    have hspread : n.maxSpread? = some pips := by rw [Node.maxSpread?, hp]
    rw [emitSpread, filterMap_cons_some hspread]
    exact ⟨rfl, rfl, rfl, by simp [smallest, Stmt.flag?, Stmt.declare, Scope.text_plain], rfl⟩

theorem clockStmts_idle (useServerTime : Bool) :
    (clockStmts useServerTime).all Stmt.isIdle = true := by
  cases useServerTime <;> rfl

theorem slotBody_idle (useServerTime : Bool) (slots : List TimeSlot) (x : Ident) :
    (slotBody useServerTime slots x).all Stmt.isIdle = true := by
  have hnotes (ts : List (TimeSlot × ℕ)) (f : TimeSlot × ℕ → String) :
      (ts.map fun t => Stmt.note (f t)).all Stmt.isIdle = true := by
    rw [all_map]
    exact all_eq_true.mpr fun _ _ => rfl
  rw [slotBody, all_append, all_append, hnotes]
  rfl

/-- The statements for a timing node declare its flag, and further on no flag of a gate. -/
theorem timingBody_shape (h : timingBody n flag = .ok body) :
    ∃ t e rest, body = [.note t, .declare "bool" flag e] ++ rest ∧ Stmt.AllRaise rest [] := by
  rw [timingBody] at h
  split at h
  case h_4 => cases h
  all_goals cases h
  case h_1 => exact ⟨_, _, [], rfl, rfl, rfl, rfl⟩
  case h_2 useServerTime r hp =>
    rw [sessionBody]
    split_ifs
    all_goals
      simp only [List.append_assoc]
      exact ⟨_, _, _, rfl, (allRaise_of_isIdle (clockStmts_idle useServerTime)).append
        ⟨rfl, rfl, rfl⟩⟩
  case h_3 useServerTime r hp =>
    have hclock := allRaise_of_isIdle (clockStmts_idle useServerTime)
    have hday (e : Expr) : Stmt.AllRaise [.declare "bool" "isDayAllowed" e] [] :=
      ⟨rfl, rfl, by rw [gateFlags_declare]; decide⟩
    have hinside : (if r.timeSlots.isEmpty then
        [.remarked (.assign flag true) "No time slots defined, trade all day"]
        else slotBody useServerTime r.timeSlots flag).all Stmt.isIdle = true := by
      split
      · rfl
      · exact slotBody_idle useServerTime r.timeSlots flag
    have hlast (c : Expr) {inside : List Stmt} (h : inside.all Stmt.isIdle = true) :
        Stmt.AllRaise [.blank, .branch c inside] [] := by
      refine allRaise_of_isIdle ?_
      rw [all_cons, all_cons, branch_isIdle h]
      rfl
    simp only [customBody, List.append_assoc]
    by_cases hdays : activeDays r.days = []
    · rw [if_pos hdays]
      exact ⟨_, _, _, rfl, hclock.append ⟨rfl, rfl, rfl⟩⟩
    · rw [if_neg hdays]
      refine ⟨_, _, _, rfl, hclock.after (.after (s := [.blank]) ⟨rfl, rfl, rfl⟩
        (.after ?_ (hlast "isDayAllowed" hinside)))⟩
      split
      · exact .after (s := [.note "Trading all days"]) ⟨rfl, rfl, rfl⟩ (hday true)
      · exact hday _

theorem timingBody_raises (h : timingBody n flag = .ok body) :
    Stmt.AllRaise body ([flag.text].filter isGateFlag) ∧ ∃ s ∈ body, s.flag? = some flag.text := by
  obtain ⟨t, e, rest, rfl, hrest⟩ := timingBody_shape h
  have hopening : Stmt.AllRaise [.note t, .declare "bool" flag e] ([flag.text].filter isGateFlag) :=
    ⟨rfl, rfl, rfl⟩
  refine ⟨?_, .declare "bool" flag e, by simp, rfl⟩
  simpa using hopening.append hrest

theorem isGateFlag_eq_false {x : Ident} (htime : x.text ≠ "isTradingTime")
    (hnames : startsNone ["newBar", "spreadOk", "atrOk", "tpAtrOk", "dailyLimitHit"] x.stem = true)
    {c : Char} (hstem : x.stem.toList.head? = some c) (hc : c ≠ 'p') :
    isGateFlag x.text = false := by
  obtain ⟨cs, hstem⟩ := head?_eq_some_iff.mp hstem
  have hother : (["newBar", "spreadOk", "atrOk", "tpAtrOk", "dailyLimitHit"].contains x.text) =
      false := by
    rw [← Bool.not_eq_true, contains_iff_mem]
    exact Ident.text_notMem hnames
  have hprefix : "pastCloseTime".toList.isPrefixOf x.text.toList = false := by
    have hfirst : "pastCloseTime".toList = 'p' :: "astCloseTime".toList := by decide
    rw [Ident.text_eq, String.toList_append, hstem, hfirst, cons_append, isPrefixOf_cons_cons,
      beq_eq_false_iff_ne.mpr hc.symm, Bool.false_and]
  rw [isGateFlag, beq_eq_false_iff_ne.mpr htime, hother, hprefix]
  rfl

theorem isGateFlag_timingFlag (k : ℕ) : isGateFlag (timingFlag k).text = false := by
  have hnumber : (timingFlag k).text ≠ "isTradingTime" := by simp [timingFlag, Ident.text]
  exact isGateFlag_eq_false hnumber (show startsNone _ "isTradingTime" = true by decide)
    (show "isTradingTime".toList.head? = some 'i' from rfl) (by decide)

theorem timingScopes_raise : ∀ (k : ℕ) (nodes : List Node),
    Stmt.AllRaise (timingScopes k nodes).1 []
  | _, [] => ⟨rfl, rfl, rfl⟩
  | k, n :: ns => by
    rw [timingScopes]
    split
    · exact ⟨rfl, rfl, rfl⟩
    · rename_i body hbody
      have hinner : Stmt.AllRaise (body ++ [.assign (timingFlag k) "_t"]) [] :=
        (timingBody_raises hbody).1.append ⟨rfl, rfl, rfl⟩
      have hflag : [(timingFlag k).text].filter isGateFlag = [] := by
        rw [filter_singleton, isGateFlag_timingFlag]
        rfl
      have hscope : Stmt.AllRaise (timingScope k body) [] := by
        refine .after (s := [.declare "bool" (timingFlag k) false]) ⟨rfl, rfl, hflag⟩ ⟨?_, rfl, ?_⟩
        · simpa [Stmt.allTidy, Stmt.isTidy] using hinner.tidy
        · simpa [gateFlags, Stmt.allFlags, Stmt.flags] using hinner.flags
      exact hscope.append (timingScopes_raise (k + 1) ns)

theorem emitTiming_raises (h : (emitTiming nodes).fault = none) :
    (emitTiming nodes).code.Raises (if nodes.isEmpty then [] else ["isTradingTime"]) [] := by
  match nodes, h with
  | [], _ => exact .of_nil rfl rfl
  | [n], h =>
    cases hbody : timingBody n "isTradingTime" with
    | error f => simp [emitTiming, hbody, Emission.fail] at h
    | ok body =>
      obtain ⟨hall, s, hs, hflag⟩ := timingBody_raises hbody
      simp only [emitTiming, hbody]
      exact .of_one (hall.append ⟨rfl, rfl, rfl⟩) (mem_append_left _ hs) hflag rfl
  | n :: m :: ns, h =>
    cases hfault : (timingScopes 0 (n :: m :: ns)).2 with
    | some f => simp [emitTiming, hfault] at h
    | none =>
      simp only [emitTiming, hfault]
      exact .of_one ((timingScopes_raise 0 (n :: m :: ns)).append ⟨rfl, rfl, rfl⟩)
        (mem_append_right _ mem_cons_self) rfl rfl

/-! ## Close times -/

theorem exitName_text_inj {stem : String} {j : ℕ}
    (h : (exitName stem i).text = (exitName stem j).text) : i = j := by
  rw [Ident.text_eq, Ident.text_eq] at h
  have hdigits := String.append_right_inj _ |>.mp h
  by_cases hi : i = 0 <;> by_cases hj : j = 0
  · omega
  · simp [exitName, Ident.digits, hi, hj] at hdigits
  · simp [exitName, Ident.digits, hi, hj] at hdigits
  · have hnumber : toString (i + 1) = toString (j + 1) := by
      simpa [exitName, Ident.digits, hi, hj] using hdigits
    have heq := eq_of_numeral_eq hnumber
    omega

theorem isGateFlag_closeFlag (i : ℕ) : isGateFlag (closeFlag i).text = true := by
  have hprefix : "pastCloseTime".toList.isPrefixOf (closeFlag i).text.toList = true := by
    rw [Ident.text_eq, String.toList_append, isPrefixOf_iff_prefix]
    exact prefix_append _ _
  rw [isGateFlag, hprefix, Bool.or_true]

/-- The flags of the exits at a time of day. -/
def closeFlags (i : ℕ) (nodes : List Node) : List String :=
  (nodes.zipIdx i).filterMap fun (n, k) => n.closeTime?.map fun _ => (closeFlag k).text

def LacksCloseTimes (p : Program) (i : ℕ) : Prop :=
  ∀ j ≥ i, p.hasInput (exitName "InpCloseHour" j).text = false

theorem heading_ne_orders {s t : String} {c : Char} {cs : List Char} (hs : s.toList = c :: cs)
    (hc : c ≠ 'E') : (Stmt.heading (s ++ t)).opensOrders = false := by
  refine beq_eq_false_iff_ne.mpr fun h => hc ?_
  have hhead := congrArg (fun u => u.toList.head?) h
  rw [String.toList_append, hs] at hhead
  exact Option.some.inj hhead

theorem closeTimeCheck_raises
    (h : program.hasInput (exitName "InpCloseHour" i).text = false) (n : Node) (p : TimeExit)
    (ctx : Context) : (closeTimeCheck n p i ctx program).Raises [(closeFlag i).text] [] := by
  have hheading : (Stmt.heading ("Close time reached " ++
      closeClock p ctx.usesServerTime)).opensOrders = false :=
    heading_ne_orders (show _ = 'C' :: _ from rfl) (by decide)
  simp only [closeTimeCheck, h, Bool.false_eq_true, if_false]
  refine .of_one ⟨rfl, ?_, ?_⟩ (mem_cons_of_mem _ mem_cons_self) rfl rfl
  · rw [any_cons, hheading]
    rfl
  · show [(closeFlag i).text].filter isGateFlag = _
    rw [filter_singleton, isGateFlag_closeFlag]
    rfl

theorem LacksCloseTimes.succ (h : LacksCloseTimes program i) (n : Node) (p : TimeExit)
    (ctx : Context) : LacksCloseTimes (program ++ closeTimeCheck n p i ctx program) (i + 1) := by
  intro j hj
  have hhour : (exitName "InpCloseHour" i).text ≠ (exitName "InpCloseHour" j).text := by
    intro heq
    have := exitName_text_inj heq
    omega
  have hminute : (exitName "InpCloseMinute" i).text ≠ (exitName "InpCloseHour" j).text := by
    have hleft : "InpCloseMinute".toList = "InpClose".toList ++ 'M' :: "inute".toList := by decide
    have hright : "InpCloseHour".toList = "InpClose".toList ++ 'H' :: "our".toList := by decide
    intro heq
    simp only [Ident.text_eq, exitName, ← String.toList_inj, String.toList_append, hleft, hright,
      List.append_assoc, append_cancel_left_eq, cons_append] at heq
    exact absurd (List.cons.inj heq).1 (by decide)
  have hnames : (closeTimeCheck n p i ctx program).inputs.map Input.name =
      [exitName "InpCloseHour" i, exitName "InpCloseMinute" i] := by
    simp only [closeTimeCheck, h i le_rfl]
    rfl
  have hcheck : (closeTimeCheck n p i ctx program).hasInput
      (exitName "InpCloseHour" j).text = false := by
    rw [Program.hasInput, any_eq_false]
    intro x hx
    have hname : x.name ∈ [exitName "InpCloseHour" i, exitName "InpCloseMinute" i] :=
      hnames ▸ mem_map_of_mem hx
    rw [beq_iff_eq]
    rcases mem_cons.mp hname with hname | hname
    · exact hname ▸ hhour
    · exact mem_singleton.mp hname ▸ hminute
  rw [Program.hasInput_append, h j (by omega), hcheck]
  rfl

theorem closeTimeChecks_raises (ctx : Context) : ∀ (nodes : List Node) {i : ℕ} {program : Program},
    LacksCloseTimes program i →
      (closeTimeChecks ctx i nodes program).1.Raises (closeFlags i nodes) [] ∧
        (closeTimeChecks ctx i nodes program).2.map Ident.text = closeFlags i nodes
  | [], _, _, _ => ⟨.of_nil rfl rfl, rfl⟩
  | n :: ns, i, program, h => by
    rw [closeTimeChecks]
    split
    · rename_i hn
      have hlater : LacksCloseTimes program (i + 1) := fun j hj => h j (by omega)
      have hskip : closeFlags i (n :: ns) = closeFlags (i + 1) ns := by
        simp [closeFlags, zipIdx_cons, hn]
      rw [hskip]
      exact closeTimeChecks_raises ctx ns hlater
    · rename_i p hn
      have hcons : closeFlags i (n :: ns) = (closeFlag i).text :: closeFlags (i + 1) ns := by
        simp [closeFlags, zipIdx_cons, hn]
      obtain ⟨hrest, hnames⟩ := closeTimeChecks_raises ctx ns (h.succ n p ctx)
      rw [hcons]
      exact ⟨(closeTimeCheck_raises (h i le_rfl) n p ctx).append hrest,
        congrArg ((closeFlag i).text :: ·) hnames⟩

theorem emitCloseTimeGate_raises (h : LacksCloseTimes program 0) (nodes : List Node)
    (ctx : Context) :
    (emitCloseTimeGate nodes ctx program).code.Raises (closeFlags 0 nodes)
      ((closeFlags 0 nodes).map ("!" ++ ·)) := by
  obtain ⟨hcode, hflags⟩ := closeTimeChecks_raises ctx nodes h
  unfold emitCloseTimeGate
  split
  · rename_i code hnone
    rw [hnone] at hflags
    rw [← hflags]
    exact .of_nil rfl rfl
  · rename_i code flags hne hsome
    rw [hsome] at hcode hflags
    have hgates : ({ tick := [.blank], gates := flags.map fun x => .not (Expr.var x) } :
        Program).Raises [] ((closeFlags 0 nodes).map ("!" ++ ·)) := by
      refine ⟨rfl, rfl, rfl, by simp, ?_⟩
      rw [← hflags, map_map, map_map]
      rfl
    have happend := hcode.append hgates
    rwa [append_nil, nil_append] at happend

/-! ## Signals -/

theorem emitIndicator_raises (n : Node) (i : ℕ) : (emitIndicator n i).code.Raises [] [] := by
  rw [emitIndicator]
  split
  · rename_i signal indicator h
    cases indicator <;> exact .of_idle rfl rfl
  · exact .of_nil rfl rfl

theorem patternBody_idle (i : ℕ) (q : CandlePattern) :
    (patternBody i q).all Stmt.isIdle = true := by
  cases q <;> rfl

theorem rangeCode_raises (n : Node) (i : ℕ) (timeframe : Option String) (p : RangeBreakout) :
    (rangeCode n i timeframe p).Raises [] [] := by
  refine .of_idle ?_ rfl
  have hwindow (tf : Expr) : (windowRange i tf p).isIdle = true := by
    unfold windowRange
    split <;> rfl
  have hcandles (tf : Expr) : (candleRange i tf).all Stmt.isIdle = true := rfl
  simp only [rangeCode, all_append]
  split_ifs <;> simp only [all_cons, hwindow, hcandles] <;> rfl

theorem candleCode_raises (n : Node) (i : ℕ) (timeframe : Option String) (p : CandlestickPatterns) :
    (candleCode n i timeframe p).Raises [] [] := by
  refine .of_idle ?_ rfl
  have hpatterns (qs : List CandlePattern) :
    (qs.flatMap (patternBody i)).all Stmt.isIdle = true := by
    rw [all_flatMap]
    exact all_eq_true.mpr fun q _ => patternBody_idle i q
  simp only [candleCode, all_append, hpatterns]
  split_ifs <;> rfl

theorem emitPriceAction_raises (n : Node) (i : ℕ) : (emitPriceAction n i).code.Raises [] [] := by
  rw [emitPriceAction]
  split
  · rename_i timeframe action h
    cases action with
    | rangeBreakout p => exact rangeCode_raises n i timeframe p
    | candlestickPattern p => exact candleCode_raises n i timeframe p
    | supportResistance p => exact .of_idle rfl rfl
  · exact .of_nil rfl rfl

/-! ## Risk -/

theorem atrStop_raises (n : Node) (p : StopLoss) : (atrStop n p).Raises ["atrOk"] ["atrOk"] := by
  exact Program.Raises.append_idle (.of_one ⟨rfl, rfl, rfl⟩ mem_cons_self rfl rfl)
    (.of_nil rfl rfl)

theorem indicatorStop_raises (n : Node) (pips : Float) (hit : Numbered) :
    (indicatorStop n pips hit).Raises [] [] := by
  unfold indicatorStop
  simp only
  split <;> exact .of_idle rfl rfl

theorem emitStopLoss_raises {p : StopLoss} (hp : n.data.payload = .trading (.stopLoss p))
    (indicators priceAction : List Node) (edges : List Edge) (known : List String) (ctx : Context) :
    (emitStopLoss n indicators priceAction edges known ctx).code.Raises
      (if p.method = .atrBased then ["atrOk"] else [])
      (if p.method = .atrBased then ["atrOk"] else []) := by
  have hempty (method : Option StopMethod) : ({ stopMethod := method } : Program).Raises [] [] :=
    .of_nil rfl rfl
  simp only [emitStopLoss, hp]
  refine Program.Raises.idle_append (hempty _) ?_
  cases p.method with
  | fixedPips => exact .of_idle rfl rfl
  | percent => exact .of_idle rfl rfl
  | atrBased => exact atrStop_raises n p
  | rangeOpposite =>
    simp only
    split
    · exact .of_idle rfl rfl
    · exact hempty none
  | indicator =>
    simp only [emitIndicatorStop]
    split
    · exact hempty none
    · split
      · exact indicatorStop_raises n _ _
      · split
        · exact hempty none
        · exact .of_idle rfl rfl

theorem atrTarget_raises (n : Node) (p : TakeProfit) (shared : Bool) :
    (atrTarget n p shared).Raises (if shared then [] else ["tpAtrOk"])
      (if shared then [] else ["tpAtrOk"]) := by
  cases shared with
  | true => exact .of_idle rfl rfl
  | false =>
    exact Program.Raises.append_idle (.of_one ⟨rfl, rfl, rfl⟩ mem_cons_self rfl rfl)
      (.of_nil rfl rfl)

theorem emitTakeProfit_raises {p : TakeProfit} (hp : n.data.payload = .trading (.takeProfit p))
    (program : Program) :
    (emitTakeProfit n program).code.Raises
      (if p.method = .atrBased ∧ program.mentions "int atrHandle" = false then ["tpAtrOk"] else [])
      (if p.method = .atrBased ∧ program.mentions "int atrHandle" = false then ["tpAtrOk"]
        else []) := by
  have hempty : ({ targetMethod := some p.method } : Program).Raises [] [] := .of_nil rfl rfl
  simp only [emitTakeProfit, hp]
  refine Program.Raises.idle_append hempty ?_
  cases hmethod : p.method with
  | fixedPips => exact .of_idle rfl rfl
  | riskReward => exact .of_idle rfl rfl
  | atrBased =>
    cases program.mentions "int atrHandle" with
    | true => exact atrTarget_raises n p true
    | false => exact atrTarget_raises n p false

theorem noDistance_raises (x : Ident) (what : String) : (noDistance x what).Raises [] [] :=
  .of_idle rfl rfl

theorem emitOrder_raises (side : Side) (n : Node) (program : Program) :
    (emitOrder side n program).code.Raises [] [] := by
  rw [emitOrder]
  split
  · rename_i s hp
    refine Program.Raises.append_idle ?_ (.of_idle rfl rfl)
    cases s.method
    · exact .of_idle rfl rfl
    · refine .of_idle ?_ rfl
      simp only
      split_ifs <;> rfl
  · exact .of_nil rfl rfl

/-! ## Entries, exits and rules -/

theorem dailyLimits_raises (s : Settings) : (dailyLimits s).Raises ["dailyLimitHit"] [] := by
  have hall : Stmt.AllRaise (dailyLimits s).tick ["dailyLimitHit"] := by
    simp only [dailyLimits]
    split_ifs <;> exact ⟨rfl, rfl, rfl⟩
  exact .of_one hall (s := .declare "bool" "dailyLimitHit" false) (by simp [dailyLimits]) rfl rfl

theorem conditionStmts_raise (mode : ConditionMode) (orders : Orders) (pairs : List (Expr × Expr)) :
    Stmt.AllRaise (conditionStmts mode orders (.ofPairs pairs)) [] := by
  have hside (e : Expr) (side : Side) : Stmt.AllRaise [.declare "bool" (conditionVar side) e] [] :=
    ⟨rfl, rfl, by rw [gateFlags_declare]; cases side <;> decide⟩
  rw [conditionStmts_ofPairs]
  generalize orders.sides = sides
  induction sides with
  | nil => exact ⟨rfl, rfl, rfl⟩
  | cons side sides ih => exact (hside _ side).after ih

theorem entryOpening_raises (ctx : Context) (orders : Orders) (pairs : List (Expr × Expr)) :
    (entryOpening ctx orders (.ofPairs pairs)).Raises
      (["newBar"] ++ if ctx.settings.limitsResult then ["dailyLimitHit"] else []) [] := by
  have hconditions := conditionStmts_raise ctx.settings.conditionMode orders pairs
  have hcounter : (if ctx.settings.limitsTrades then dailyCounter else {}).Raises [] [] := by
    split <;> exact .of_idle rfl rfl
  have hlimits : (if ctx.settings.limitsResult then dailyLimits ctx.settings else {}).Raises
      (if ctx.settings.limitsResult then ["dailyLimitHit"] else []) [] := by
    split
    · exact dailyLimits_raises _
    · exact .of_nil rfl rfl
  let isFirst : Expr := .group ((Expr.var "currentBarTime").ne "lastEntryBar")
  refine Program.Raises.append (Program.Raises.append_idle
    (.of_one (s := .declare "bool" "newBar" isFirst) ?_ (by simp [isFirst]) rfl rfl)
    hcounter) hlimits
  exact (Stmt.AllRaise.append ⟨rfl, rfl, rfl⟩ hconditions).append ⟨rfl, rfl, rfl⟩

/-- After the heading of the orders there is nothing more of an entry that is declared. -/
theorem sideBlock_idle (ctx : Context) (program : Program) (side : Side) (s : Sizing) :
    (sideBlock ctx program side s).isIdle = true := by
  rw [sideBlock, afterOrder]
  split <;> rfl

theorem executeBlock_idle (ctx : Context) (program : Program) (sizes : List (Side × Sizing)) :
    (executeBlock ctx program sizes).isIdle = true := by
  refine branch_isIdle ?_
  rw [all_append, Bool.and_eq_true, all_map]
  refine ⟨?_, all_eq_true.mpr fun x _ => sideBlock_idle ctx program x.1 x.2⟩
  split <;> rfl

theorem isGateFlag_closeCondition (i : ℕ) (side : Side) :
    isGateFlag (closeCondition i side).text = false := by
  have htime : (closeCondition i side).text ∉ ["isTradingTime"] := by
    refine Ident.text_notMem
      (show startsNone _ ("close" ++ side.label ++ "Condition") = true from ?_)
    cases side <;> decide
  have hstem : ("close" ++ side.label ++ "Condition").toList.head? = some 'c' := by
    cases side <;> decide
  refine isGateFlag_eq_false (ne_of_not_mem_cons htime) ?_ hstem (by decide)
  show startsNone _ ("close" ++ side.label ++ "Condition") = true
  cases side <;> decide

theorem closeCode_raises (i : ℕ) (direction : Direction) (c : Conditions) :
    (closeCode i direction.sides c).Raises [] [] := by
  refine ⟨by cases direction <;> rfl, rfl, ?_, by simp, rfl⟩
  rw [gateFlags, closeCode_flags, map_map, filter_eq_nil_iff]
  intro x hx
  obtain ⟨side, -, rfl⟩ := mem_map.mp hx
  simpa using isGateFlag_closeCondition i side

theorem emitCloseCondition_raises (n : Node) (i : ℕ) (indicators priceAction : List Node)
    (edges : List Edge) :
    (emitCloseCondition n i indicators priceAction edges).code.Raises [] [] := by
  rw [emitCloseCondition]
  split
  · split
    · exact .of_nil rfl rfl
    · split
      · exact .of_idle rfl rfl
      · exact closeCode_raises i _ _
  · exact .of_nil rfl rfl

theorem emitTimeExit_raises {ns : List Node} (hn : ns[i]? = some n)
    (h : HasCloseTimes ns program) (ctx : Context) :
    (emitTimeExit n i ctx program).code.Raises [] [] := by
  rw [emitTimeExit]
  split
  · rename_i p hp
    refine Program.Raises.idle_append (.of_idle rfl rfl) ?_
    cases hmode : p.exitMode with
    | bars => exact .of_idle rfl rfl
    | closeAtTime =>
      have htime : n.closeTime?.isSome = true := by simp [Node.closeTime?, hp, hmode]
      have hheading : (Stmt.heading ("Close At Time " ++
          closeClock p ctx.usesServerTime)).opensOrders = false :=
        heading_ne_orders (show _ = 'C' :: _ from rfl) (by decide)
      simp only [closeAtTime, closeTimeCheck, h i n hn htime, if_true]
      refine Program.Raises.idle_append (.of_nil rfl rfl) (.of_idle ?_ rfl)
      rw [all_cons, Stmt.isIdle, hheading]
      rfl
  · exact .of_nil rfl rfl

theorem emitManagement_raises (hrole : n.data.payload.role? = some .management)
    (program : Program) : (emitManagement n program).code.Raises [] [] := by
  obtain ⟨rule, hp⟩ := Payload.of_role hrole
  simp only [emitManagement, hp]
  have hrule := managementCode_isRule n program rule
  exact Program.Raises.idle_append (.of_nil rfl rfl) (.of_nil hrule.tick hrule.gates)

theorem emitPass_raises (program : Program) : (emitPass program).code.Raises [] [] := by
  rw [emitPass]
  cases program.rules
  · exact .of_nil rfl rfl
  · exact .of_idle rfl rfl

end TradeGraph

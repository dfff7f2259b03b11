import TradeGraph.Proofs.ClosedRisk
import TradeGraph.Proofs.Loading

/-!
# Closed timing and exits

Timing and spread refer to nothing but the clock and the symbol. Exits refer to the conditions of
signals, and to functions that they bring along.
-/

namespace TradeGraph

open List Mql Mql.Platform
open Program (closedIn_iff)

variable {σ : Scope}

variable {useServerTime : Bool} {ctx : Context} {flag : Ident} {indicators priceAction : List Node}
    {i : Nat} {n : Node} {program : Program} {p : TimeExit}

theorem Program.closedIn_empty : ({} : Program).ClosedIn σ := by
  simp [closedIn_iff]

/-! ## Timing -/

theorem oneLine_zeroPad2 (n : Int) : OneLine (Text.zeroPad2 n) := by
  rw [Text.zeroPad2]
  split <;> simp +decide

@[simp] theorem oneLine_clock (hour minute : Int) : OneLine (Text.clock hour minute) := by
  simp +decide [Text.clock, oneLine_zeroPad2]

@[simp] theorem oneLine_clockLabel (useServerTime : Bool) : OneLine (clockLabel useServerTime) := by
  cases useServerTime <;> decide

@[simp] theorem oneLine_sessionLabel (s : Session) : OneLine (sessionHours s).label := by
  cases s <;> decide

@[simp] theorem closed_weekday : weekday.Closed σ := by
  simp +decide [weekday]

@[simp] theorem closed_isDay (days : List Nat) : (isDay days).Closed σ := by
  simp [isDay, Expr.allClosed_iff]

@[simp] theorem closed_inWindow (first last : Int) : (inWindow first last).Closed σ := by
  rw [inWindow]
  split <;> simp +decide

theorem clockStmts_closed (useServerTime : Bool) : Stmt.AllClosed σ (clockStmts useServerTime) := by
  cases useServerTime <;> simp +decide [clockStmts]

theorem slotBody_closed {slots : List TimeSlot} (hflag : σ.Has flag) :
    Stmt.AllClosed σ (slotBody useServerTime slots flag) := by
  have hwindows : Expr.AllClosed σ (slots.map fun s => .group (inWindow s.first s.last)) := by
    simp [Expr.allClosed_iff]
  refine Stmt.allClosed_append.mpr ⟨Stmt.allClosed_append.mpr ⟨by simp +decide, ?_⟩,
    by simp [hflag, hwindows]⟩
  -- The slots themselves are only noted.
  rw [Stmt.allClosed_iff]
  intro s hs
  obtain ⟨⟨slot, i⟩, -, rfl⟩ := mem_map.mp hs
  simp +decide

theorem clockStmts_typed (useServerTime : Bool) :
    (clockStmts useServerTime).all Stmt.isTyped = true := by
  cases useServerTime <;> rfl

theorem sessionBody_closed {rule : SessionRule} (hflag : σ.Has flag) :
    Stmt.AllClosed σ (sessionBody useServerTime rule flag) ∧
      (sessionBody useServerTime rule flag).all Stmt.isTyped = true := by
  rw [sessionBody]
  split_ifs
  all_goals
    simp +decide [clockStmts_closed, clockStmts_typed, hflag]

theorem customBody_closed {rule : CustomRule} (hflag : σ.Has flag) :
    Stmt.AllClosed σ (customBody useServerTime rule flag) ∧
      (customBody useServerTime rule flag).all Stmt.isTyped = true := by
  rw [customBody]
  split_ifs
  all_goals
    simp +decide [clockStmts_closed, clockStmts_typed, slotBody_closed, hflag]

/-- The statements of a timing node are closed, inside a block and outside. -/
theorem timingBody_closed {body : List Stmt} (hflag : σ.Has flag)
    (h : timingBody n flag = .ok body) : Stmt.AllClosed σ body ∧ body.all Stmt.isTyped = true := by
  rw [timingBody] at h
  split at h
  case h_4 => cases h
  all_goals cases h
  case h_1 => simp +decide [alwaysBody, hflag]
  case h_2 => exact sessionBody_closed hflag
  case h_3 => exact customBody_closed hflag

theorem has_timingFlag (k : Nat) : σ.Has (timingFlag k) :=
  σ.has_numbered (by decide)

theorem timingScopes_closed : ∀ (k : Nat) (nodes : List Node),
    Stmt.AllClosed σ (timingScopes k nodes).1 ∧ (timingScopes k nodes).1.all Stmt.isTyped = true
  | _, [] => by simp [timingScopes]
  | k, n :: ns => by
    rw [timingScopes]
    split
    · simp
    · rename_i body hbody
      obtain ⟨hclosed, -⟩ := timingBody_closed (σ := σ) (σ.has_plain (by decide)) hbody
      obtain ⟨hrest, htyped⟩ := timingScopes_closed (k + 1) ns
      rw [all_append, Bool.and_eq_true]
      refine ⟨Stmt.allClosed_append.mpr ⟨?_, hrest⟩, ?_, htyped⟩
      · simp +decide [timingScope, hclosed, has_timingFlag]
      · simp +decide [timingScope]

theorem emitTiming_closed (nodes : List Node) : (emitTiming nodes).code.ClosedIn σ := by
  unfold emitTiming
  split
  case h_1 => exact Program.closedIn_empty
  case h_2 n =>
    split
    · exact Program.closedIn_empty
    · rename_i body hbody
      obtain ⟨hclosed, htyped⟩ := timingBody_closed (σ := σ) (σ.has_plain (by decide)) hbody
      have htick : InTurn σ (body ++ [.blank]) :=
        (Stmt.inTurn_of_allClosed hclosed htyped).append (by simp)
      simp [closedIn_iff, htick]
  case h_3 =>
    obtain ⟨hclosed, htyped⟩ := timingScopes_closed (σ := σ) 0 nodes
    have htick : InTurn σ (timingScopes 0 nodes).1 := Stmt.inTurn_of_allClosed hclosed htyped
    simp only
    split
    · simp [closedIn_iff, htick]
    · have hflags : Expr.AllClosed σ
          ((List.range nodes.length).map fun k => Expr.name (timingFlag k)) := by
        simp [Expr.allClosed_iff, has_timingFlag]
      have hany : InTurn σ [.declare "bool" "isTradingTime"
          (.any ((List.range nodes.length).map fun k => Expr.name (timingFlag k))), .blank] := by
        simp +decide [hflags]
      simp [closedIn_iff, htick.append hany]

theorem emitSpread_closed (nodes : List Node) : (emitSpread nodes).code.ClosedIn σ := by
  rw [emitSpread]
  split
  · exact Program.closedIn_empty
  · simp +decide [closedIn_iff]

/-! ## Close conditions -/

theorem exitSignal_closed (h : Library.Compares σ) (hindicators : σ.HasIndicators indicators)
    (hactions : σ.HasActions priceAction) {id : String} {c : Conditions}
    (hc : exitSignal indicators priceAction id = .ok c) : c.Closed σ := by
  have hempty : ({} : Conditions).Closed σ := ⟨trivial, trivial⟩
  rw [exitSignal] at hc
  split at hc
  · rename_i i hi
    split at hc
    · rename_i m signal indicator hnode
      cases hc
      obtain ⟨n, hn, hindicator⟩ := Option.bind_eq_some_iff.mp hnode
      exact Indicator.reversal_closed h
        (hindicators i n hn signal indicator (Node.indicator?_eq_some hindicator).2)
    · cases hc
  · split at hc
    · cases hc
      exact hempty
    · rename_i i hi
      split at hc
      · cases hc
        exact hempty
      · rename_i n hn
        split at hc
        · rename_i timeframe action hpayload
          cases hc
          exact PriceAction.reversal_closed (hactions i n hn timeframe action hpayload)
        · cases hc

theorem exitSignals_closed (h : Library.Compares σ) (hindicators : σ.HasIndicators indicators)
    (hactions : σ.HasActions priceAction) :
    ∀ {ids : List String} {c : Conditions}, exitSignals indicators priceAction ids = .ok c →
      c.Closed σ
  | [], c, hc => by
    cases hc
    exact ⟨trivial, trivial⟩
  | id :: ids, c, hc => by
    rw [exitSignals] at hc
    obtain ⟨first, rest, hfirst, hrest, rfl⟩ := of_bind₂_eq_ok hc
    exact Conditions.append_closed (exitSignal_closed h hindicators hactions hfirst)
      (exitSignals_closed h hindicators hactions hrest)

theorem closed_joined {mode : ConditionMode} {es : List Expr} (h : Expr.AllClosed σ es) :
    (joined mode es).Closed σ := by
  unfold joined
  split
  · trivial
  · cases mode <;> exact h

theorem closeCall_closed {side : Side}
    (hname : σ.HasFunction (Library.closePositions side.label).name) :
    (closeCall side).Closed σ := by
  cases side <;> simpa +decide [closeCall, Library.closePositions, Side.label] using hname

theorem closeSide_closed {side : Side} {signals : List Expr} (hsignals : Expr.AllClosed σ signals)
    (hname : σ.HasFunction (Library.closePositions side.label).name) :
    Stmt.AllClosed σ (closeSide i side signals) := by
  have hflag : σ.Has (exitName ("close" ++ side.label ++ "Condition") i) := by
    cases side <;> exact σ.has_exitName (by decide)
  simp +decide [closeSide, closed_joined hsignals, closeCall_closed hname, hflag]

theorem closeCode_closed (hgeneral : Library.General σ) {sides : List Side} {c : Conditions}
    (hc : c.Closed σ) (h : σ.Covers (closeCode i sides c)) : (closeCode i sides c).ClosedIn σ := by
  have hkey : ∀ side : Side, isOwnKey (Library.closePositions side.label).name.stem = true := by
    rintro (_ | _) <;> decide
  have hnames : ∀ s ∈ sides, σ.HasFunction (Library.closePositions s.label).name := fun s hs =>
    h.hasFunction (mem_map_of_mem hs) (hkey s)
  have hbody : Stmt.AllClosed σ (sides.flatMap fun s => closeSide i s (c.of s)) := by
    rw [Stmt.allClosed_iff]
    intro t ht
    obtain ⟨s, hs, ht⟩ := mem_flatMap.mp ht
    have hsignals : Expr.AllClosed σ (c.of s) := by
      cases s
      · exact hc.1
      · exact hc.2
    exact Stmt.allClosed_iff.mp (closeSide_closed hsignals (hnames s hs)) t ht
  have hhelpers : ∀ f ∈ sides.map fun s => Helper.ofFunction (Library.closePositions s.label),
      f.Sound σ.loose := by
    intro f hf
    obtain ⟨s, hs, rfl⟩ := mem_map.mp hf
    exact (Helper.sound_ofFunction (hkey s)).mpr
      (Library.closePositions_closed hgeneral s (hnames s hs))
  refine Program.closedIn_iff.mpr ⟨by simp [closeCode], by simp [closeCode], by simp [closeCode],
    ?_, hhelpers, by simp [closeCode], by simp [closeCode], by simp [closeCode]⟩
  simp +decide [closeCode, hbody]

theorem emitCloseCondition_closed (hgeneral : Library.General σ) (hcompares : Library.Compares σ)
    {edges : List Edge} (hindicators : σ.HasIndicators indicators)
    (hactions : σ.HasActions priceAction)
    (h : σ.Covers (emitCloseCondition n i indicators priceAction edges).code) :
    (emitCloseCondition n i indicators priceAction edges).code.ClosedIn σ := by
  rw [emitCloseCondition] at h ⊢
  split at h
  case h_2 => exact Program.closedIn_empty
  case h_1 =>
    split at h
    · exact Program.closedIn_empty
    · rename_i c hc
      have hclosed := exitSignals_closed hcompares hindicators hactions hc
      split at h
      · simp +decide [closedIn_iff, *]
      · rename_i hsome
        rw [if_neg hsome]
        exact closeCode_closed hgeneral hclosed h

/-! ## Time exits -/

theorem closeAfterBars_closed (hgeneral : Library.General σ) (h : σ.Covers (closeAfterBars n p i)) :
    (closeAfterBars n p i).ClosedIn σ := by
  have hinputs := h.inputs
  simp only [closeAfterBars, forall_mem_cons, Node.name_intInput] at hinputs
  have hlimit := hinputs.1
  simp +decide [closedIn_iff, closeAfterBars, Library.closed_eachOwnPosition hgeneral, hlimit]

theorem has_closeFlag (i : Nat) : σ.Has (closeFlag i) :=
  σ.has_exitName (by decide)

@[simp] theorem oneLine_closeClock (p : TimeExit) (useServerTime : Bool) :
    OneLine (closeClock p useServerTime) := by
  simp +decide [closeClock]

theorem closeTimeCheck_closed (h : σ.Covers (closeTimeCheck n p i ctx program)) :
    (closeTimeCheck n p i ctx program).ClosedIn σ := by
  simp only [closeTimeCheck] at h ⊢
  split at h
  · rename_i hdone
    rw [if_pos hdone]
    exact Program.closedIn_empty
  · rename_i hdone
    rw [if_neg hdone]
    have hinputs := h.inputs
    simp only [forall_mem_cons, Node.name_intInput] at hinputs
    cases ctx.usesServerTime <;>
      simp +decide [closedIn_iff, has_closeFlag, hinputs]

theorem closeTimeChecks_closed : ∀ {i : Nat} {nodes : List Node}
    {program : Program}, σ.Covers (closeTimeChecks ctx i nodes program).1 →
      (closeTimeChecks ctx i nodes program).1.ClosedIn σ ∧
        ∀ x ∈ (closeTimeChecks ctx i nodes program).2, σ.Has x
  | _, [], _, _ => ⟨Program.closedIn_empty, fun _ hx => by cases hx⟩
  | i, n :: ns, program, h => by
    rw [closeTimeChecks] at h ⊢
    split at h
    · exact closeTimeChecks_closed h
    · obtain ⟨hfirst, hrest⟩ := Scope.covers_append.mp h
      obtain ⟨hclosed, hflags⟩ := closeTimeChecks_closed hrest
      exact ⟨(closeTimeCheck_closed hfirst).append hclosed,
        forall_mem_cons.mpr ⟨has_closeFlag i, hflags⟩⟩

theorem emitCloseTimeGate_closed {nodes : List Node}
    (h : σ.Covers (emitCloseTimeGate nodes ctx program).code) :
    (emitCloseTimeGate nodes ctx program).code.ClosedIn σ := by
  rw [emitCloseTimeGate] at h ⊢
  cases hchecks : closeTimeChecks ctx 0 nodes program with
  | mk code flags =>
    rw [hchecks] at h
    cases flags with
    | nil => exact Program.closedIn_empty
    | cons flag flags =>
      obtain ⟨hcode, -⟩ := Scope.covers_append.mp h
      have hcovers : σ.Covers (closeTimeChecks ctx 0 nodes program).1 := by
        rw [hchecks]
        exact hcode
      obtain ⟨hclosed, hflags⟩ := closeTimeChecks_closed hcovers
      rw [hchecks] at hclosed hflags
      refine hclosed.append ?_
      have hgates : Expr.AllClosed σ ((flag :: flags).map fun x => .not (Expr.var x)) := by
        rw [Expr.allClosed_iff]
        intro e he
        obtain ⟨x, hx, rfl⟩ := mem_map.mp he
        exact hflags x hx
      simpa [closedIn_iff] using hgates

theorem closeAtTime_closed (hgeneral : Library.General σ)
    (h : σ.Covers (closeAtTime n p i ctx program)) :
    (closeAtTime n p i ctx program).ClosedIn σ := by
  obtain ⟨hcheck, hclose⟩ := Scope.covers_append.mp h
  refine (closeTimeCheck_closed hcheck).append ?_
  have hbuy : σ.HasFunction (Library.closePositions Side.buy.label).name :=
    hclose.hasFunction (by simp) (by decide)
  have hsell : σ.HasFunction (Library.closePositions Side.sell.label).name :=
    hclose.hasFunction (by simp) (by decide)
  have hdelete : σ.HasFunction "DeletePendingOrders" :=
    hclose.hasFunction (f := Library.deletePending) (by simp) (by decide)
  simp +decide [closedIn_iff, has_closeFlag, closeCall_closed hbuy, closeCall_closed hsell,
    hdelete, Library.closePositions_closed hgeneral, hbuy, hsell,
    Library.deletePending_closed hgeneral hdelete]

theorem emitTimeExit_closed (hgeneral : Library.General σ)
    (h : σ.Covers (emitTimeExit n i ctx program).code) :
    (emitTimeExit n i ctx program).code.ClosedIn σ := by
  rw [emitTimeExit] at h ⊢
  split at h
  case h_2 => exact Program.closedIn_empty
  case h_1 p hp =>
    obtain ⟨-, h⟩ := Scope.covers_append.mp h
    refine Program.ClosedIn.append (by simp [closedIn_iff]) ?_
    cases hmode : p.exitMode <;> simp only [hmode] at h ⊢
    case bars => exact closeAfterBars_closed hgeneral h
    case closeAtTime => exact closeAtTime_closed hgeneral h

end TradeGraph

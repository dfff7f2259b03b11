import TradeGraph.Proofs.Names
import TradeGraph.Proofs.RuleTools

/-!
# Code that knows its position

A rule is called for one position, which is selected, and is told its ticket, side and open price.
It keeps to that position: it may select it again, read its stop and test whether a new one is
better.
-/

namespace TradeGraph

open Mql Mql.Platform Rule

variable {X : String → Prop} {ticket : ℚ} {rest : List Stmt} {stop target : Expr}

/-! ## Seats -/

/-- The variables that a rule is given. -/
def givenNames : List String :=
  ["ticket", "openPrice", "posType", "currentSL"]

/-- Any other variable. -/
def NotGiven (x : String) : Prop :=
  x ∉ givenNames

instance (x : String) : Decidable (NotGiven x) :=
  inferInstanceAs (Decidable (x ∉ givenNames))

/-- The position is open and selected, and a variable has its ticket. -/
structure Chosen (s : State) (p : Position) : Prop where
  selected : s.world.selected = some p
  there : s.world.position? p.ticket = some p
  ticket : s.locals "ticket" = some (.num p.ticket)

/-- Other variables have its side and its open price. -/
structure Seated (s : State) (p : Position) : Prop extends Chosen s p where
  openPrice : s.locals "openPrice" = some (.num p.openPrice)
  posType : s.locals "posType" = some (.ofSide p.side)

section Seats

variable {F : Move → Prop} {market : Market} {call : Caller} {bound : ℕ} {s t : State}
  {p : Position}

theorem Mql.Kept.given {R : World → World → Prop} (h : Kept R NotGiven s t) {x : String}
    (hx : x ∈ givenNames) : t.locals x = s.locals x :=
  h.locals x (not_not.mpr hx)

theorem Chosen.kept (h : Chosen s p) (hX : ¬ X "ticket")
    (hkept : Kept World.Quiet X s t) : Chosen t p where
  selected := hkept.world.selected.trans h.selected
  there := (hkept.world.idle.position?_eq _).trans h.there
  ticket := (hkept.locals _ hX).trans h.ticket

theorem Seated.kept (h : Seated s p) (hkept : Kept World.Quiet NotGiven s t) : Seated t p where
  toChosen := h.toChosen.kept (by decide) hkept
  openPrice := (hkept.given (by decide)).trans h.openPrice
  posType := (hkept.given (by decide)).trans h.posType

theorem Chosen.lookup_ticket (h : Chosen s p) : s.lookup "ticket" = .num p.ticket :=
  State.lookup_of_local (by decide) h.ticket

theorem eval_isBuyPosition (h : s.locals "posType" = some (.ofSide p.side)) :
    isBuyPosition.eval call s = (.flag (p.side = .buy), s) := by
  have htype : s.lookup "posType" = .ofSide p.side := State.lookup_of_local (by decide) h
  have hbuy : s.lookup "POSITION_TYPE_BUY" = .ofSide .buy := rfl
  show (Value.flag (s.lookup "posType" = s.lookup "POSITION_TYPE_BUY"), s) = _
  rw [htype, hbuy]
  cases p.side <;> rfl

/-! ## Selecting and reading -/

/-- A property of the selected position is read without a question to the market. -/
theorem eval_property (hserves : call.Serves F market) (h : s.world.selected = some p)
    {f : String} (hf : f = "PositionGetDouble" ∨ f = "PositionGetInteger") {c : String}
    (hc : c ∈ positionConstants) {v : Value} (hv : p.property? (.constant c) = some v) :
    (Expr.call f [.name c]).eval call s = (v, s) := by
  have hname : s.lookup (Ident.text c) = .constant c := by
    rw [Scope.text_plain, State.lookup, if_pos hc]
  have hread (q : Query) : s.world.read market q (.constant c) = (v, s.world) := by
    simp only [World.read, h, Option.bind_some, hv]
  have hcall : call (.call f [.constant c]) s.world = (v, s.world) := by
    rcases hf with rfl | rfl <;>
      exact (hserves.platform _ (by decide) _ _).trans (hread _)
  show State.request call (.call (Ident.text f) [s.lookup (Ident.text c)]) s = (v, s)
  rw [hname, Scope.text_plain, State.request, hcall]

theorem eval_stop (hserves : call.Serves F market) (h : s.world.selected = some p) :
    (positionDouble "POSITION_SL").eval call s = (.num p.stop, s) :=
  eval_property hserves h (.inl rfl) (by decide) rfl

/-- The position of a ticket is selected as it is now, unless it is closed. -/
theorem eval_selectTicket (hserves : call.Serves F market)
    (hticket : t.locals "ticket" = some (.num ticket)) :
    (∃ q u, (selectTicket "ticket").eval call t = (.flag true, u) ∧ Chosen u q ∧
        t.world.position? ticket = some q ∧ Kept World.Idle (fun _ => False) t u) ∨
      (selectTicket "ticket").eval call t = (.flag false, t) := by
  have hlookup : t.lookup "ticket" = .num ticket := State.lookup_of_local (by decide) hticket
  have hcall : call (.call "PositionSelectByTicket" [.num ticket]) t.world =
      t.world.select ticket := hserves.platform _ (by decide) _ _
  have hselect : (selectTicket "ticket").eval call t =
      ((t.world.select ticket).1, { t with world := (t.world.select ticket).2 }) := by
    show State.request call (.call "PositionSelectByTicket" [t.lookup "ticket"]) t = _
    rw [hlookup, State.request, hcall]
  rw [hselect, World.select]
  cases hq : t.world.position? ticket with
  | none => exact .inr rfl
  | some q =>
    have hsame := World.ticket_of_position? hq
    exact .inl ⟨q, _, rfl, ⟨rfl, hsame.symm ▸ hq, hsame.symm ▸ hticket⟩, rfl, ⟨rfl, rfl⟩,
      fun _ _ => rfl⟩

/-- Code that selects the position of a ticket, and ends if it is closed. -/
theorem kept_choose (hserves : call.Serves F market)
    (hticket : t.locals "ticket" = some (.num ticket)) {a : Action} (ha : a = .ret ∨ a = .skip)

    (hrest : ∀ u q, Chosen u q → t.world.position? ticket = some q →
      Kept World.Idle (fun _ => False) t u →
        Kept (World.Later F) X u (Stmt.execAll call bound rest u).2) :
    Kept (World.Later F) X t
      (Stmt.execAll call bound (.guard (.not (selectTicket "ticket")) a :: rest) t).2 := by
  have hlater := along_later F
  rw [Stmt.execAll_guard]
  rcases eval_selectTicket hserves hticket with ⟨q, u, heval, hu, hq, hkept⟩ | heval
  · simp only [Expr.eval, heval, Value.isTrue_flag, Bool.not_true, Bool.false_eq_true, if_false]
    exact ((hkept.weaken fun _ => False.elim).mono fun h => h.still.later).trans hlater
      (hrest u q hu hq hkept)
  · simp only [Expr.eval, heval, Value.isTrue_flag, Bool.not_false, if_true]
    rcases ha with rfl | rfl <;> exact .refl hlater t

theorem Seated.again (hseat : Seated s p) (hsince : Kept (World.Later F) NotGiven s t)
    {u : State} {q : Position} (hu : Chosen u q) (hq : t.world.position? p.ticket = some q)
    (hkept : Kept World.Idle (fun _ => False) t u) : Seated u q := by
  obtain ⟨r, hr, hside, hopen⟩ := hsince.world.positions hq
  rw [hseat.there] at hr
  cases hr
  have hlocal {x : String} (hx : x ∈ givenNames) : u.locals x = s.locals x :=
    (hkept.locals x id).trans (hsince.given hx)
  exact
    { hu with
      openPrice := hopen ▸ (hlocal (by decide)).trans hseat.openPrice
      posType := hside ▸ (hlocal (by decide)).trans hseat.posType }

/-- Code of a rule that selects its position again, and ends if it is closed. -/
theorem kept_reselect (hserves : call.Serves F market) (hseat : Seated s p)
    (hsince : Kept (World.Later F) NotGiven s t) {a : Action} (ha : a = .ret ∨ a = .skip)

    (hrest : ∀ u q, Seated u q → Kept World.Idle (fun _ => False) t u →
      Kept (World.Later F) X u (Stmt.execAll call bound rest u).2) :
    Kept (World.Later F) X t
      (Stmt.execAll call bound (.guard (.not (selectTicket "ticket")) a :: rest) t).2 :=
  kept_choose hserves ((hsince.given (by decide)).trans hseat.ticket) ha fun u q hu hq hkept =>
    hrest u q (hseat.again hsince hu hq hkept) hkept

theorem kept_declared (hserves : call.Serves F market) {e : Expr}
    (he : e.Calm QuietCall fun _ => False) (x : String) (s : State) :
    Kept World.Quiet (· = x) s ((e.eval call s).2.declare x (e.eval call s).1) :=
  ((e.kept_eval along_quiet hserves.quiet he s).weaken fun _ => False.elim).trans along_quiet
    (kept_declare along_quiet (by rfl) _ _)

/-! ## Setting stops -/

theorem kept_modify (hserves : call.Serves F market)
    (hstop : stop.Calm QuietCall NotGiven) (htarget : target.Calm QuietCall NotGiven)
    (hthere : s.world.position? p.ticket = some p) (hticket : s.lookup "ticket" = .num p.ticket)
    (hfine : F ⟨p, (stop.eval call s).1.toNum⟩) :
    Kept (World.Later F) NotGiven s ((modify stop target).exec call s).2 := by
  have hfirst := stop.kept_eval along_quiet hserves.quiet hstop s
  have hsecond := target.kept_eval along_quiet hserves.quiet htarget (stop.eval call s).2
  have hargs := hfirst.trans along_quiet hsecond
  refine (hargs.mono World.Quiet.later).trans (along_later F) ⟨?_, fun _ _ => rfl⟩
  refine hserves.modify (s.lookup "ticket") (stop.eval call s).1 _ _ fun q hq => ?_
  rw [hargs.world.idle.position?_eq, hticket, Value.toNum_num, hthere] at hq
  cases hq
  exact hfine

/-- The expression changes nothing, and if it is true then so is the statement. -/
structure Mql.Expr.Tells (call : Caller) (s : State) (e : Expr) (P : Prop) : Prop where
  state : (e.eval call s).2 = s
  holds : (e.eval call s).1.isTrue = true → P

namespace Mql.Expr.Tells

variable {a b : Expr} {P Q : Prop}

theorem mono (h : a.Tells call s P) (hPQ : P → Q) : a.Tells call s Q :=
  ⟨h.state, fun htrue => hPQ (h.holds htrue)⟩

theorem isSide {side : Side} {c : String} (hc : s.lookup c = .ofSide side)
    (h : s.locals "posType" = some (.ofSide p.side)) :
    Expr.Tells call s ((Expr.var "posType").eq c) (p.side = side) := by
  have htype : s.lookup "posType" = .ofSide p.side := State.lookup_of_local (by decide) h
  refine ⟨rfl, fun htrue => ?_⟩
  have heq : s.lookup (Ident.text "posType") = s.lookup (Ident.text c) := of_decide_eq_true htrue
  rw [Scope.text_plain, Scope.text_plain, htype, hc] at heq
  revert heq
  cases p.side <;> cases side <;> decide

theorem lt (x y : String) : Expr.Tells call s ((Expr.var x).lt y)
    ((s.lookup x).toNum < (s.lookup y).toNum) := by
  refine ⟨rfl, fun h => ?_⟩
  simpa only [Scope.text_plain] using of_decide_eq_true h

theorem gt (x y : String) : Expr.Tells call s ((Expr.var x).gt y)
    ((s.lookup y).toNum < (s.lookup x).toNum) := by
  have h : ((Expr.var y).lt x).Tells call s ((s.lookup y).toNum < (s.lookup x).toNum) := lt y x
  exact ⟨rfl, h.holds⟩

theorem noStop (x : String) : (noStop x).Tells call s (s.lookup x = .num 0) := by
  refine ⟨rfl, fun h => ?_⟩
  simpa only [Scope.text_plain, Literal.value, Nat.cast_zero, Int.cast_zero] using
    of_decide_eq_true h

theorem group (h : a.Tells call s P) : (Expr.group a).Tells call s P :=
  ⟨h.state, h.holds⟩

theorem all (ha : a.Tells call s P) (hb : b.Tells call s Q) :
    (Expr.all [a, b]).Tells call s (P ∧ Q) := by
  refine ⟨?_, ?_⟩ <;> simp only [Expr.eval, Expr.evalAnd, ha.state]
  · split
    · split <;> exact hb.state
    · rfl
  · split
    · rename_i hfirst
      split
      · rename_i hsecond
        exact fun _ => ⟨ha.holds hfirst, hb.holds hsecond⟩
      · exact nofun
    · exact nofun

theorem any (ha : a.Tells call s P) (hb : b.Tells call s Q) :
    (Expr.any [a, b]).Tells call s (P ∨ Q) := by
  refine ⟨?_, ?_⟩ <;> simp only [Expr.eval, Expr.evalOr, ha.state]
  · split
    · rfl
    · split <;> exact hb.state
  · split
    · rename_i hfirst
      exact fun _ => .inl (ha.holds hfirst)
    · split
      · rename_i hsecond
        exact fun _ => .inr (hb.holds hsecond)
      · exact nofun

end Mql.Expr.Tells

theorem kept_tested (hserves : call.Serves F market) (hseat : Seated s p) {test : Expr}
    (hstop : stop.Calm QuietCall NotGiven) (htarget : target.Calm QuietCall NotGiven)
    (htest : test.Tells call s (F ⟨p, (stop.eval call s).1.toNum⟩)) {no : State → Flow × State}
    (hno : Kept (World.Later F) NotGiven s (no s).2) :
    Kept (World.Later F) NotGiven s
      (test.decideOn call ((modify stop target).exec call) no s).2 := by
  simp only [Expr.decideOn, htest.state]
  split
  · rename_i htrue
    exact kept_modify hserves hstop htarget hseat.there hseat.lookup_ticket (htest.holds htrue)
  · exact hno

end Seats

end TradeGraph

import TradeGraph.Proofs.Partition
import TradeGraph.Proofs.Sizing

/-!
# Sides are isolated

What a program says about a side comes from many of its parts: the inputs and the lot from the size,
the condition and the gate from the entry, the call from the block of orders, and the function that
is called from the helpers. None of them says anything about a side without an order.
-/

namespace TradeGraph

open List Mql Mql.Platform

variable {ctx : Context} {program : Program} {sizes : List (Side × Sizing)}
  {side : Side} {s : Sizing}

def Side.kind : Side → Kind
  | .buy => .placeBuy
  | .sell => .placeSell

def Side.opener (side : Side) : OrderType → String
  | .market => "Open" ++ side.label
  | .stop => "Place" ++ side.label ++ "Stop"
  | .limit => "Place" ++ side.label ++ "Limit"

theorem text_orderFunction (side : Side) (s : Sizing) (options : Options) :
    (orderFunction side s options).name.text = side.opener s.orderType := by
  rw [orderFunction, Sizing.isPending]
  cases side <;> cases s.orderType <;> rfl

theorem Side.opener_mem_iff (side other : Side) (t : OrderType) :
    other.opener t ∈ side.orderNames ↔ other = side := by
  cases side <;> cases other <;> cases t <;> decide

theorem Side.words_disjoint (side : Side) {other : Side} (h : other ≠ side) :
    ∀ w ∈ other.words, w ∉ side.words := by
  cases side <;> cases other <;> first | exact absurd rfl h | decide

theorem Graph.orders_of (g : Graph) (side : Side) :
    g.orders.of side = g.liveNodes.find? fun n => n.kind = side.kind := by
  have hrole (role : Role) (hkinds : role.kinds = [side.kind]) :
      (withRole role g.liveNodes).head? = g.liveNodes.find? fun n => n.kind = side.kind := by
    rw [withRole, head?_filter]
    congr 1
    funext n
    have hiff : n.data.payload.role? = some role ↔ n.data.payload.kind ∈ role.kinds :=
      Payload.role?_eq_some_iff
    rw [hkinds, mem_singleton, ← beq_iff_eq] at hiff
    exact Bool.eq_iff_iff.mpr (hiff.trans decide_eq_true_iff.symm)
  cases side with
  | buy => exact hrole .buy rfl
  | sell => exact hrole .sell rfl

/-! ## Inputs -/

def Side.Begins (side : Side) (x : Ident) : Prop :=
  ("Inp" ++ side.label).toList <+: x.text.toList

/-- Neither of the two words begins with the other. -/
def Side.Apart (side : Side) (w : String) : Prop :=
  ¬ ("Inp" ++ side.label).toList <+: w.toList ∧ ¬ w.toList <+: ("Inp" ++ side.label).toList

instance (side : Side) (w : String) : Decidable (side.Apart w) :=
  inferInstanceAs (Decidable (_ ∧ _))

theorem Side.Apart.not_begins {w : String} {x : Ident} (h : side.Apart w)
    (hw : w.toList <+: x.text.toList) : ¬ side.Begins x :=
  fun hx => ( prefix_or_prefix_of_prefix hx hw).elim h.1 h.2

/-- No other family has words that begin like the orders of a side. -/
theorem Family.apart {f : Family} (h : f ≠ .order side) : ∀ w ∈ f.leads, side.Apart w := by
  have hall : ∀ side ∈ [Side.buy, .sell], ∀ f ∈ all, f ≠ .order side → ∀ w ∈ f.leads,
    side.Apart w := by
    decide +kernel
  exact hall side (by cases side <;> decide) f f.mem_all h

theorem Mql.Ident.Named.not_begins {f : Family} {x : Ident} (hx : x.Named f) (h : f ≠ .order side) :
    ¬ side.Begins x := by
  refine (Family.apart h _ hx.lead).not_begins ?_
  rw [Ident.text_eq, Ident.lead]
  cases hnumber : x.number <;> simp [Ident.digits, hnumber]

theorem Management.stems_apart (rule : Management) : ∀ w ∈ rule.inputStems, side.Apart w := by
  cases rule with
  | breakeven p =>
    rw [Management.inputStems]
    cases p.trigger <;> cases side <;> decide
  | trailing p =>
    rw [Management.inputStems]
    cases p.method <;> cases side <;> decide
  | partialClose p =>
    rw [Management.inputStems]
    cases p.triggerMethod <;> cases side <;> decide
  | lockProfit p =>
    rw [Management.inputStems]
    cases p.method <;> cases side <;> decide
  | multiTarget p =>
    rw [Management.inputStems]
    cases side <;> decide

/-- No input of the program begins like those of the side. -/
def Program.Lacks (side : Side) (p : Program) : Prop :=
  ∀ x ∈ p.inputs.map Input.name, ¬ side.Begins x

section Lacks

variable {p q : Program}

theorem Program.Lacks.append (hp : p.Lacks side) (hq : q.Lacks side) : (p ++ q).Lacks side := by
  rw [Program.Lacks, Program.append_inputs, map_append]
  exact forall_mem_append.mpr ⟨hp, hq⟩

theorem emitManagement_lacks (n : Node) (program : Program) :
    (emitManagement n program).code.Lacks side := by
  rw [emitManagement]
  split
  · rename_i rule _
    refine Program.Lacks.append (fun _ hx => absurd hx not_mem_nil) fun x hx => ?_
    rw [inputs_managementCode] at hx
    obtain ⟨w, hw, rfl⟩ := mem_map.mp hx
    refine (rule.stems_apart w hw).not_begins ?_
    rw [Ident.text_eq, String.toList_append]
    exact prefix_append _ _
  · exact fun _ hx => absurd hx not_mem_nil

theorem emitPass_lacks (program : Program) : (emitPass program).code.Lacks side := by
  rw [emitPass]
  split <;> exact fun _ hx => absurd hx not_mem_nil

theorem Program.Uses.lacks {r : Roles} (h : p.Uses r.plainFamilies)
    (hnone : r.orders.of side = none) : p.Lacks side := by
  intro x hx
  obtain ⟨f, hf, hnamed⟩ := h.named x (mem_append_left _ hx)
  refine hnamed.not_begins ?_
  rintro rfl
  cases side <;> simp [Orders.of] at hnone <;>
    simp [Roles.plainFamilies, Roles.orderFamilies, hnone] at hf

end Lacks

section Compiles

variable {g : Graph} {project : String} {options : Options} {c : Compiled}

/-- Without a node for a side, no input of the program belongs to it. -/
theorem Graph.inputs_apart (h : (g.compile project options).result = .ok c)
    (hnone : g.orders.of side = none) : c.program.Lacks side := by
  have hrun := Graph.run_of_roles h
  rw [laterSteps_eq] at hrun
  obtain ⟨managed, hrun, hpass⟩ := Run.append_iff.mp hrun
  obtain ⟨exited, hrun, hrules⟩ := Run.append_iff.mp hrun
  have hgeneral : (generalInputs c.context.settings).Uses [.general] :=
    (generalInputs_declares _).mono fun x hx => ⟨_, mem_singleton_self _, hx.1⟩
  have hmanaged : managed.Lacks side := by
    refine hrules.invariant (fun s hs m hm _ => hm.append ?_)
      ((hrun.uses_plain hgeneral).lacks hnone)
    obtain ⟨n, -, rfl⟩ := mem_map.mp hs
    exact emitManagement_lacks n m
  rw [hpass.eq_append]
  exact hmanaged.append (emitPass_lacks managed)

/-! ## Words -/

def Mql.Scope.sparing (W : List String) : Scope :=
  { Scope.all with reserved := {w | w ∉ W} }

/-- Words of trading that no side with a node needs are in no line and in no block. -/
theorem Graph.words_absent (h : (g.compile project options).result = .ok c) {W : List String}
    (hW : ∀ w ∈ W, w ∈ tradeWords)
    (hsides : ∀ side n, g.orders.of side = some n → ∀ w ∈ side.words, w ∉ W)
    (hdistances : (Roles.ofNodes g.liveNodes).hasEntry = true → "slPips" ∉ W ∧ "tpPips" ∉ W) :
    ∀ text ∈ c.program.tickLines ++ c.program.blocks, ∀ w ∈ W, w ∉ words text := by
  have hserves : (Scope.sparing W).Serves (Roles.ofNodes g.liveNodes) := by
    refine Scope.serves_of_all (fun _ => ?_) (fun _ => ?_) ⟨?_, ?_, ?_, ?_⟩
      (fun x k _ => Scope.mayRead_of_elements rfl x k) hsides fun hentry => ?_
    case refine_7 =>
      obtain ⟨hstop, htarget⟩ := hdistances hentry
      exact ⟨hstop, htarget⟩
    all_goals trivial
  have hpass : "ManageOpenPositions" ∈ (Scope.sparing W).reserved :=
    fun hmem => absurd (hW _ hmem) (by decide)
  have hclosed := Graph.closedIn h hserves ⟨fun _ _ => trivial, fun _ _ => trivial,
    fun _ _ _ _ => trivial⟩ hpass
  intro text htext w hw hword
  have hreserved : w ∈ reservedWords := mem_append_right _ (hW w hw)
  rcases mem_append.mp htext with htick | hblock
  · have hstands := (Stmt.block_stands _ hclosed.tick.closed_free).stands text htick
    exact (words_of_stands hstands hword).2.2 hreserved hw
  · obtain ⟨k, hk, rfl⟩ := mem_map.mp hblock
    have hstands := (Helper.written_defines (hclosed.helpers k hk).closed).1
    exact (words_of_stands hstands hword).2.2 hreserved (hW w hw) hw

end Compiles

/-! ## Calls that place orders -/

/-- The functions that place orders, as they are called in tokens. -/
def placedIn (ts : List Token) : List String :=
  (ts.filterMap Token.call?).filter (· ∈ orderCalls)

theorem placedIn_append (ts us : List Token) :
    placedIn (ts ++ us) = placedIn ts ++ placedIn us := by
  rw [placedIn, filterMap_append, filter_append]
  rfl

@[simp] theorem placedIn_mark (c : Char) (ts : List Token) :
    placedIn (.mark c :: ts) = placedIn ts :=
  rfl

@[simp] theorem placedIn_call (f : String) (ts : List Token) :
    placedIn (.call f :: ts) = (if f ∈ orderCalls then [f] else []) ++ placedIn ts := by
  show (f :: ts.filterMap Token.call?).filter _ = _
  rw [filter_cons]
  split <;> simp_all [placedIn]

/-- Tokens of code without the functions that place orders call none of them. -/
theorem placedIn_of_fine {ts : List Token} (h : ∀ t ∈ ts, (Scope.lacking orderCalls).Fine t) :
    placedIn ts = [] := by
  refine Scope.calls_of_fine h fun f hf => ?_
  exact hf.2.elim (fun hplatform hw => orderCalls_withheld f hw hplatform) id

theorem placedIn_block {ss : List Stmt} (h : Stmt.AllClosed (Scope.lacking orderCalls) ss) :
    placedIn ((Stmt.block ss).flatMap tokens) = [] := by
  refine placedIn_of_fine fun t ht => ?_
  obtain ⟨l, hl, ht⟩ := mem_flatMap.mp ht
  exact ((Stmt.block_stands ss h).stands l hl).permits.fine t ht

theorem placedIn_ifHead {e : Expr} (h : e.Closed (Scope.lacking orderCalls)) :
    placedIn (tokens (ifHead e)) = [] :=
  placedIn_of_fine
    (Stands.of_reads (ifHead_reads (Scope.inner_prints _) (e.reads h))).1.permits.fine

/-- The calls of a branch are those of its condition and those of its body. -/
theorem placedIn_branch {body : List Stmt} (h : Stmt.AllClosed Scope.all body) (e : Expr) :
    placedIn ((Stmt.branch e body).lines.flatMap tokens) =
      placedIn (tokens (ifHead e)) ++ placedIn ((Stmt.block body).flatMap tokens) := by
  rw [Stmt.lines, flatMap_cons, (braces_stands (Stmt.block_stands body h)).2, placedIn_append,
    placedIn_append, placedIn_mark, placedIn_mark]
  exact congrArg _ (append_nil _)

/-- A test that places an order places this one: its arguments call nothing of the kind. -/
theorem placedIn_ifHead_call {f : Ident} {arguments : List Expr} (hf : f.text ∈ orderCalls)
    (h : Expr.AllClosed (Scope.lacking orderCalls) arguments) :
    placedIn (tokens (ifHead (.call f arguments))) = [f.text] := by
  have hprints := (Scope.lacking orderCalls).inner_prints
  have hreads : Reads (Scope.lacking orderCalls).Inner
      (", ".intercalate (Expr.texts arguments) ++ ")" ++ ")") :=
    ((Reads.joined hprints ", " (Expr.texts_reads arguments h) (by decide)).before hprints ")"
      (by decide)).before hprints ")" (by decide)
  obtain ⟨ts, hts, hrun⟩ := hreads
  have hsplit : (ifHead (.call f arguments)).toList = "if".toList ++ '(' :: (f.text.toList ++ '(' ::
      ((", ".intercalate (Expr.texts arguments) ++ ")" ++ ")").toList ++ [])) := by
    simp [ifHead, Expr.text]
  have hword : isWord f.text = true :=
    (by decide : ∀ w ∈ orderCalls, isWord w = true) _ hf
  have htokens : tokens (ifHead (.call f arguments)) =
      .call "if" :: .mark '(' :: .call f.text :: .mark '(' :: ts := by
    rw [tokens, hsplit, tokensFrom_call (by decide), tokensFrom_call hword, hrun [] trivial]
    simp [tokensFrom, Mode.finish]
  have hif : "if" ∉ orderCalls := by decide
  simp [htokens, hif, hf, placedIn_of_fine hts.permits.fine]

/-- The block of a side places the order of its node, once. -/
theorem placedIn_sideBlock (ctx : Context) (program : Program) (side : Side) (s : Sizing) :
    placedIn ((sideBlock ctx program side s).lines.flatMap tokens) = [side.opener s.orderType] := by
  have horders : Scope.all.HasOrders ctx.options [(side, s)] :=
    ⟨fun _ _ _ _ _ => trivial, ⟨trivial, trivial⟩, fun _ _ _ _ => trivial, fun _ _ _ => trivial,
      trivial⟩
  have hclosed : (sideBlock ctx program side s).Closed Scope.all :=
    sideBlock_closed horders (fun _ => trivial) mem_cons_self
  have htrades : (Scope.lacking orderCalls).Trades side := fun _ _ => trivial
  have hgate : placedIn (tokens (ifHead (sideGate ctx.settings side))) = [] :=
    placedIn_ifHead (sideGate_closed htrades
      (show "CountPositionsByType" ∉ orderCalls by decide) ctx.settings)
  have hcall : placedIn (tokens (ifHead (placeOrder side s ctx.options
      (stopVar side program.sidedStop) (targetExpr side program)))) =
      [side.opener s.orderType] := by
    rw [← text_orderFunction side s ctx.options]
    exact placedIn_ifHead_call (mem_orderCalls (mem_orderNames side s ctx.options))
      (placeOrder_args_closed htrades ⟨trivial, trivial⟩ (fun _ => trivial) fun _ => trivial)
  rw [sideBlock, placedIn_branch hclosed.2, hgate, nil_append, Stmt.block, Stmt.block,
    append_nil, placedIn_branch hclosed.2.1.2, hcall, placedIn_block (afterOrder_closed _)]
  rfl

theorem Mql.Expr.Closed.of_gate {e : Expr} {W : List String} (h : e.Closed Scope.all)
    (hgate : isGate e = true) : e.Closed (Scope.lacking W) := by
  unfold isGate at hgate
  split at hgate
  · exact h
  · exact h
  · cases hgate

/-- The entry places one order for each side that has one, in turn. -/
theorem placedIn_executeBlock (hgated : program.Gated)
    (hclosed : (executeBlock ctx program sizes).Closed Scope.all) :
    placedIn ((executeBlock ctx program sizes).lines.flatMap tokens) =
      sizes.map fun x => x.1.opener x.2.orderType := by
  -- a gate is a flag or the negation of one, so it calls no function
  have hgates : Expr.AllClosed (Scope.lacking orderCalls) program.gates := by
    refine Expr.allClosed_iff.mpr fun e he => Expr.Closed.of_gate ?_ (all_eq_true.mp hgated e he)
    refine Expr.closed_of_mem hclosed.1 ?_
    simp [entryGates, he]
  have hblocks (xs : List (Side × Sizing)) :
      placedIn ((Stmt.block (xs.map fun x => sideBlock ctx program x.1 x.2)).flatMap tokens) =
        xs.map fun x => x.1.opener x.2.orderType := by
    induction xs with
    | nil => rfl
    | cons x xs ih =>
      rw [map_cons, Stmt.block, flatMap_append, placedIn_append, ih, placedIn_sideBlock]
      rfl
  have hdelete (pending : Bool) : Stmt.AllClosed (Scope.lacking orderCalls) (if pending then
        [.remarked (.run (.call "DeletePendingOrders" [])) "replace stale pending orders"]
        else []) := by
    have hfunction : (Scope.lacking orderCalls).HasFunction "DeletePendingOrders" :=
      show "DeletePendingOrders" ∉ orderCalls by decide
    split
    · simp +decide [hfunction]
    · trivial
  rw [executeBlock, placedIn_branch hclosed.2, Stmt.block_append, flatMap_append,
    placedIn_append, placedIn_block (hdelete _)]
  exact congrArg₂ (· ++ ·) (placedIn_ifHead (e := .all (entryGates ctx program))
    (entryGates_closed hgates)) (hblocks sizes)

/-- Of these orders exactly one belongs to a side. -/
theorem filter_opener (hsides : (sizes.map Prod.fst).Nodup) (hmem : (side, s) ∈ sizes) :
    (sizes.map fun x => x.1.opener x.2.orderType).filter (· ∈ side.orderNames) =
      [side.opener s.orderType] := by
  have hothers (xs : List (Side × Sizing)) (hxs : side ∉ xs.map Prod.fst) :
      (xs.map fun x => x.1.opener x.2.orderType).filter (· ∈ side.orderNames) = [] := by
    refine filter_eq_nil_iff.mpr fun f hf => ?_
    obtain ⟨x, hx, rfl⟩ := mem_map.mp hf
    rw [decide_eq_true_iff, side.opener_mem_iff]
    exact fun heq => hxs (heq ▸ mem_map_of_mem hx)
  obtain ⟨before, after, rfl⟩ := append_of_mem hmem
  rw [map_append, map_cons, nodup_append] at hsides
  obtain ⟨-, hafter, hbefore⟩ := hsides
  rw [map_append, map_cons, filter_append,
    hothers before fun hin => hbefore side hin side mem_cons_self rfl,
    filter_cons_of_pos (by simpa using (side.opener_mem_iff side s.orderType).mpr rfl),
    hothers after (nodup_cons.mp hafter).1]
  rfl

section Runs

variable {r : Roles} {edges : List Edge} {known : List String} {p q : Program}

theorem Mql.Scope.idle_le_lacking : Scope.idle ≤ Scope.lacking orderCalls :=
  ⟨subset_rfl, subset_rfl, fun _ hf hmem => hf (mem_cons_of_mem _ hmem), subset_rfl,
    fun _ hnone => nomatch hnone⟩

theorem Program.Spares.places_none (h : p.Spares) :
    Stmt.AllClosed (Scope.lacking orderCalls) p.tick :=
  Stmt.AllClosed.mono Scope.idle_le_lacking p.tick (InTurn.closed_free h)

/-- Stop, target and sizes place no orders. -/
theorem Run.places_none (h : Run (riskSteps r edges known ctx) p q)
    (hp : Stmt.AllClosed (Scope.lacking orderCalls) p.tick) :
    Stmt.AllClosed (Scope.lacking orderCalls) q.tick := by
  refine h.invariant (I := fun m => Stmt.AllClosed (Scope.lacking orderCalls) m.tick)
    (fun step hstep m hm _ => ?_) hp
  rw [Program.append_tick]
  refine Stmt.allClosed_append.mpr ⟨hm, ?_⟩
  rcases (mem_riskSteps_iff.mp hstep).2 with (⟨n, -, rfl⟩ | ⟨-, rfl⟩) | (⟨n, -, rfl⟩ | ⟨-, rfl⟩) |
    ⟨side, n, -, rfl⟩
  · exact (emitStopLoss_spares n r edges known ctx).places_none
  · exact (noDistance_spares (by decide) (by decide)).places_none
  · exact (emitTakeProfit_spares n m).places_none
  · exact (noDistance_spares (by decide) (by decide)).places_none
  · rw [emitOrder]
    split
    · exact (sizingCode_places_none n side _ m).closed_free
    · trivial

end Runs

section Compiles

variable {g : Graph} {project : String} {options : Options} {c : Compiled} {n : Node}

/-- **One call for each order.** -/
theorem Graph.places_once (h : (g.compile project options).result = .ok c)
    (hn : g.orders.of side = some n) :
    ∃ s, n.sizing? = some s ∧ ∃ before gate body after, c.program.tickLines =
        before ++ "//--- Execute Entry" :: (ifHead gate :: braces body ++ after) ∧
      (before.flatMap calls).filter (· ∈ side.orderNames) = [] ∧
      ((ifHead gate :: braces body).flatMap calls).filter (· ∈ side.orderNames) =
        [side.opener s.orderType] ∧
      (after.flatMap calls).filter (· ∈ side.orderNames) = [] := by
  obtain ⟨signalled, risked, sizes, cs, cancels, hcut⟩ :=
    Graph.exists_cut h (List.ne_nil_of_mem (Orders.mem_sides hn))
  obtain ⟨s, hsize, hs⟩ := hcut.mem hn
  obtain ⟨inputs, hall⟩ := hcut.joins
  obtain ⟨entry, hentry, hexits⟩ := hcut.exits
  obtain ⟨last, hlast, hspares⟩ := hexits.spares_exits
  let before := risked.tick ++ ((entryOpening c.context g.orders cs).tick ++ [.blank])
  let after := cancels ++ last
  have hbefore : Stmt.AllClosed (Scope.lacking orderCalls) before := by
    have hblank : Stmt.AllClosed (Scope.lacking orderCalls) [.blank] := ⟨trivial, trivial⟩
    have hopening : (entryOpening c.context g.orders cs).Spares := entryOpening_spares hall
    have hsignalled := (hcut.signals.untraded (generalInputs_untraded _)).spares.places_none
    exact Stmt.allClosed_append.mpr ⟨hcut.risk.places_none hsignalled,
      Stmt.allClosed_append.mpr ⟨hopening.places_none, hblank⟩⟩
  have hafter : Stmt.AllClosed (Scope.lacking orderCalls) after :=
    Stmt.AllClosed.mono Scope.idle_le_lacking after
      (Stmt.allClosed_append.mpr ⟨cancels_idle hcut.cancels, hspares.closed_free⟩)
  have htick : c.program.tick =
      before ++ .heading "Execute Entry" :: executeBlock c.context risked sizes :: after := by
    simp [hlast, hentry, before, after]
  have hclosed : (executeBlock c.context risked sizes).Closed Scope.all :=
    Stmt.allClosed_iff.mp (Graph.closedIn_all h).tick.closed_free _ (by simp [htick])
  have hcalls (ls : List String) : (ls.flatMap calls).filter (· ∈ side.orderNames) =
      (placedIn (ls.flatMap tokens)).filter (· ∈ side.orderNames) := by
    rw [placedIn, List.filter_filter, List.filterMap_flatMap]
    refine List.filter_congr fun f _ => ?_
    by_cases hf : f ∈ side.orderNames
    · simp [hf, mem_orderCalls hf]
    · simp [hf]
  have hblock := placedIn_executeBlock hcut.gated hclosed
  obtain ⟨gate, body, hbranch⟩ : ∃ gate body,
      (executeBlock c.context risked sizes).lines = ifHead gate :: braces body := ⟨_, _, rfl⟩
  rw [hbranch] at hblock
  refine ⟨s, hsize, Stmt.block before, gate, body, Stmt.block after, ?_, ?_, ?_, ?_⟩
  · rw [Program.tickLines, htick, Stmt.block_append, Stmt.block, Stmt.block, hbranch]
    rfl
  · rw [hcalls, placedIn_block hbefore]
    rfl
  · rw [hcalls, hblock, filter_opener hcut.nodup hs]
  · rw [hcalls, placedIn_block hafter]
    rfl

end Compiles

/-- **Sides are isolated.** If no order of a side is live, no input of the compiled program begins
like those of the side, and no word of the side occurs in the code of a tick or in a helper block;
if no order is live at all, neither do the distances of the stop and of the target. If there is a
first live order of a side, the code of a tick calls one function that opens an order of the side,
which is that of the type of the order, and does so in the block that follows the heading of the
orders. -/
theorem sides_isolated {document : Json} {g : Graph} (hload : Graph.load document = .ok g)
    {project : String} {options : Options} {c : Compiled}
    (h : (compile document project options).result = .ok c) :
    (∀ side : Side, (∀ n ∈ g.liveNodes, n.kind ≠ side.kind) →
      (∀ i ∈ c.program.inputs, ¬ ("Inp" ++ side.label).toList <+: i.name.text.toList) ∧
      ∀ text ∈ c.program.tickLines ++ c.program.blocks, ∀ w ∈ side.words, w ∉ words text) ∧
    ((∀ side : Side, ∀ n ∈ g.liveNodes, n.kind ≠ side.kind) →
      ∀ text ∈ c.program.tickLines ++ c.program.blocks,
        "slPips" ∉ words text ∧ "tpPips" ∉ words text) ∧
    ∀ (side : Side) (n : Node), g.liveNodes.find? (fun n => n.kind = side.kind) = some n →
      ∃ s, n.data.payload = .trading (.order side s) ∧ ∃ before gate body after,
        c.program.tickLines =
          before ++ "//--- Execute Entry" :: (ifHead gate :: braces body ++ after) ∧
        (before.flatMap calls).filter (· ∈ side.orderNames) = [] ∧
        ((ifHead gate :: braces body).flatMap calls).filter (· ∈ side.orderNames) =
          [side.opener s.orderType] ∧
        (after.flatMap calls).filter (· ∈ side.orderNames) = [] := by
  rw [compile, hload] at h
  have hnone (side : Side) (hkind : ∀ n ∈ g.liveNodes, n.kind ≠ side.kind) :
      g.orders.of side = none := by
    rw [Graph.orders_of]
    exact List.find?_eq_none.mpr fun n hn => by simpa using hkind n hn
  refine ⟨fun side hkind => ⟨fun i hi => ?_, ?_⟩, fun hkinds text htext => ?_, fun side n hn => ?_⟩
  · exact Graph.inputs_apart h (hnone side hkind) _ (List.mem_map_of_mem hi)
  · refine Graph.words_absent h (fun w => side.mem_tradeWords) (fun other n hn => ?_) fun _ => ?_
    · have hne : other ≠ side := by
        rintro rfl
        rw [hnone other hkind] at hn
        cases hn
      exact side.words_disjoint hne
    · cases side <;> decide
  · have habsent := Graph.words_absent h (W := ["slPips", "tpPips"]) (by decide)
      (fun side n hn => absurd hn (by simp [hnone side (hkinds side)]))
      (fun hentry => ?_) text htext
    · exact ⟨habsent _ (by simp), habsent _ (by simp)⟩
    · obtain ⟨n, hn, hkind⟩ := (Graph.hasEntry_iff g).mp hentry
      exact absurd hkind (not_or.mpr ⟨hkinds .buy n hn, hkinds .sell n hn⟩)
  · rw [← Graph.orders_of] at hn
    obtain ⟨s, hs, hplaces⟩ := Graph.places_once h hn
    obtain ⟨-, t, hpayload⟩ := payload_of_order hn
    rw [Node.sizing?, hpayload] at hs
    cases hs
    exact ⟨s, hpayload, hplaces⟩

/-- A document with one order, which waits at a price above, has nothing of the other side. -/
theorem sides_isolated_stop :
    ∃ c, (compile (percentDocument "STOP") "Test" {}).result = .ok c ∧
      (∀ text ∈ c.program.tickLines ++ c.program.blocks, ∀ w ∈ Side.sell.words, w ∉ words text) ∧
      ∃ before gate body after, c.program.tickLines =
          before ++ "//--- Execute Entry" :: (ifHead gate :: braces body ++ after) ∧
        ((ifHead gate :: braces body).flatMap calls).filter (· ∈ Side.buy.orderNames) =
          ["PlaceBuyStop"] := by
  have hload : Graph.load (percentDocument "STOP") = .ok (percentGraph "STOP") := rfl
  obtain ⟨c, hc⟩ := percent_compiles "STOP" (.inr rfl)
  have hcompile : (compile (percentDocument "STOP") "Test" {}).result = .ok c := by
    rw [compile, hload]
    exact hc
  obtain ⟨habsent, -, hplaces⟩ := sides_isolated hload hcompile
  obtain ⟨n, hn, hstop⟩ : ∃ n, (percentGraph "STOP").liveNodes.find?
      (fun n => n.kind = Side.buy.kind) = some n ∧
        ∀ s, n.data.payload = .trading (.order .buy s) → s.orderType = .stop :=
    ⟨_, rfl, by rintro s ⟨⟩; rfl⟩
  obtain ⟨s, hs, before, gate, body, after, hlines, -, hcall, -⟩ := hplaces .buy n hn
  rw [hstop s hs] at hcall
  exact ⟨c, hcompile, (habsent .sell (by decide)).2, before, gate, body, after, hlines, hcall⟩

end TradeGraph

import Mathlib.Data.List.Induction
import TradeGraph.Compile

/-!
# Runs of a compile

Programs under construction form a monoid up to the empty program, so what steps one after the other
have added can be read as a run: a chain of programs, each the one before it with what the next step
adds. What a compile gives is the end of such a run.
-/

namespace TradeGraph

open List

variable {ctx : Context} {edges : List Edge} {hs : List Helper} {ss : List Step}
    {known : List String} {p q : Program} {r : Roles} {s : Step}

/-! ## Joining programs -/

attribute [ext] Program

namespace Program

@[simp] theorem append_inputs (p q : Program) : (p ++ q).inputs = p.inputs ++ q.inputs := rfl

@[simp] theorem append_globals (p q : Program) : (p ++ q).globals = p.globals ++ q.globals := rfl

@[simp] theorem append_init (p q : Program) : (p ++ q).init = p.init ++ q.init := rfl

@[simp] theorem append_deinit (p q : Program) : (p ++ q).deinit = p.deinit ++ q.deinit := rfl

@[simp] theorem append_tick (p q : Program) : (p ++ q).tick = p.tick ++ q.tick := rfl

@[simp] theorem append_helpers (p q : Program) :
    (p ++ q).helpers = q.helpers.foldl joinHelper p.helpers := rfl

@[simp] theorem append_beforeLoop (p q : Program) :
    (p ++ q).beforeLoop = p.beforeLoop ++ q.beforeLoop := rfl

@[simp] theorem append_rules (p q : Program) : (p ++ q).rules = p.rules ++ q.rules := rfl

@[simp] theorem append_gates (p q : Program) : (p ++ q).gates = p.gates ++ q.gates := rfl

@[simp] theorem append_sidedStop (p q : Program) :
    (p ++ q).sidedStop = (p.sidedStop || q.sidedStop) := rfl

@[simp] theorem append_stopMethod (p q : Program) :
    (p ++ q).stopMethod = (q.stopMethod <|> p.stopMethod) := rfl

@[simp] theorem append_targetMethod (p q : Program) :
    (p ++ q).targetMethod = (q.targetMethod <|> p.targetMethod) := rfl

@[simp] theorem append_bars (p q : Program) : (p ++ q).bars = max p.bars q.bars := rfl

/-- Is there a helper block with this key? -/
def HasKey (hs : List Helper) (key : String) : Prop :=
  ∃ h ∈ hs, h.key = key

theorem joinHelper_of_hasKey {h : Helper} (hk : HasKey hs h.key) : joinHelper hs h = hs := by
  obtain ⟨k, hk, hkey⟩ := hk
  exact if_pos (any_eq_true.mpr ⟨k, hk, by rw [hkey]; exact beq_self_eq_true _⟩)

theorem joinHelper_of_not_hasKey {h : Helper} (hk : ¬ HasKey hs h.key) :
    joinHelper hs h = hs ++ [h] := by
  refine if_neg fun hany => hk ?_
  obtain ⟨k, hmem, hkey⟩ := any_eq_true.mp hany
  exact ⟨k, hmem, beq_iff_eq.mp hkey⟩

theorem mem_foldl_joinHelper_left {k : Helper} (hk : k ∈ hs) :
    ∀ new : List Helper, k ∈ new.foldl joinHelper hs := by
  intro new
  induction new generalizing hs with
  | nil => exact hk
  | cons h new ih =>
    refine ih ?_
    by_cases hkey : HasKey hs h.key
    · rwa [joinHelper_of_hasKey hkey]
    · rw [joinHelper_of_not_hasKey hkey]
      exact mem_append_left _ hk

theorem mem_of_mem_joinHelpers {k : Helper} :
    ∀ new : List Helper, k ∈ new.foldl joinHelper hs → k ∈ hs ∨ k ∈ new := by
  intro new
  induction new generalizing hs with
  | nil => exact .inl
  | cons h new ih =>
    intro hk
    rcases ih hk with hk | hk
    · by_cases hkey : HasKey hs h.key
      · rw [joinHelper_of_hasKey hkey] at hk
        exact .inl hk
      · rw [joinHelper_of_not_hasKey hkey] at hk
        rcases mem_append.mp hk with hk | hk
        · exact .inl hk
        · rw [mem_singleton] at hk
          exact .inr (hk ▸ mem_cons_self)
    · exact .inr (mem_cons_of_mem _ hk)

theorem hasKey_foldl_joinHelper {h : Helper} :
    ∀ {new : List Helper} {hs : List Helper}, h ∈ new → HasKey (new.foldl joinHelper hs) h.key
  | k :: new, hs, hmem => by
    rcases mem_cons.mp hmem with rfl | hmem
    · by_cases hkey : HasKey hs h.key
      · obtain ⟨k, hk, hkey'⟩ := hkey
        rw [foldl_cons, joinHelper_of_hasKey ⟨k, hk, hkey'⟩]
        exact ⟨k, mem_foldl_joinHelper_left hk new, hkey'⟩
      · rw [foldl_cons, joinHelper_of_not_hasKey hkey]
        exact ⟨h, mem_foldl_joinHelper_left (mem_append_right _ mem_cons_self) new, rfl⟩
    · rw [foldl_cons]
      exact hasKey_foldl_joinHelper hmem

theorem foldl_joinHelper_foldl (hs new more : List Helper) :
    more.foldl joinHelper (new.foldl joinHelper hs) =
      (more.foldl joinHelper new).foldl joinHelper hs := by
  induction more using List.reverseRecOn with
  | nil => rfl
  | append_singleton more h ih =>
    rw [foldl_append, foldl_append, ih]
    show joinHelper ((more.foldl joinHelper new).foldl joinHelper hs) h =
      (joinHelper (more.foldl joinHelper new) h).foldl joinHelper hs
    by_cases hkey : HasKey (more.foldl joinHelper new) h.key
    · obtain ⟨k, hk, hkey'⟩ := hkey
      have hthere : HasKey ((more.foldl joinHelper new).foldl joinHelper hs) h.key :=
        hkey' ▸ hasKey_foldl_joinHelper hk
      rw [joinHelper_of_hasKey ⟨k, hk, hkey'⟩, joinHelper_of_hasKey hthere]
    · rw [joinHelper_of_not_hasKey hkey, foldl_append]
      rfl

theorem append_assoc (p q r : Program) : p ++ q ++ r = p ++ (q ++ r) := by
  refine Program.ext ?_ ?_ ?_ ?_ ?_ ?_ ?_ ?_ ?_ ?_ ?_ ?_ ?_
  · exact List.append_assoc ..
  · exact List.append_assoc ..
  · exact List.append_assoc ..
  · exact List.append_assoc ..
  · exact List.append_assoc ..
  · exact foldl_joinHelper_foldl ..
  · exact List.append_assoc ..
  · exact List.append_assoc ..
  · exact List.append_assoc ..
  · exact Bool.or_assoc ..
  · show (r.stopMethod <|> (q.stopMethod <|> p.stopMethod)) =
      ((r.stopMethod <|> q.stopMethod) <|> p.stopMethod)
    cases r.stopMethod <;> rfl
  · show (r.targetMethod <|> (q.targetMethod <|> p.targetMethod)) =
      ((r.targetMethod <|> q.targetMethod) <|> p.targetMethod)
    cases r.targetMethod <;> rfl
  · exact Nat.max_assoc ..

theorem append_empty (p : Program) : p ++ {} = p := by
  refine Program.ext ?_ ?_ ?_ ?_ ?_ rfl ?_ ?_ ?_ ?_ ?_ ?_ ?_
  · exact append_nil _
  · exact append_nil _
  · exact append_nil _
  · exact append_nil _
  · exact append_nil _
  · exact append_nil _
  · exact append_nil _
  · exact append_nil _
  · exact Bool.or_false _
  · rfl
  · rfl
  · exact Nat.max_zero _

end Program

/-! ## Runs -/

/-- Steps one after the other, none of which fails, lead from one program to another. -/
inductive Run : List Step → Program → Program → Prop where
  | done {p : Program} : Run [] p p
  | step {s : Step} {ss : List Step} {p q : Program} :
      (s p).fault = none → Run ss (p ++ (s p).code) q → Run (s :: ss) p q

namespace Run

theorem of_inOrder : ∀ {ss : List Step} {p : Program}, (Emission.inOrder ss p).fault = none →
    Run ss p (p ++ (Emission.inOrder ss p).code)
  | [], p, _ => by
    rw [Emission.inOrder, Program.append_empty]
    exact .done
  | s :: ss, p, h => by
    rw [Emission.inOrder] at h ⊢
    cases hs : (s p).fault with
    | some f =>
      simp only [hs] at h
      cases h
    | none =>
      simp only [hs] at h ⊢
      rw [← Program.append_assoc]
      exact .step hs (of_inOrder h)

theorem append_iff {ts : List Step} {r : Program} :
    Run (ss ++ ts) p r ↔ ∃ q, Run ss p q ∧ Run ts q r := by
  constructor
  · intro h
    induction ss generalizing p with
    | nil => exact ⟨p, .done, h⟩
    | cons s ss ih =>
      cases h with
      | step hs h =>
        obtain ⟨q, hq, hr⟩ := ih h
        exact ⟨q, .step hs hq, hr⟩
  · rintro ⟨q, hq, hr⟩
    induction hq with
    | done => exact hr
    | step hs _ ih => exact .step hs (ih hr)

theorem cons_iff : Run (s :: ss) p q ↔ ∃ m, Run [s] p m ∧ Run ss m q := by
  rw [← append_iff, singleton_append]

theorem eq_append (h : Run [s] p q) : q = p ++ (s p).code := by
  cases h with
  | step _ hdone =>
    cases hdone
    rfl

theorem fault (h : Run [s] p q) : (s p).fault = none := by
  cases h with
  | step hfault _ => exact hfault

theorem invariant {I : Program → Prop} (h : Run ss p q)
    (hstep : ∀ s ∈ ss, ∀ m, I m → (s m).fault = none → I (m ++ (s m).code)) (hp : I p) : I q := by
  induction h with
  | done => exact hp
  | @step s ss p q hs _ ih =>
    exact ih (fun t ht => hstep t (mem_cons_of_mem _ ht)) (hstep s mem_cons_self p hp hs)

theorem exists_append (h : Run ss p q) : ∃ r, q = p ++ r := by
  induction h with
  | done => exact ⟨{}, (Program.append_empty _).symm⟩
  | @step s ss p q _ _ ih =>
    obtain ⟨r, rfl⟩ := ih
    exact ⟨(s p).code ++ r, Program.append_assoc ..⟩

/-- Every step of a run was taken at some program, and what it added is in the result. -/
theorem exists_of_mem (h : Run ss p q) (hs : s ∈ ss) :
    ∃ m r, (s m).fault = none ∧ q = m ++ (s m).code ++ r := by
  induction h with
  | done => cases hs
  | @step t ts p q ht hrun ih =>
    rcases mem_cons.mp hs with rfl | hs
    · obtain ⟨r, rfl⟩ := hrun.exists_append
      exact ⟨p, r, ht, rfl⟩
    · exact ih hs

end Run

/-- The helper blocks that steps ask for, in order and as often as they do. -/
def asked : List Step → Program → List Helper
  | [], _ => []
  | s :: ss, p => (s p).code.helpers ++ asked ss (p ++ (s p).code)

theorem mem_asked {h : Helper} {ss : List Step} {p : Program} (hh : h ∈ asked ss p) :
    ∃ s ∈ ss, ∃ m, h ∈ (s m).code.helpers := by
  induction ss generalizing p with
  | nil => cases hh
  | cons s ss ih =>
    rcases mem_append.mp hh with hh | hh
    · exact ⟨s, mem_cons_self, p, hh⟩
    · obtain ⟨t, ht, hmem⟩ := ih hh
      exact ⟨t, mem_cons_of_mem _ ht, hmem⟩

namespace Run

theorem asked_append (h : Run ss p q) (ts : List Step) :
    asked (ss ++ ts) p = asked ss p ++ asked ts q := by
  induction h with
  | done => rfl
  | step _ _ ih => rw [cons_append, asked, ih, asked, List.append_assoc]

/-- **The blocks of a run** are those that its steps ask for, each key once. -/
theorem helpers_eq (h : Run ss p q) :
    q.helpers = (asked ss p).foldl Program.joinHelper p.helpers := by
  induction h with
  | done => rfl
  | step _ _ ih => rw [ih, asked, foldl_append, Program.append_helpers]

end Run

/-! ## Compiles -/

/-- The steps of a compile after the inputs that every program has. -/
def laterSteps (r : Roles) (edges : List Edge) (known : List String) (ctx : Context) : List Step :=
  (plan r edges known ctx).tail

theorem plan_eq_cons (r : Roles) (edges : List Edge) (known : List String) (ctx : Context) :
    plan r edges known ctx =
      always { code := generalInputs ctx.settings } :: laterSteps r edges known ctx := rfl

def Orders.of (o : Orders) : Side → Option Node
  | .buy => o.buy
  | .sell => o.sell

/-- The steps of a plan before the rules for open positions, each with the node that it is for. -/
inductive Planned (r : Roles) (edges : List Edge) (known : List String)
    (ctx : Context) : Step → Prop
  | spread : Planned r edges known ctx (always (emitSpread r.spread))
  | timing : Planned r edges known ctx (always (emitTiming r.timing))
  | closeTimeGate : Planned r edges known ctx (emitCloseTimeGate r.timeExit ctx)
  | indicator {n : Node} {i : Nat} :
      r.indicators[i]? = some n → Planned r edges known ctx (always (emitIndicator n i))
  | priceAction {n : Node} {i : Nat} :
      r.priceAction[i]? = some n → Planned r edges known ctx (always (emitPriceAction n i))
  | stopLoss {n : Node} : r.hasEntry = true → r.stopLoss.head? = some n →
      Planned r edges known ctx (always (emitStopLoss n r.indicators r.priceAction edges known ctx))
  | noStop : r.hasEntry = true → r.stopLoss.head? = none →
      Planned r edges known ctx (always { code := noDistance "slPips" "Stop Loss" })
  | takeProfit {n : Node} : r.hasEntry = true → r.takeProfit.head? = some n →
      Planned r edges known ctx (emitTakeProfit n)
  | noTarget : r.hasEntry = true → r.takeProfit.head? = none →
      Planned r edges known ctx (always { code := noDistance "tpPips" "Take Profit" })
  | order {side : Side} {n : Node} :
      r.orders.of side = some n → Planned r edges known ctx (emitOrder side n)
  | entry : Planned r edges known ctx (emitEntry r.indicators r.priceAction r.orders ctx)
  | closeCondition {n : Node} {i : Nat} : r.closeCondition[i]? = some n →
      Planned r edges known ctx (always (emitCloseCondition n i r.indicators r.priceAction edges))
  | timeExit {n : Node} {i : Nat} :
      r.timeExit[i]? = some n → Planned r edges known ctx (emitTimeExit n i ctx)

theorem hasEntry_of_order {side : Side} {n : Node} (h : r.orders.of side = some n) :
    r.hasEntry = true := by
  cases side with
  | buy =>
    obtain ⟨ns, hns⟩ := head?_eq_some_iff.mp h
    rw [Roles.hasEntry, hns]
    rfl
  | sell =>
    obtain ⟨ns, hns⟩ := head?_eq_some_iff.mp h
    rw [Roles.hasEntry, hns]
    exact Bool.or_true _

theorem mem_map_zipIdx {α : Type} {f : Node → Nat → α} {ns : List Node} {a : α} :
    a ∈ ns.zipIdx.map (fun (n, i) => f n i) ↔ ∃ n i, ns[i]? = some n ∧ f n i = a := by
  simp only [mem_map, Prod.exists, mem_zipIdx_iff_getElem?]

theorem mem_orderSteps_iff {o : Orders} :
    s ∈ orderSteps o ↔ ∃ side n, o.of side = some n ∧ s = emitOrder side n := by
  simp only [orderSteps, mem_append, mem_map, Option.mem_toList]
  constructor
  · rintro (⟨n, hn, rfl⟩ | ⟨n, hn, rfl⟩)
    · exact ⟨.buy, n, hn, rfl⟩
    · exact ⟨.sell, n, hn, rfl⟩
  · rintro ⟨side, n, hn, rfl⟩
    cases side with
    | buy => exact .inl ⟨n, hn, rfl⟩
    | sell => exact .inr ⟨n, hn, rfl⟩

/-- The steps for the stop, the target and the sizes, given that there is an order. -/
theorem mem_riskSteps_iff :
    s ∈ riskSteps r edges known ctx ↔ r.hasEntry = true ∧
      (((∃ n, r.stopLoss.head? = some n ∧
            s = always (emitStopLoss n r.indicators r.priceAction edges known ctx)) ∨
          (r.stopLoss.head? = none ∧ s = always { code := noDistance "slPips" "Stop Loss" })) ∨
        ((∃ n, r.takeProfit.head? = some n ∧ s = emitTakeProfit n) ∨
          (r.takeProfit.head? = none ∧ s = always { code := noDistance "tpPips" "Take Profit" })) ∨
        ∃ side n, r.orders.of side = some n ∧ s = emitOrder side n) := by
  rw [riskSteps]
  cases r.hasEntry with
  | false => simp
  | true =>
    simp only [Bool.not_true, Bool.false_eq_true, if_false, true_and, mem_cons, stopStep,
      targetStep, mem_orderSteps_iff]
    cases r.stopLoss.head? <;> cases r.takeProfit.head? <;> simp

/-- A run of the steps for the stop, the target and the sizes, cut between them. -/
theorem Run.risk_cases {p q : Program} (h : Run (riskSteps r edges known ctx) p q) :
    r.hasEntry = false ∧ q = p ∨ r.hasEntry = true ∧ ∃ stopped measured,
      Run [stopStep r edges known ctx] p stopped ∧ Run [targetStep r] stopped measured ∧
        Run (orderSteps r.orders) measured q := by
  rw [riskSteps] at h
  cases hentry : r.hasEntry with
  | false =>
    rw [hentry] at h
    cases h
    exact .inl ⟨rfl, rfl⟩
  | true =>
    rw [hentry, if_neg (by decide)] at h
    obtain ⟨stopped, hstop, h⟩ := Run.cons_iff.mp h
    obtain ⟨measured, htarget, horders⟩ := Run.cons_iff.mp h
    exact .inr ⟨rfl, stopped, measured, hstop, htarget, horders⟩

/-- The steps of a compile before the rules for open positions. -/
def earlierSteps (r : Roles) (edges : List Edge) (known : List String)
    (ctx : Context) : List Step :=
  [always (emitSpread r.spread), always (emitTiming r.timing), emitCloseTimeGate r.timeExit ctx] ++
    r.indicators.zipIdx.map (fun (n, i) => always (emitIndicator n i)) ++
    r.priceAction.zipIdx.map (fun (n, i) => always (emitPriceAction n i)) ++
    riskSteps r edges known ctx ++ [emitEntry r.indicators r.priceAction r.orders ctx] ++
    r.closeCondition.zipIdx.map (fun (n, i) =>
      always (emitCloseCondition n i r.indicators r.priceAction edges)) ++
    r.timeExit.zipIdx.map (fun (n, i) => emitTimeExit n i ctx)

theorem laterSteps_eq (r : Roles) (edges : List Edge) (known : List String) (ctx : Context) :
    laterSteps r edges known ctx =
      earlierSteps r edges known ctx ++ r.management.map emitManagement ++ [emitPass] :=
  rfl

/-- The steps up to the price action nodes. -/
def signalSteps (r : Roles) (ctx : Context) : List Step :=
  [always (emitSpread r.spread), always (emitTiming r.timing), emitCloseTimeGate r.timeExit ctx] ++
    (r.indicators.zipIdx.map (fun (n, i) => always (emitIndicator n i)) ++
      r.priceAction.zipIdx.map (fun (n, i) => always (emitPriceAction n i)))

theorem mem_signalSteps_iff : s ∈ signalSteps r ctx ↔
    (s = always (emitSpread r.spread) ∨ s = always (emitTiming r.timing) ∨
      s = emitCloseTimeGate r.timeExit ctx) ∨
      (∃ n i, r.indicators[i]? = some n ∧ always (emitIndicator n i) = s) ∨
      ∃ n i, r.priceAction[i]? = some n ∧ always (emitPriceAction n i) = s := by
  simp only [signalSteps, mem_append, mem_cons, not_mem_nil, or_false,
    mem_map_zipIdx (f := fun n i => always (emitIndicator n i)),
    mem_map_zipIdx (f := fun n i => always (emitPriceAction n i))]

/-- The steps after the entry. -/
def exitSteps (r : Roles) (edges : List Edge) (ctx : Context) : List Step :=
  r.closeCondition.zipIdx.map (fun (n, i) =>
      always (emitCloseCondition n i r.indicators r.priceAction edges)) ++
    (r.timeExit.zipIdx.map (fun (n, i) => emitTimeExit n i ctx) ++
      (r.management.map emitManagement ++ [emitPass]))

theorem mem_exitSteps_iff : s ∈ exitSteps r edges ctx ↔ (∃ n i, r.closeCondition[i]? = some n ∧
      always (emitCloseCondition n i r.indicators r.priceAction edges) = s) ∨
      (∃ n i, r.timeExit[i]? = some n ∧ emitTimeExit n i ctx = s) ∨
      (∃ n ∈ r.management, emitManagement n = s) ∨ s = emitPass := by
  simp only [exitSteps, mem_append, mem_map, mem_singleton,
    mem_map_zipIdx (f := fun n i =>
      always (emitCloseCondition n i r.indicators r.priceAction edges)),
    mem_map_zipIdx (f := fun n i => emitTimeExit n i ctx)]

/-- A run of all steps, cut before those for the stop, the target and the sizes and before the
entry. -/
theorem Run.around_entry {p q : Program} (h : Run (laterSteps r edges known ctx) p q) :
    ∃ signalled risked, Run (signalSteps r ctx) p signalled ∧
      Run (riskSteps r edges known ctx) signalled risked ∧
      Run (emitEntry r.indicators r.priceAction r.orders ctx ::
        exitSteps r edges ctx) risked q := by
  have hsteps : laterSteps r edges known ctx = signalSteps r ctx ++ (riskSteps r edges known ctx ++
      (emitEntry r.indicators r.priceAction r.orders ctx :: exitSteps r edges ctx)) := by
    simp [laterSteps_eq, earlierSteps, signalSteps, exitSteps]
  rw [hsteps] at h
  obtain ⟨signalled, hsignals, h⟩ := Run.append_iff.mp h
  obtain ⟨risked, hrisk, hentry⟩ := Run.append_iff.mp h
  exact ⟨signalled, risked, hsignals, hrisk, hentry⟩

theorem mem_earlierSteps_iff :
    s ∈ earlierSteps r edges known ctx ↔ Planned r edges known ctx s := by
  rw [earlierSteps]
  simp only [mem_append, mem_cons, not_mem_nil, or_false,
    mem_map_zipIdx (f := fun n i => always (emitIndicator n i)),
    mem_map_zipIdx (f := fun n i => always (emitPriceAction n i)),
    mem_map_zipIdx (f := fun n i =>
      always (emitCloseCondition n i r.indicators r.priceAction edges)),
    mem_map_zipIdx (f := fun n i => emitTimeExit n i ctx), mem_riskSteps_iff]
  constructor
  · rintro (((((((rfl | rfl | rfl) | ⟨n, i, hn, rfl⟩) | ⟨n, i, hn, rfl⟩) | ⟨hentry, hrisk⟩) | rfl) |
      ⟨n, i, hn, rfl⟩) | ⟨n, i, hn, rfl⟩)
    · exact .spread
    · exact .timing
    · exact .closeTimeGate
    · exact .indicator hn
    · exact .priceAction hn
    · rcases hrisk with (⟨n, hn, rfl⟩ | ⟨hn, rfl⟩) | (⟨n, hn, rfl⟩ | ⟨hn, rfl⟩) | ⟨side, n, hn, rfl⟩
      · exact .stopLoss hentry hn
      · exact .noStop hentry hn
      · exact .takeProfit hentry hn
      · exact .noTarget hentry hn
      · exact .order hn
    · exact .entry
    · exact .closeCondition hn
    · exact .timeExit hn
  · intro h
    cases h with
    | spread | timing | closeTimeGate | entry => simp
    | order hn => grind [hasEntry_of_order]
    | indicator hn | priceAction hn | closeCondition hn | timeExit hn => grind
    | stopLoss hentry hn | noStop hentry hn | takeProfit hentry hn | noTarget hentry hn => grind

/-- The steps of a plan are those that are listed, the rules and the pass. -/
theorem mem_laterSteps_iff : s ∈ laterSteps r edges known ctx ↔
      Planned r edges known ctx s ∨ (∃ n ∈ r.management, emitManagement n = s) ∨ s = emitPass := by
  rw [laterSteps_eq, List.append_assoc, mem_append, mem_append, mem_earlierSteps_iff,
    mem_map, mem_singleton]

/-- A graph before expansion gives these ids, and after it these. -/
def Graph.knownIds (g : Graph) : List String :=
  g.nodes.map Node.id ++ (expand g.nodes g.edges).nodes.map Node.id

def Graph.liveNodes (g : Graph) : List Node :=
  keepLive (expand g.nodes g.edges).nodes (expand g.nodes g.edges).edges

/-- The emission of a compile, given the nodes by role. -/
def Graph.emission (g : Graph) (r : Roles) (ctx : Context) : Emission :=
  Emission.inOrder (plan r (expand g.nodes g.edges).edges g.knownIds ctx) {}

/-- How a compile ends: at the first node that has no role, at the first step that fails, or with a
program. -/
theorem Graph.compile_result (g : Graph) (project : String) (options : Options) :
    (g.compile project options).result =
      match Roles.sort g.liveNodes with
      | .error f => .error f
      | .ok r =>
        let ctx := Context.build project g.settings options r.timing
        match (g.emission r ctx).fault with
        | some f => .error f
        | none => .ok { program := (g.emission r ctx).code, context := ctx } := by
  rw [Graph.compile]
  show Compilation.result (match Roles.sort g.liveNodes with
    | .error _ => _
    | .ok _ => _) = _
  cases Roles.sort g.liveNodes with
  | error f => rfl
  | ok r =>
    show Compilation.result (match (g.emission r _).fault with
      | some _ => _
      | none => _) = _
    simp only
    cases (g.emission r (Context.build project g.settings options r.timing)).fault <;> rfl

/-- An emission that does not fail is a run from the inputs that every program has. -/
theorem Graph.run_of_emission {g : Graph} (h : (g.emission r ctx).fault = none) :
    Run (laterSteps r (expand g.nodes g.edges).edges g.knownIds ctx)
      (generalInputs ctx.settings) (g.emission r ctx).code := by
  rw [Graph.emission, plan_eq_cons] at h ⊢
  exact Run.of_inOrder (p := generalInputs ctx.settings) h

/-- **A compile that succeeds is a run**: its program is the end of a run of the planned steps, from
the inputs that every program has. -/
theorem Graph.run_of_compile {g : Graph} {project : String} {options : Options} {c : Compiled}
    (h : (g.compile project options).result = .ok c) :
    ∃ r, Roles.sort g.liveNodes = .ok r ∧
      c.context = Context.build project g.settings options r.timing ∧
      Run (laterSteps r (expand g.nodes g.edges).edges g.knownIds c.context)
        (generalInputs c.context.settings) c.program := by
  rw [Graph.compile_result] at h
  cases hsort : Roles.sort g.liveNodes with
  | error f => rw [hsort] at h; cases h
  | ok r =>
    rw [hsort] at h
    simp only at h
    cases hfault : (g.emission r (Context.build project g.settings options r.timing)).fault with
    | some f => rw [hfault] at h; cases h
    | none =>
      rw [hfault] at h
      cases h
      exact ⟨r, rfl, rfl, Graph.run_of_emission hfault⟩

/-- What is known of the program of a compile, if it succeeds, can be said of a program. -/
theorem Compilation.exists_of_map {α : Type} {x : Compilation} {f : Compiled → α} {a : α}
    (h : x.result.toOption.map f = some a) : ∃ c, x.result = .ok c ∧ f c = a := by
  cases hresult : x.result with
  | error e =>
    rw [hresult] at h
    cases h
  | ok c =>
    rw [hresult] at h
    exact ⟨c, rfl, Option.some.inj h⟩

end TradeGraph

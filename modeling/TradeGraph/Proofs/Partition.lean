import TradeGraph.Proofs.Failure

/-!
# Roles partition the nodes

Sorting by role loses and repeats nothing and keeps the order inside a role. The classes are said by
kind, in a table of their own. A loop that adds node after node to its role sorts the same way.
-/

namespace TradeGraph

open List

namespace Role

def kinds : Role → List Kind
  | .timing => [.always, .tradingSession, .customTimes]
  | .spread => [.maxSpread]
  | .indicator => [.movingAverage, .rsi, .macd, .bollingerBands, .atr, .adx, .stochastic, .cci]
  | .priceAction => [.rangeBreakout, .candlestickPattern, .supportResistance]
  | .buy => [.placeBuy]
  | .sell => [.placeSell]
  | .stopLoss => [.stopLoss]
  | .takeProfit => [.takeProfit]
  | .closeCondition => [.closeCondition]
  | .timeExit => [.timeExit]
  | .management =>
    [.breakevenStop, .trailingStop, .partialClose, .lockProfit, .multiLevelTarget]

/-- All roles, in the order of the program. -/
def all : List Role :=
  [.timing, .spread, .indicator, .priceAction, .buy, .sell, .stopLoss, .takeProfit, .closeCondition,
    .timeExit, .management]

theorem mem_all (r : Role) : r ∈ all := by
  cases r <;> decide

end Role

theorem Payload.role?_eq_some_iff {q : Payload} {role : Role} :
    q.role? = some role ↔ q.kind ∈ role.kinds := by
  cases role <;> fun_cases Payload.kind q <;> simp [Payload.role?, Role.kinds]

def Roles.of (r : Roles) : Role → List Node
  | .timing => r.timing
  | .spread => r.spread
  | .indicator => r.indicators
  | .priceAction => r.priceAction
  | .buy => r.buy
  | .sell => r.sell
  | .stopLoss => r.stopLoss
  | .takeProfit => r.takeProfit
  | .closeCondition => r.closeCondition
  | .timeExit => r.timeExit
  | .management => r.management

theorem Roles.of_ofNodes (nodes : List Node) (role : Role) :
    (Roles.ofNodes nodes).of role = withRole role nodes := by
  cases role <;> rfl

theorem withRole_eq_filter (role : Role) (nodes : List Node) :
    withRole role nodes = nodes.filter fun n => n.kind ∈ role.kinds :=
  filter_congr fun n _ => by
    rw [Bool.eq_iff_iff, beq_iff_eq, decide_eq_true_iff, Payload.role?_eq_some_iff]
    rfl

theorem flatMap_withRole_cons_perm {n : Node} {role : Role} (h : n.data.payload.role? = some role)
    (nodes : List Node) :
    (Role.all.flatMap (withRole · (n :: nodes))).Perm
      (n :: Role.all.flatMap (withRole · nodes)) := by
  have hother {r : Role} (hr : r ≠ role) : withRole r (n :: nodes) = withRole r nodes := by
    rw [withRole, filter_cons_of_neg (by simpa [h] using hr.symm)]
    rfl
  have hown : withRole role (n :: nodes) = n :: withRole role nodes :=
    filter_cons_of_pos (by rw [h, beq_self_eq_true])
  obtain ⟨as, bs, hall⟩ := append_of_mem role.mem_all
  have hnodup : (as ++ role :: bs).Nodup := hall ▸ by decide
  have has : ∀ r ∈ as, r ≠ role := fun r hr heq =>
    disjoint_of_nodup_append hnodup (heq ▸ hr) mem_cons_self
  have hbs : ∀ r ∈ bs, r ≠ role := fun r hr heq =>
    (nodup_cons.mp hnodup.of_append_right).1 (heq ▸ hr)
  rw [hall, flatMap_append, flatMap_append, flatMap_cons, flatMap_cons, hown,
    flatMap_congr fun r hr => hother (has r hr),
    flatMap_congr fun r hr => hother (hbs r hr)]
  exact perm_middle

/-- The roles together hold every node that has one, as often as it is there. -/
theorem flatMap_withRole_perm {nodes : List Node}
    (h : ∀ n ∈ nodes, ∃ role, n.data.payload.role? = some role) :
    (Role.all.flatMap (withRole · nodes)).Perm nodes := by
  induction nodes with
  | nil => exact .refl _
  | cons n nodes ih =>
    rw [forall_mem_cons] at h
    obtain ⟨⟨role, hrole⟩, hrest⟩ := h
    exact (flatMap_withRole_cons_perm hrole nodes).trans ((ih hrest).cons n)

theorem Roles.sort_eq_ok {nodes : List Node} (h : ∀ n ∈ nodes, n.isComposite = false) :
    (∀ n ∈ nodes, ∃ role, n.data.payload.role? = some role) ∧
      Roles.sort nodes = .ok (Roles.ofNodes nodes) := by
  have hsome : ∀ n ∈ nodes, n.data.payload.role? ≠ none := fun n hn hnone =>
    beq_eq_false_iff_ne.mp (h n hn) (Payload.role?_eq_none hnone)
  refine ⟨fun n hn => Option.ne_none_iff_exists'.mp (hsome n hn), ?_⟩
  rw [Roles.sort, find?_eq_none.mpr fun n hn => by simpa using hsome n hn]

/-- **Sorting by role is a stable partition.** The live nodes of every graph can be sorted. So can
nodes of which none is composite: the roles together hold them all, each role holds those of its
kinds in their order, and two lists one after the other are sorted role by role. -/
theorem Roles.sort_partition :
    (∀ g : Graph, ∃ r,
      Roles.sort (keepLive (expand g.nodes g.edges).nodes (expand g.nodes g.edges).edges) = .ok r) ∧
    (∀ nodes : List Node, (∀ n ∈ nodes, n.isComposite = false) →
      ∃ r, Roles.sort nodes = .ok r ∧ (Role.all.flatMap r.of).Perm nodes ∧
        ∀ role, r.of role = nodes.filter fun n => n.kind ∈ role.kinds) ∧
    ∀ xs ys : List Node, (∀ n ∈ xs ++ ys, n.isComposite = false) →
      ∃ a b c, Roles.sort xs = .ok a ∧ Roles.sort ys = .ok b ∧ Roles.sort (xs ++ ys) = .ok c ∧
        ∀ role, c.of role = a.of role ++ b.of role := by
  refine ⟨fun g => ⟨_, g.sort_liveNodes⟩, fun nodes h => ?_, fun xs ys h => ?_⟩
  · obtain ⟨hroles, hsort⟩ := Roles.sort_eq_ok h
    refine ⟨_, hsort, ?_, fun role => ?_⟩
    · rw [flatMap_congr fun role _ => Roles.of_ofNodes nodes role]
      exact flatMap_withRole_perm hroles
    · rw [Roles.of_ofNodes, withRole_eq_filter]
  · refine ⟨_, _, _, (Roles.sort_eq_ok fun n hn => h n (mem_append_left _ hn)).2,
      (Roles.sort_eq_ok fun n hn => h n (mem_append_right _ hn)).2, (Roles.sort_eq_ok h).2,
      fun role => ?_⟩
    simp only [Roles.of_ofNodes, withRole, filter_append]

/-- Two signals, with an order between them. -/
def mixedDocument : Json :=
  .obj [("nodes", .arr [.node "b" "rsi", .node "buy" "place-buy", .node "a" "macd"])]

theorem Roles.sort_partition_mixed :
    ∃ r, Roles.sort mixedDocument.graph.nodes = .ok r ∧
      (Role.all.flatMap r.of).Perm mixedDocument.graph.nodes ∧
      (r.of .indicator).map Node.id = ["b", "a"] := by
  obtain ⟨r, hsort, hperm, hroles⟩ :=
    Roles.sort_partition.2.1 mixedDocument.graph.nodes (by decide)
  refine ⟨r, hsort, hperm, ?_⟩
  rw [hroles]
  decide

/-! ## Node after node -/

/-- The roles with one more node at the end of one of them. -/
def Roles.add (r : Roles) (n : Node) : Role → Roles
  | .timing => { r with timing := r.timing ++ [n] }
  | .spread => { r with spread := r.spread ++ [n] }
  | .indicator => { r with indicators := r.indicators ++ [n] }
  | .priceAction => { r with priceAction := r.priceAction ++ [n] }
  | .buy => { r with buy := r.buy ++ [n] }
  | .sell => { r with sell := r.sell ++ [n] }
  | .stopLoss => { r with stopLoss := r.stopLoss ++ [n] }
  | .takeProfit => { r with takeProfit := r.takeProfit ++ [n] }
  | .closeCondition => { r with closeCondition := r.closeCondition ++ [n] }
  | .timeExit => { r with timeExit := r.timeExit ++ [n] }
  | .management => { r with management := r.management ++ [n] }

/-- The loop that sorts: each node goes to the end of its role, up to the first that has none. -/
def Roles.collect : List Node → Roles → Except Fault Roles
  | [], r => .ok r
  | n :: ns, r =>
    match n.data.payload.role? with
    | none => .error (.unexpanded n.id)
    | some role => collect ns (r.add n role)

theorem Roles.add_ofNodes {n : Node} {role : Role} (h : n.data.payload.role? = some role)
    (nodes : List Node) : (Roles.ofNodes nodes).add n role = Roles.ofNodes (nodes ++ [n]) := by
  cases role <;> simp [Roles.add, Roles.ofNodes, withRole, h]

/-- **Sorting is a loop over the nodes** that starts with empty roles. -/
theorem Roles.collect_eq_sort (nodes : List Node) :
    Roles.collect nodes (Roles.ofNodes []) = Roles.sort nodes := by
  suffices hall : ∀ ns before, (∀ n ∈ before, n.data.payload.role?.isNone = false) →
      Roles.collect ns (Roles.ofNodes before) = Roles.sort (before ++ ns) from
    hall nodes [] (by simp)
  intro ns
  induction ns with
  | nil =>
    intro before h
    rw [append_nil, Roles.sort, find?_eq_none.mpr fun n hn => by simp [h n hn], Roles.collect]
  | cons n ns ih =>
    intro before h
    cases hrole : n.data.payload.role? with
    | none =>
      have hfirst : (before ++ n :: ns).find? (fun n => n.data.payload.role?.isNone) = some n := by
        rw [find?_append, find?_eq_none.mpr fun m hm => by simp [h m hm]]
        simp [hrole]
      rw [Roles.sort, hfirst, Roles.collect, hrole]
    | some role =>
      rw [Roles.collect, hrole]
      simp only [Roles.add_ofNodes hrole]
      rw [ih _ (by simpa [hrole, or_imp, forall_and] using h), append_assoc, singleton_append]

end TradeGraph

import Mathlib.Data.Finset.Basic
import TradeGraph.Proofs.Failure

/-!
# Nodes that leave no trace

Nodes that are not live are dropped, and of the orders of a side, of stops and of targets only the
first counts. Without them a graph is compiled in the same way: paths may still run through the ids
of deleted nodes, and numbers are given to live nodes only.
-/

namespace TradeGraph

open List

variable {n : Node} {role : Role}
variable {id : String} {indicators nodes : List Node} {kind : Kind} {i : Nat}

/-! ## Lists without some places -/

section Places

variable {α : Type} {D : Finset Nat} {as : List α} {p : α → Bool}

/-- The items at all other places. -/
def withoutAt (D : Finset Nat) (as : List α) : List α :=
  (as.zipIdx.filter fun (_, i) => decide (i ∉ D)).map Prod.fst

theorem mem_withoutAt {a : α} : a ∈ withoutAt D as ↔ ∃ i ∉ D, as[i]? = some a := by
  simp only [withoutAt, mem_map, mem_filter, decide_eq_true_eq, Prod.exists,
    mem_zipIdx_iff_getElem?]
  constructor
  · rintro ⟨b, i, ⟨hb, hi⟩, rfl⟩
    exact ⟨i, hi, hb⟩
  · rintro ⟨i, hi, ha⟩
    exact ⟨a, i, ⟨ha, hi⟩, rfl⟩

theorem mem_of_mem_withoutAt {a : α} (h : a ∈ withoutAt D as) : a ∈ as := by
  obtain ⟨i, -, hi⟩ := mem_withoutAt.mp h
  exact mem_of_getElem? hi

theorem filter_withoutAt (h : ∀ i ∈ D, ∀ a, as[i]? = some a → p a = false) :
    (withoutAt D as).filter p = as.filter p := by
  have hall : as.zipIdx.filter (fun x => (p ∘ Prod.fst) x && decide (x.2 ∉ D)) =
      as.zipIdx.filter (p ∘ Prod.fst) := by
    refine filter_congr fun ⟨a, i⟩ hi => ?_
    have ha : as[i]? = some a := mem_zipIdx_iff_getElem?.mp hi
    by_cases hD : i ∈ D
    · simp [h i hD a ha]
    · simp [hD]
  calc (withoutAt D as).filter p
      = (as.zipIdx.filter (p ∘ Prod.fst)).map Prod.fst := by
        rw [withoutAt, filter_map, filter_filter, hall]
    _ = as.filter p := by
        rw [← filter_map, zipIdx_map_fst]

theorem find?_withoutAt (h : ∀ i ∈ D, ∀ a, as[i]? = some a → p a = true →
      ∃ j < i, ∃ b, as[j]? = some b ∧ p b = true) :
    (withoutAt D as).find? p = as.find? p := by
  have hfrom (as : List α) (k : Nat) (h : ∀ i, k + i ∈ D → ∀ a, as[i]? = some a → p a = true →
      ∃ j < i, ∃ b, as[j]? = some b ∧ p b = true) :
      (((as.zipIdx k).filter fun (_, i) => decide (i ∉ D)).map Prod.fst).find? p = as.find? p := by
    induction as generalizing k with
    | nil => rfl
    | cons a as ih =>
      by_cases hp : p a = true
      · have hk : k ∉ D := fun hk => by
          obtain ⟨j, hj, -⟩ := h 0 hk a rfl hp
          omega
        simp [zipIdx_cons, hk, hp]
      · have hrest := ih (k + 1) fun i hi b hb hpb => by
          obtain ⟨j, hj, d, hd, hpd⟩ := h (i + 1)
            (by rwa [← Nat.add_assoc, Nat.add_right_comm]) b hb hpb
          cases j with
          | zero => exact absurd (Option.some.inj hd ▸ hpd) hp
          | succ j => exact ⟨j, by omega, d, hd, hpd⟩
        by_cases hk : k ∈ D <;> simpa [zipIdx_cons, hk, hp] using hrest
  exact hfrom as 0 fun i hi => h i (Nat.zero_add i ▸ hi)

end Places

/-! ## Plans -/

/-- The same nodes where each has a part of the program, and the same first node where only the
first has. -/
structure Roles.Alike (r r' : Roles) : Prop where
  timing : r.timing = r'.timing
  spread : r.spread = r'.spread
  indicators : r.indicators = r'.indicators
  priceAction : r.priceAction = r'.priceAction
  closeCondition : r.closeCondition = r'.closeCondition
  timeExit : r.timeExit = r'.timeExit
  management : r.management = r'.management
  buy : r.buy.head? = r'.buy.head?
  sell : r.sell.head? = r'.sell.head?
  stopLoss : r.stopLoss.head? = r'.stopLoss.head?
  takeProfit : r.takeProfit.head? = r'.takeProfit.head?

section Plans

variable {r r' : Roles} {edges : List Edge} {known known' : List String} {ctx : Context}

theorem Roles.hasEntry_eq (r : Roles) :
    r.hasEntry = (r.orders.buy.isSome || r.orders.sell.isSome) := by
  have hfirst (ns : List Node) : (!ns.isEmpty) = ns.head?.isSome := by cases ns <;> rfl
  simp only [Roles.hasEntry, Roles.orders, hfirst]

theorem stopIndicator_known {p : StopLoss}
    (h : ∀ name, p.reference? = some name → (name ∈ known ↔ name ∈ known')) :
    stopIndicator id p indicators edges known = stopIndicator id p indicators edges known' := by
  unfold stopIndicator
  cases hid : p.indicatorNodeId with
  | none => rfl
  | some name =>
    cases hempty : name.isEmpty with
    | true => simp only [hempty, if_true]
    | false =>
      have href : p.reference? = some name := by
        simp [StopLoss.reference?, hid, Option.filter, hempty]
      have hcontains : known.contains name = known'.contains name := by
        rw [Bool.eq_iff_iff, contains_iff_mem, contains_iff_mem]
        exact h name href
      simp only [hcontains]

theorem emitStopLoss_known {priceAction : List Node}
    (h : ∀ p name, n.data.payload = .trading (.stopLoss p) → p.reference? = some name →
      (name ∈ known ↔ name ∈ known')) :
    emitStopLoss n indicators priceAction edges known ctx =
      emitStopLoss n indicators priceAction edges known' ctx := by
  unfold emitStopLoss
  split
  · rename_i p hp
    simp only [emitIndicatorStop, stopIndicator_known fun name => h p name hp]
  · rfl

/-- **A plan looks at the roles up to likeness**, and of the known ids only at the one that the stop
names. -/
theorem plan_alike (halike : r.Alike r')
    (hknown : ∀ n p name, r.stopLoss.head? = some n → n.data.payload = .trading (.stopLoss p) →
      p.reference? = some name → (name ∈ known ↔ name ∈ known')) :
    plan r edges known ctx = plan r' edges known' ctx := by
  have horders : r.orders = r'.orders := by
    rw [Roles.orders, Roles.orders, halike.buy, halike.sell]
  have hrisk : riskSteps r edges known ctx = riskSteps r' edges known' ctx := by
    rw [riskSteps, riskSteps, Roles.hasEntry_eq, Roles.hasEntry_eq, horders, stopStep, stopStep,
      targetStep, targetStep, ← halike.stopLoss, halike.takeProfit, halike.indicators,
      halike.priceAction]
    cases hstop : r.stopLoss.head? with
    | none => rfl
    | some n => simp only [emitStopLoss_known fun p name => hknown n p name hstop]
  rw [plan, plan, halike.timing, halike.spread, halike.indicators, halike.priceAction,
    halike.closeCondition, halike.timeExit, halike.management, horders, hrisk]

end Plans

/-! ## Graphs without entry strategies -/

theorem fanOut_plain (h : ∀ n ∈ nodes, n.isComposite = false) (e : Edge) :
    fanOut nodes e = [e] := by
  have hself (x : String) : standIns nodes x = [x] := by
    rcases standIns_cases nodes x with ⟨-, hx⟩ | ⟨c, hc, hcomp, -⟩
    · exact hx
    · rw [h c hc] at hcomp
      cases hcomp
  simp [fanOut, hself]

theorem expand_plain (h : ∀ n ∈ nodes, n.isComposite = false) (edges : List Edge) :
    (expand nodes edges).nodes = nodes ∧ (expand nodes edges).edges = edges := by
  constructor
  · show nodes.flatMap expandNode = nodes
    rw [flatMap_congr fun n hn => expandNode_other (h n hn), flatMap_singleton']
  · have hnone : nodes.flatMap (fun n => (n.expand.map Subgraph.edges).getD []) = [] := by
      rw [flatMap_eq_nil_iff]
      intro n hn
      rw [Node.expand_eq_none (h n hn)]
      rfl
    rw [expand, hnone, append_nil, flatMap_congr fun e _ => fanOut_plain h e,
      flatMap_singleton']

/-! ## Deletion -/

/-- The roles of which only the first node counts, and their kinds. -/
def firstOnly : List (Role × Kind) :=
  [(.buy, .placeBuy), (.sell, .placeSell), (.stopLoss, .stopLoss), (.takeProfit, .takeProfit)]

theorem Payload.role?_firstOnly (h : (role, kind) ∈ firstOnly) (q : Payload) :
    q.role? = some role ↔ q.kind = kind := by
  simp only [firstOnly, mem_cons, Prod.mk.injEq, not_mem_nil, or_false] at h
  rcases h with ⟨rfl, rfl⟩ | ⟨rfl, rfl⟩ | ⟨rfl, rfl⟩ | ⟨rfl, rfl⟩ <;>
    fun_cases Payload.kind q <;> simp [Payload.role?]

namespace Graph

/-- Is the node live in the graph? -/
def isLive (g : Graph) (n : Node) : Bool :=
  n.isLive (reachable g.nodes g.edges)

/-- The graph without the nodes at some places. -/
def without (g : Graph) (D : Finset Nat) : Graph :=
  { g with nodes := withoutAt D g.nodes }

/-- The node at the place is not live, or it is live and of a kind of which an earlier live node is
the one that counts. -/
inductive Traceless (g : Graph) (i : Nat) : Prop
  | dead {n : Node} : g.nodes[i]? = some n → g.isLive n = false → Traceless g i
  | surplus {n m : Node} {j : Nat} : g.nodes[i]? = some n → g.isLive n = true →
      n.kind ∈ firstOnly.map Prod.snd → j < i → g.nodes[j]? = some m → g.isLive m = true →
      m.kind = n.kind → Traceless g i

variable {g : Graph} {D : Finset Nat}

theorem Traceless.role_ne (h : g.Traceless i) (hn : g.nodes[i]? = some n)
    (hrole : role ∉ firstOnly.map Prod.fst) :
    (g.isLive n && n.data.payload.role? == some role) = false := by
  rcases h with ⟨hn', hdead⟩ | ⟨hn', -, hkind, -⟩
  · cases hn.symm.trans hn'
    rw [hdead, Bool.false_and]
  · cases hn.symm.trans hn'
    obtain ⟨⟨role', kind⟩, hmem, hkind⟩ := mem_map.mp hkind
    have hown : n.data.payload.role? = some role' :=
      (Payload.role?_firstOnly hmem _).mpr hkind.symm
    rw [hown, Bool.and_eq_false_iff, beq_eq_false_iff_ne]
    refine .inr fun heq => hrole ?_
    exact Option.some.inj heq ▸ mem_map_of_mem hmem

/-- Before what is deleted from a role stands another live node of the role. -/
theorem Traceless.earlier (h : g.Traceless i) (hn : g.nodes[i]? = some n)
    (hmem : (role, kind) ∈ firstOnly)
    (hlive : (g.isLive n && n.data.payload.role? == some role) = true) :
    ∃ j < i, ∃ m, g.nodes[j]? = some m ∧
      (g.isLive m && m.data.payload.role? == some role) = true := by
  simp only [Bool.and_eq_true, beq_iff_eq, Payload.role?_firstOnly hmem] at hlive ⊢
  rcases h with ⟨hn', hdead⟩ | ⟨hn', -, -, hj, hm, hmlive, hkind⟩
  · cases hn.symm.trans hn'
    rw [hdead] at hlive
    cases hlive.1
  · cases hn.symm.trans hn'
    exact ⟨_, hj, _, hm, hmlive, hkind.trans hlive.2⟩

theorem Traceless.isRoot_eq (h : g.Traceless i) (hn : g.nodes[i]? = some n) :
    n.isRoot = false := by
  rcases h with ⟨hn', hdead⟩ | ⟨hn', -, hkind, -⟩
  · cases hn.symm.trans hn'
    rw [isLive, Node.isLive, Bool.or_eq_false_iff, Node.isAlwaysLive, Bool.or_eq_false_iff] at hdead
    exact hdead.2.1
  · cases hn.symm.trans hn'
    have hcategory : ∀ kind ∈ firstOnly.map Prod.snd, kind.category ≠ .timing := by decide
    rw [Node.isRoot, beq_eq_false_iff_ne]
    exact hcategory n.kind hkind

theorem withRole_keepLive (g : Graph) (role : Role) :
    withRole role (keepLive g.nodes g.edges) =
      g.nodes.filter fun n => g.isLive n && n.data.payload.role? == some role := by
  rw [withRole, keepLive, filter_filter]
  simp only [Bool.and_comm]
  rfl

variable (hD : ∀ i ∈ D, g.Traceless i)

include hD

theorem rootIds_without : rootIds (g.without D).nodes = rootIds g.nodes := by
  show ((withoutAt D g.nodes).filter Node.isRoot).map Node.id = _
  rw [filter_withoutAt fun i hi n hn => (hD i hi).isRoot_eq hn, rootIds]

theorem isLive_without (hn : n ∈ (g.without D).nodes) : (g.without D).isLive n = g.isLive n := by
  have hmem : n.id ∈ reachable (g.without D).nodes (g.without D).edges ↔
      n.id ∈ reachable g.nodes g.edges := by
    rw [mem_reachable, mem_reachable, rootIds_without hD]
    by_cases hroots : rootIds g.nodes = []
    · simp only [hroots, if_true, mem_map_of_mem hn,
        mem_map_of_mem (mem_of_mem_withoutAt hn)]
    · simp only [hroots, if_false]
      rfl
  rw [isLive, isLive, Node.isLive, Node.isLive, Bool.eq_iff_iff]
  simp only [Bool.or_eq_true, contains_iff_mem, hmem]

theorem withRole_without (role : Role) :
    withRole role (keepLive (g.without D).nodes (g.without D).edges) =
      (withoutAt D g.nodes).filter fun n => g.isLive n && n.data.payload.role? == some role := by
  rw [withRole_keepLive]
  refine filter_congr fun n hn => ?_
  rw [isLive_without hD hn]

theorem withRole_eq (hrole : role ∉ firstOnly.map Prod.fst) :
    withRole role (keepLive (g.without D).nodes (g.without D).edges) =
      withRole role (keepLive g.nodes g.edges) := by
  rw [withRole_without hD, withRole_keepLive]
  exact filter_withoutAt fun i hi n hn => (hD i hi).role_ne hn hrole

theorem head?_withRole_eq (kind : Kind) (hmem : (role, kind) ∈ firstOnly) :
    (withRole role (keepLive (g.without D).nodes (g.without D).edges)).head? =
      (withRole role (keepLive g.nodes g.edges)).head? := by
  rw [withRole_without hD, withRole_keepLive, head?_filter, head?_filter]
  exact find?_withoutAt fun i hi n hn hlive => (hD i hi).earlier hn hmem hlive

theorem roles_without :
    (Roles.ofNodes (keepLive (g.without D).nodes (g.without D).edges)).Alike
      (Roles.ofNodes (keepLive g.nodes g.edges)) where
  timing := withRole_eq hD (by decide)
  spread := withRole_eq hD (by decide)
  indicators := withRole_eq hD (by decide)
  priceAction := withRole_eq hD (by decide)
  closeCondition := withRole_eq hD (by decide)
  timeExit := withRole_eq hD (by decide)
  management := withRole_eq hD (by decide)
  buy := head?_withRole_eq hD .placeBuy (by decide)
  sell := head?_withRole_eq hD .placeSell (by decide)
  stopLoss := head?_withRole_eq hD .stopLoss (by decide)
  takeProfit := head?_withRole_eq hD .takeProfit (by decide)

end Graph

def Payload.stopName? : Payload → Option String
  | .trading (.stopLoss p) => p.indicatorNodeId
  | _ => none

section Deletion

variable {g : Graph}

/-- Without entry strategies, the live nodes are those of the graph itself. -/
theorem Graph.liveNodes_plain (h : ∀ n ∈ g.nodes, n.isComposite = false) :
    g.liveNodes = keepLive g.nodes g.edges := by
  obtain ⟨hnodes, hedges⟩ := expand_plain h g.edges
  rw [Graph.liveNodes, hnodes, hedges]

theorem Graph.mem_knownIds_plain (h : ∀ n ∈ g.nodes, n.isComposite = false) :
    id ∈ g.knownIds ↔ ∃ n ∈ g.nodes, n.id = id := by
  rw [Graph.knownIds, (expand_plain h g.edges).1, mem_append, or_self, mem_map]

/-- **Dead and surplus nodes leave no trace.** A graph without entry strategies compiles to the same
program, or fails in the same way, without nodes that are not live or not the first live one of
their kind, if the first live stop names none of them. -/
theorem compile_without (hplain : ∀ n ∈ g.nodes, n.isComposite = false) {D : Finset Nat}
    (hD : ∀ i ∈ D, g.Traceless i)
    (hstop : ∀ stop name, g.firstStop? = some stop →
      stop.data.payload.stopName? = some name → name ≠ "" →
      ∀ i ∈ D, ∀ n, g.nodes[i]? = some n → n.id ≠ name)
    (project : String) (options : Options) :
    ((g.without D).compile project options).result = (g.compile project options).result := by
  have hplain' : ∀ n ∈ (g.without D).nodes, n.isComposite = false := fun n hn =>
    hplain n (mem_of_mem_withoutAt hn)
  have halike : (Roles.ofNodes (g.without D).liveNodes).Alike (Roles.ofNodes g.liveNodes) := by
    rw [Graph.liveNodes_plain hplain', Graph.liveNodes_plain hplain]
    exact Graph.roles_without hD
  have hcontext : (g.without D).context project options = g.context project options := by
    rw [Graph.context, Graph.context, halike.timing]
    rfl
  have hedges : (expand (g.without D).nodes (g.without D).edges).edges =
      (expand g.nodes g.edges).edges :=
    (expand_plain hplain' _).2.trans (expand_plain hplain _).2.symm
  -- a node that the stop names is not deleted
  have hknown : ∀ n p name, (Roles.ofNodes (g.without D).liveNodes).stopLoss.head? = some n →
      n.data.payload = .trading (.stopLoss p) → p.reference? = some name →
        (name ∈ (g.without D).knownIds ↔ name ∈ g.knownIds) := by
    intro n p name hn hp hname
    rw [halike.stopLoss, Graph.head_stopLoss] at hn
    obtain ⟨hid, hne⟩ := Option.filter_eq_some_iff.mp hname
    have hnamed := hstop n name hn (by rw [hp]; exact hid) (by rintro rfl; cases hne)
    rw [Graph.mem_knownIds_plain hplain', Graph.mem_knownIds_plain hplain]
    constructor
    · rintro ⟨m, hm, hmid⟩
      exact ⟨m, mem_of_mem_withoutAt hm, hmid⟩
    · rintro ⟨m, hm, hmid⟩
      obtain ⟨i, hi⟩ := getElem?_of_mem hm
      exact ⟨m, mem_withoutAt.mpr ⟨i, fun hiD => hnamed i hiD m hi hmid, hi⟩, hmid⟩
  rw [Graph.compile_eq_outcome, Graph.compile_eq_outcome, hcontext, Graph.emission, Graph.emission,
    hedges, plan_alike halike hknown]

end Deletion

/-- A second order and an indicator that nothing leads to, in a graph whose stop names another
indicator. -/
def crowdedGraph : Graph :=
  (Graph.load (.obj [("nodes", .arr [.node "clock" "always", .node "buy" "place-buy",
    .node "lost" "rsi", .node "again" "place-buy", .node "average" "moving-average",
    .node "stop" "stop-loss" [("method", .str "INDICATOR"), ("indicatorNodeId", .str "average")]]),
    ("edges", .arr [.edge "clock" "buy", .edge "clock" "again", .edge "again" "average",
      .edge "average" "stop"])])).toOption.getD {}

theorem compile_without_crowded :
    ((crowdedGraph.without {2, 3}).nodes.map Node.id = ["clock", "buy", "average", "stop"]) ∧
      ((crowdedGraph.without {2, 3}).compile "Test" {}).result =
        (crowdedGraph.compile "Test" {}).result := by
  have hlive : reachable crowdedGraph.nodes crowdedGraph.edges =
      ["clock", "buy", "again", "average", "stop"] := by
    have hroots : rootIds crowdedGraph.nodes = ["clock"] := by decide
    have hedges : crowdedGraph.edges = [⟨"e0", "clock", "buy"⟩, ⟨"e1", "clock", "again"⟩,
        ⟨"e2", "again", "average"⟩, ⟨"e3", "average", "stop"⟩] := by decide
    rw [reachable_eq, hroots, hedges]
    simp [closure, leaving, notLeaving]
  refine ⟨by decide, compile_without (by decide) ?_ ?_ "Test" {}⟩
  · intro i hi
    rcases Finset.mem_insert.mp hi with rfl | hi
    · refine .dead rfl ?_
      rw [Graph.isLive, hlive]
      decide
    · obtain rfl := Finset.mem_singleton.mp hi
      refine .surplus rfl ?_ (by decide) (j := 1) (by decide) rfl ?_ rfl
      · rw [Graph.isLive, hlive]
        decide
      · rw [Graph.isLive, hlive]
        decide
  · intro stop name hstop hname hne i hi n hn
    -- the name of the only stop is that of the average
    have hstop : stop ∈ crowdedGraph.nodes := by
      rw [Graph.firstStop?, Graph.liveNodes_plain (by decide)] at hstop
      exact (mem_filter.mp (mem_of_find?_eq_some hstop)).1
    have hnames : crowdedGraph.nodes.map (fun m => m.data.payload.stopName?) =
        [none, none, none, none, none, some "average"] := by decide
    have hname : some name ∈ crowdedGraph.nodes.map (fun m => m.data.payload.stopName?) :=
      mem_map.mpr ⟨stop, hstop, hname⟩
    have hids : crowdedGraph.nodes.map Node.id =
        ["clock", "buy", "lost", "again", "average", "stop"] := by decide
    have hplace : (crowdedGraph.nodes.map Node.id)[i]? = some n.id := by
      rw [getElem?_map, hn]
      rfl
    rw [hnames] at hname
    rw [hids] at hplace
    obtain rfl : name = "average" := by simpa using hname
    intro hid
    rw [hid] at hplace
    rcases Finset.mem_insert.mp hi with rfl | hi
    · exact absurd hplace (by decide)
    · obtain rfl := Finset.mem_singleton.mp hi
      exact absurd hplace (by decide)

end TradeGraph

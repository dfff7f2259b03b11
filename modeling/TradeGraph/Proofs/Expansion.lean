import TradeGraph.Expansion
import TradeGraph.Proofs.Loading
import TradeGraph.Proofs.Reachability

/-!
# Expansion and reachability

Expansion puts a small layered graph in the place of each entry strategy. Paths of the old and the
new graph simulate each other: a new edge is the image of an old one or stays inside one strategy,
and what leads to a strategy leads to all of its signals, from there to its orders, and on to its
stop and target.
-/

namespace TradeGraph

open List

variable {orders : List Node} {c n stop target v : Node} {a b r x : String}
variable {plan : EntryPlan} {signals : EntrySignals} {id : String} {s : Subgraph}

/-! ## Parts of strategies -/

def partRoles : List String :=
  ["ma-fast", "ma-slow", "htf-ema", "rsi-confirm", "trend-ema", "rsi", "adx", "macd", "range",
    "buy", "sell", "sl", "tp"]

/-- Roles have no underscores, so that an id can be taken apart into strategy and role. -/
theorem underscore_not_mem_partRoles : ∀ r ∈ partRoles, '_' ∉ r.toList := by
  decide

/-- A part of a strategy has one of the roles, and it is a signal or a trading node. -/
structure Part.Plain (p : Part) : Prop where
  role : p.role ∈ partRoles
  category : p.payload.kind.category ∈ [Category.indicator, .priceAction, .trading]

theorem Origin.signals_plain (o : Origin) (plan : EntryPlan) (signals : EntrySignals) :
    ∀ p ∈ o.signals plan signals, p.Plain := by
  cases signals
  -- one goal for each signal
  all_goals
    simp only [Origin.signals, Origin.emaCrossover, Origin.trendPullback, Origin.rsiReversal,
      Origin.macdCrossover, Origin.rangeBreakout, Origin.trendFilter, mem_append, mem_cons,
      not_mem_nil, mem_ite_nil_right, or_false, or_imp, and_imp, forall_and, forall_eq]
    and_intros
  all_goals
    intros
    subst_vars
    exact ⟨by simp [partRoles], of_decide_eq_true rfl⟩

theorem Origin.signals_ne_nil (o : Origin) (plan : EntryPlan) (signals : EntrySignals) :
    o.signals plan signals ≠ [] := by
  cases signals <;>
    simp [Origin.signals, Origin.emaCrossover, Origin.trendPullback, Origin.rsiReversal,
      Origin.macdCrossover, Origin.rangeBreakout]

/-- All parts of a strategy. -/
def Origin.parts (o : Origin) (plan : EntryPlan) (signals : EntrySignals) : List Part :=
  o.signals plan signals ++ o.orders plan ++ [o.stop plan, o.target plan]

theorem Origin.forall_mem_parts {o : Origin} {P : Part → Prop}
    (hsignals : ∀ p ∈ o.signals plan signals, P p)
    (horder : ∀ side, P (o.order plan side)) (hstop : P (o.stop plan))
    (htarget : P (o.target plan)) :
    ∀ p ∈ o.parts plan signals, P p := by
  intro p hp
  simp only [Origin.parts, Origin.orders, mem_append, mem_ite_nil_right, mem_cons,
    not_mem_nil, or_false] at hp
  rcases hp with (hp | ⟨-, rfl⟩ | ⟨-, rfl⟩) | rfl | rfl
  · exact hsignals p hp
  · exact horder .buy
  · exact horder .sell
  · exact hstop
  · exact htarget

theorem Origin.parts_plain (o : Origin) (plan : EntryPlan) (signals : EntrySignals) :
    ∀ p ∈ o.parts plan signals, p.Plain := by
  refine Origin.forall_mem_parts (o.signals_plain plan signals) (fun side => ?_) ?_ ?_
  · cases side <;> exact ⟨by simp [partRoles, Origin.order, Side.lower], of_decide_eq_true rfl⟩
  · exact ⟨by simp [partRoles, Origin.stop], of_decide_eq_true rfl⟩
  · exact ⟨by simp [partRoles, Origin.target], of_decide_eq_true rfl⟩

theorem Origin.orders_ne_nil (o : Origin) (plan : EntryPlan) : o.orders plan ≠ [] := by
  cases h : plan.direction <;> simp [Origin.orders, h]

/-! ## Ids of parts -/

/-- A strategy's id and a role without underscores can be read off the id of the part. -/
theorem partId_inj {id' role role' : String} (h : '_' ∉ role.toList) (h' : '_' ∉ role'.toList)
    (heq : partId id role = partId id' role') : id = id' ∧ role = role' := by
  -- read from the end, the role is what stands before the first underscore
  have hrole (id role : String) (h : '_' ∉ role.toList) :
      (partId id role).toList.reverse.takeWhile (· != '_') = role.toList.reverse := by
    have hsplit : (partId id role).toList.reverse =
        role.toList.reverse ++ '_' :: '_' :: id.toList.reverse := by
      simp [partId]
    rw [hsplit, takeWhile_append_of_pos]
    · simp
    · intro c hc
      simp only [bne_iff_ne, ne_eq]
      rintro rfl
      exact h (mem_reverse.mp hc)
  have hroles : role = role' := by
    have := hrole id role h
    rw [heq, hrole id' role' h', reverse_inj, String.toList_inj] at this
    exact this.symm
  subst hroles
  refine ⟨?_, rfl⟩
  have hids := congrArg String.toList heq
  simp only [partId, String.toList_append, append_cancel_right_eq] at hids
  exact String.toList_inj.mp hids

/-- The ids of the nodes that expansion makes. -/
def partIds (nodes : List Node) : List String :=
  (nodes.filter Node.isComposite).flatMap fun c => (expandNode c).map Node.id

theorem mem_partIds {nodes : List Node} :
    x ∈ partIds nodes ↔
      ∃ c ∈ nodes, c.isComposite = true ∧ ∃ v ∈ expandNode c, v.id = x := by
  simp only [partIds, mem_flatMap, mem_filter, mem_map, and_assoc]

/-! ## The subgraph of a strategy -/

/-- A node is composite exactly when it is an entry strategy with a plan and signals. -/
theorem Node.isComposite_iff :
    n.isComposite = true ↔ ∃ plan signals, n.data.payload = .entry plan signals := by
  rw [Node.isComposite, beq_iff_eq, Node.category, Node.kind]
  fun_cases Payload.kind n.data.payload <;> simp_all [Kind.category]

theorem Node.expand_eq_none (h : n.isComposite = false) : n.expand = none := by
  cases hp : n.data.payload with
  | entry plan signals =>
    rw [Node.isComposite_iff.mpr ⟨plan, signals, hp⟩] at h
    cases h
  | _ => simp [Node.expand, hp]

/-- A subgraph in layers: signals lead to orders, orders to the stop and to the target. -/
structure Expands (n : Node) (s : Subgraph) (orders : List Node) (stop target : Node) : Prop where
  expand : n.expand = some s
  nodes : s.nodes = s.signals ++ orders ++ [stop, target]
  signals_ne_nil : s.signals ≠ []
  orders_ne_nil : orders ≠ []
  plain : ∀ v ∈ s.nodes, ∃ p : Part, p.Plain ∧ v = p.toNode n.id n.position
  joined : ∀ a b, Joined s.edges a b ↔
    (∃ v ∈ s.signals, ∃ o ∈ orders, v.id = a ∧ o.id = b) ∨
      ∃ o ∈ orders, o.id = a ∧ (b = stop.id ∨ b = target.id)

theorem joined_zipIdx (name : Nat → String) {pairs : List (String × String)} :
    Joined (pairs.zipIdx.map fun ((source, target), i) =>
      { id := name i, source, target }) a b ↔ (a, b) ∈ pairs := by
  constructor
  · rintro ⟨e, he, rfl, rfl⟩
    obtain ⟨⟨⟨s, t⟩, i⟩, hp, rfl⟩ := mem_map.mp he
    exact fst_mem_of_mem_zipIdx hp
  · intro h
    obtain ⟨i, hi⟩ := getElem?_of_mem h
    exact ⟨_, mem_map.mpr ⟨((a, b), i), mem_zipIdx_iff_getElem?.mpr hi, rfl⟩, rfl, rfl⟩

theorem joined_layers {signals : List Node} :
    Joined (wire id ((signals.flatMap fun s => orders.map fun o => (s.id, o.id)) ++
      orders.flatMap fun o => [(o.id, stop.id), (o.id, target.id)])) a b ↔
      (∃ v ∈ signals, ∃ o ∈ orders, v.id = a ∧ o.id = b) ∨
        ∃ o ∈ orders, o.id = a ∧ (b = stop.id ∨ b = target.id) := by
  refine (joined_zipIdx fun i => partId id ("e" ++ toString i)).trans ?_
  simp only [mem_append, mem_flatMap, mem_map, mem_cons, not_mem_nil,
    or_false, Prod.mk.injEq, ← and_or_left, eq_comm (a := a)]

/-- **Every strategy expands** into signals, orders, a stop and a target. -/
theorem Node.exists_expands (h : n.isComposite = true) :
    ∃ s orders stop target, Expands n s orders stop target := by
  obtain ⟨plan, signals, hp⟩ := Node.isComposite_iff.mp h
  let o : Origin := { id := n.id, kind := n.kind, common := n.data.common }
  let node (p : Part) : Node := p.toNode n.id n.position
  refine ⟨_, (o.orders plan).map node, node (o.stop plan), node (o.target plan),
    ⟨by rw [Node.expand, hp], rfl, ?_, ?_, ?_, ?_⟩⟩
  · simpa using o.signals_ne_nil plan signals
  · simpa using o.orders_ne_nil plan
  · intro v hv
    replace hv : v ∈ (o.parts plan signals).map node := by
      simpa only [Origin.parts, map_append, map_cons, map_nil] using hv
    obtain ⟨p, hp, rfl⟩ := mem_map.mp hv
    exact ⟨p, o.parts_plain plan signals p hp, rfl⟩
  · exact fun a b => joined_layers

/-- What the parts of a strategy know of it. -/
def Node.origin (c : Node) : Origin where
  id := c.id
  kind := c.kind
  common := c.data.common

theorem expandNode_eq_parts (hp : c.data.payload = .entry plan signals) :
    expandNode c = (c.origin.parts plan signals).map fun p => p.toNode c.id c.position := by
  simp only [expandNode, Node.expand, hp, Origin.parts, Node.origin, map_append,
    map_cons, map_nil]

theorem exists_role_of_mem_expandNode (hc : c.isComposite = true) (hv : v ∈ expandNode c) :
    ∃ r ∈ partRoles, v.id = partId c.id r := by
  obtain ⟨s, orders, stop, target, hs⟩ := Node.exists_expands hc
  rw [expandNode, hs.expand] at hv
  obtain ⟨p, hp, rfl⟩ := hs.plain v hv
  exact ⟨p.role, hp.role, rfl⟩

/-! ## Edges of the expanded graph -/

section Graphs

variable {nodes : List Node} {edges : List Edge}

/-- An id is its own stand-in, or it names a strategy and the signals stand in. -/
theorem standIns_cases (nodes : List Node) (x : String) :
    ((∀ c ∈ nodes, c.isComposite = true → c.id ≠ x) ∧ standIns nodes x = [x]) ∨
      ∃ c ∈ nodes, c.isComposite = true ∧ c.id = x ∧ ∃ s orders stop target,
        Expands c s orders stop target ∧ standIns nodes x = s.signals.map Node.id := by
  cases hlast : (nodes.filter fun n => n.isComposite && n.id == x).getLast? with
  | none =>
    refine .inl ⟨fun c hc hcomp hid => ?_, by rw [standIns, hlast]⟩
    have := filter_eq_nil_iff.mp (getLast?_eq_none_iff.mp hlast) c hc
    simp [hcomp, hid] at this
  | some c =>
    obtain ⟨hc, hmatch⟩ := mem_filter.mp (mem_of_getLast? hlast)
    rw [Bool.and_eq_true, beq_iff_eq] at hmatch
    obtain ⟨s, orders, stop, target, hs⟩ := Node.exists_expands hmatch.1
    refine .inr ⟨c, hc, hmatch.1, hmatch.2, s, orders, stop, target, hs, ?_⟩
    rw [standIns, hlast]
    simp only [hs.expand, Option.map_some, Option.getD_some]

theorem standIns_ne_nil (nodes : List Node) (x : String) : standIns nodes x ≠ [] := by
  rcases standIns_cases nodes x with ⟨-, h⟩ | ⟨c, -, -, -, s, _, _, _, hs, h⟩
  · simp [h]
  · simpa [h] using hs.signals_ne_nil

theorem standIns_strategy (hnodup : (nodes.map Node.id).Nodup) (hc : c ∈ nodes)
    (hcomp : c.isComposite = true) (hs : Expands c s orders stop target) :
    standIns nodes c.id = s.signals.map Node.id := by
  rcases standIns_cases nodes c.id with ⟨hne, -⟩ | ⟨c', hc', -, hid, s', _, _, _, hs', h⟩
  · exact absurd rfl (hne c hc hcomp)
  · obtain rfl : c' = c := inj_on_of_nodup_map hnodup hc' hc hid
    obtain rfl : s' = s := Option.some.inj (hs'.expand.symm.trans hs.expand)
    exact h

theorem standIns_other (hnodup : (nodes.map Node.id).Nodup) (hn : n ∈ nodes)
    (hcomp : n.isComposite = false) : standIns nodes n.id = [n.id] := by
  rcases standIns_cases nodes n.id with ⟨-, h⟩ | ⟨c, hc, hc', hid, -⟩
  · exact h
  · obtain rfl : c = n := inj_on_of_nodup_map hnodup hc hn hid
    rw [hcomp] at hc'
    cases hc'

theorem joined_fanOut {e : Edge} :
    Joined (fanOut nodes e) a b ↔ a ∈ standIns nodes e.source ∧ b ∈ standIns nodes e.target := by
  by_cases h : standIns nodes e.source = [e.source] ∧ standIns nodes e.target = [e.target]
  · simp only [fanOut, h, and_self, if_true, Joined, mem_singleton, exists_eq_left]
    exact and_congr eq_comm eq_comm
  · simp only [fanOut, h, if_false]
    refine (joined_zipIdx fun i => partId e.id (toString i)).trans ?_
    simp only [mem_flatMap, mem_map, Prod.mk.injEq]
    constructor
    · rintro ⟨_, ha, _, hb, rfl, rfl⟩
      exact ⟨ha, hb⟩
    · rintro ⟨ha, hb⟩
      exact ⟨a, ha, b, hb, rfl, rfl⟩

/-- An edge of the expanded graph is the image of an edge, or inside a strategy. -/
theorem joined_expand :
    Joined (expand nodes edges).edges a b ↔
      (∃ e ∈ edges, a ∈ standIns nodes e.source ∧ b ∈ standIns nodes e.target) ∨
        ∃ c ∈ nodes, ∃ s, c.expand = some s ∧ Joined s.edges a b := by
  constructor
  · rintro ⟨e', he', hs, ht⟩
    rcases mem_append.mp he' with he' | he'
    · obtain ⟨e, he, he'⟩ := mem_flatMap.mp he'
      exact .inl ⟨e, he, joined_fanOut.mp ⟨e', he', hs, ht⟩⟩
    · obtain ⟨c, hc, he'⟩ := mem_flatMap.mp he'
      cases hx : c.expand with
      | none => simp [hx] at he'
      | some s =>
        rw [hx] at he'
        exact .inr ⟨c, hc, s, hx, e', he', hs, ht⟩
  · rintro (⟨e, he, hab⟩ | ⟨c, hc, s, hx, hab⟩)
    · exact (joined_fanOut.mpr hab).mono fun e' he' =>
        mem_append_left _ (mem_flatMap.mpr ⟨e, he, he'⟩)
    · exact hab.mono fun e' he' =>
        mem_append_right _ (mem_flatMap.mpr ⟨c, hc, by rwa [hx]⟩)

/-! ## Simulation -/

/-- No id of the graph is also the id of a node that expansion makes. -/
structure Separate (nodes : List Node) (edges : List Edge) : Prop where
  ids : ∀ n ∈ nodes, n.id ∉ partIds nodes
  sources : ∀ e ∈ edges, e.source ∉ partIds nodes
  targets : ∀ e ∈ edges, e.target ∉ partIds nodes

/-- The new id stands for the old one: it belongs to the strategy of that id, or it is that id. -/
def Represents (nodes : List Node) (new old : String) : Prop :=
  (new = old ∧ new ∉ partIds nodes) ∨
    ∃ c ∈ nodes, c.isComposite = true ∧ c.id = old ∧ ∃ v ∈ expandNode c, v.id = new

theorem Represents.unique {y : String} (hx : Represents nodes a x) (hy : Represents nodes a y) :
    x = y := by
  rcases hx with ⟨rfl, hpart⟩ | ⟨c, hc, hcomp, rfl, v, hv, hid⟩
  · rcases hy with ⟨rfl, -⟩ | ⟨d, hd, hdcomp, -, w, hw, hwid⟩
    · rfl
    · exact absurd (mem_partIds.mpr ⟨d, hd, hdcomp, w, hw, hwid⟩) hpart
  · rcases hy with ⟨-, hpart⟩ | ⟨d, hd, hdcomp, rfl, w, hw, hwid⟩
    · exact absurd (mem_partIds.mpr ⟨c, hc, hcomp, v, hv, hid⟩) hpart
    · obtain ⟨r, hr, hvr⟩ := exists_role_of_mem_expandNode hcomp hv
      obtain ⟨q, hq, hwq⟩ := exists_role_of_mem_expandNode hdcomp hw
      have hparts : partId c.id r = partId d.id q := by
        rw [← hvr, ← hwq, hid, hwid]
      exact (partId_inj (underscore_not_mem_partRoles r hr) (underscore_not_mem_partRoles q hq)
        hparts).1

theorem represents_of_mem_standIns (hx : x ∉ partIds nodes) (ha : a ∈ standIns nodes x) :
    Represents nodes a x := by
  rcases standIns_cases nodes x with ⟨-, h⟩ | ⟨c, hc, hcomp, hid, s, orders, _, _, hs, h⟩
  · rw [h, mem_singleton] at ha
    subst ha
    exact .inl ⟨rfl, hx⟩
  · rw [h] at ha
    obtain ⟨v, hv, hva⟩ := mem_map.mp ha
    refine .inr ⟨c, hc, hcomp, hid, v, ?_, hva⟩
    rw [expandNode, hs.expand]
    show v ∈ s.nodes
    rw [hs.nodes]
    exact mem_append_left _ (mem_append_left _ hv)

theorem Expands.ends_mem (hs : Expands c s orders stop target)
    (h : Joined s.edges a b) : (∃ v ∈ expandNode c, v.id = a) ∧ ∃ v ∈ expandNode c, v.id = b := by
  have hnodes : expandNode c = s.signals ++ orders ++ [stop, target] := by
    rw [expandNode, hs.expand]
    exact hs.nodes
  rw [hnodes]
  rcases (hs.joined a b).mp h with ⟨v, hv, o, ho, rfl, rfl⟩ | ⟨o, ho, rfl, rfl | rfl⟩
  · exact ⟨⟨v, by simp [hv], rfl⟩, o, by simp [ho], rfl⟩
  · exact ⟨⟨o, by simp [ho], rfl⟩, stop, by simp, rfl⟩
  · exact ⟨⟨o, by simp [ho], rfl⟩, target, by simp, rfl⟩

theorem joined_project (hsep : Separate nodes edges) (h : Joined (expand nodes edges).edges a b)
    (hx : Represents nodes a x) : ∃ y, Represents nodes b y ∧ (x = y ∨ Joined edges x y) := by
  rcases joined_expand.mp h with ⟨e, he, ha, hb⟩ | ⟨c, hc, s, hexp, hab⟩
  · have hax := represents_of_mem_standIns (hsep.sources e he) ha
    refine ⟨e.target, represents_of_mem_standIns (hsep.targets e he) hb, .inr ?_⟩
    exact ⟨e, he, hax.unique hx, rfl⟩
  · have hcomp : c.isComposite = true := by
      by_contra hne
      rw [Node.expand_eq_none (Bool.not_eq_true _ ▸ hne)] at hexp
      cases hexp
    obtain ⟨s', orders, stop, target, hs⟩ := Node.exists_expands hcomp
    obtain rfl : s' = s := Option.some.inj (hs.expand.symm.trans hexp)
    obtain ⟨hva, hvb⟩ := hs.ends_mem hab
    have hac : Represents nodes a c.id := .inr ⟨c, hc, hcomp, rfl, hva⟩
    exact ⟨c.id, .inr ⟨c, hc, hcomp, rfl, hvb⟩, .inl (hx.unique hac)⟩

theorem leads_project (hsep : Separate nodes edges) (h : Leads (expand nodes edges).edges a b)
    (hx : Represents nodes a x) : ∃ y, Represents nodes b y ∧ Leads edges x y := by
  induction h with
  | refl => exact ⟨x, hx, .refl⟩
  | tail _ hbc ih =>
    obtain ⟨y, hy, hpath⟩ := ih
    obtain ⟨z, hz, rfl | hyz⟩ := joined_project hsep hbc hy
    · exact ⟨y, hz, hpath⟩
    · exact ⟨z, hz, hpath.tail hyz⟩

/-- Old paths from an id that expansion keeps lift to new paths, to every stand-in. -/
theorem leads_lift (hr : standIns nodes r = [r]) (h : Leads edges r x) :
    ∀ a ∈ standIns nodes x, Leads (expand nodes edges).edges r a := by
  induction h with
  | refl =>
    intro a ha
    rw [hr, mem_singleton] at ha
    subst ha
    exact .refl
  | @tail y z _ hyz ih =>
    intro b hb
    obtain ⟨e, he, rfl, rfl⟩ := hyz
    -- any stand-in of the source will do: the edge fans out from all of them
    obtain ⟨a, ha⟩ := exists_mem_of_ne_nil _ (standIns_ne_nil nodes e.source)
    exact (ih a ha).tail (joined_expand.mpr (.inl ⟨e, he, ha, hb⟩))

theorem leads_parts (hnodup : (nodes.map Node.id).Nodup) (hr : standIns nodes r = [r])
    (hc : c ∈ nodes) (hcomp : c.isComposite = true) (h : Leads edges r c.id) :
    ∀ v ∈ expandNode c, Leads (expand nodes edges).edges r v.id := by
  obtain ⟨s, orders, stop, target, hs⟩ := Node.exists_expands hcomp
  have inner {a b : String} (hab : Joined s.edges a b) :
      Joined (expand nodes edges).edges a b :=
    joined_expand.mpr (.inr ⟨c, hc, s, hs.expand, hab⟩)
  have hsignals : ∀ v ∈ s.signals, Leads (expand nodes edges).edges r v.id := by
    intro v hv
    refine leads_lift hr h v.id ?_
    rw [standIns_strategy hnodup hc hcomp hs]
    exact mem_map_of_mem hv
  have horders : ∀ o ∈ orders, Leads (expand nodes edges).edges r o.id := by
    intro o ho
    obtain ⟨v, hv⟩ := exists_mem_of_ne_nil _ hs.signals_ne_nil
    exact (hsignals v hv).tail (inner ((hs.joined _ _).mpr (.inl ⟨v, hv, o, ho, rfl, rfl⟩)))
  obtain ⟨o, ho⟩ := exists_mem_of_ne_nil _ hs.orders_ne_nil
  intro v hv
  rw [expandNode, hs.expand] at hv
  replace hv : v ∈ s.nodes := hv
  rw [hs.nodes] at hv
  simp only [mem_append, mem_cons, not_mem_nil, or_false] at hv
  rcases hv with (hv | hv) | rfl | rfl
  · exact hsignals v hv
  · exact horders v hv
  · exact (horders o ho).tail (inner ((hs.joined _ _).mpr (.inr ⟨o, ho, rfl, .inl rfl⟩)))
  · exact (horders o ho).tail (inner ((hs.joined _ _).mpr (.inr ⟨o, ho, rfl, .inr rfl⟩)))

/-! ## Reachability -/

/-- Parts of strategies are neither timing nor filter nodes, nor strategies. -/
theorem category_of_mem_expandNode (hc : c.isComposite = true) (hv : v ∈ expandNode c) :
    v.category ∈ [Category.indicator, .priceAction, .trading] := by
  obtain ⟨s, orders, stop, target, hs⟩ := Node.exists_expands hc
  rw [expandNode, hs.expand] at hv
  obtain ⟨p, hp, rfl⟩ := hs.plain v hv
  exact hp.category

theorem expandNode_other (h : n.isComposite = false) : expandNode n = [n] := by
  rw [expandNode, Node.expand_eq_none h]

theorem rootIds_expand (nodes : List Node) (edges : List Edge) :
    rootIds (expand nodes edges).nodes = rootIds nodes := by
  have hroots : ∀ n : Node, (expandNode n).filter Node.isRoot = [n].filter Node.isRoot := by
    intro n
    cases hn : n.isComposite with
    | false => rw [expandNode_other hn]
    | true =>
      have hself : n.isRoot = false := by
        rw [Node.isComposite, beq_iff_eq] at hn
        rw [Node.isRoot, hn]
        rfl
      rw [filter_singleton, hself, filter_eq_nil_iff.mpr]
      · rfl
      · intro v hv hroot
        have hcat := category_of_mem_expandNode hn hv
        rw [Node.isRoot, beq_iff_eq] at hroot
        rw [hroot] at hcat
        revert hcat
        decide
  show ((nodes.flatMap expandNode).filter Node.isRoot).map Node.id = _
  rw [filter_flatMap, rootIds]
  congr 1
  induction nodes with
  | nil => rfl
  | cons n ns ih =>
    rw [flatMap_cons, hroots, ih, ← filter_append]
    rfl

theorem standIns_root (hnodup : (nodes.map Node.id).Nodup) (hr : r ∈ rootIds nodes) :
    standIns nodes r = [r] ∧ ∃ n ∈ nodes, n.id = r := by
  obtain ⟨n, hn, rfl⟩ := mem_map.mp hr
  obtain ⟨hn, hroot⟩ := mem_filter.mp hn
  refine ⟨standIns_other hnodup hn ?_, n, hn, rfl⟩
  rw [Node.isRoot, beq_iff_eq] at hroot
  rw [Node.isComposite, hroot]
  rfl

/-- A path from a root to a new id is, up to what ids stand for, a path to the old one. -/
theorem leads_of_represents (hsep : Separate nodes edges) (hr : ∃ n ∈ nodes, n.id = r)
    (ha : Represents nodes a x) (h : Leads (expand nodes edges).edges r a) : Leads edges r x := by
  obtain ⟨n, hn, rfl⟩ := hr
  obtain ⟨y, hy, hpath⟩ := leads_project hsep h (.inl ⟨rfl, hsep.ids n hn⟩)
  rw [ha.unique hy]
  exact hpath

theorem mem_reachable_expand (hnodup : (nodes.map Node.id).Nodup) (hsep : Separate nodes edges)
    (hn : n ∈ nodes) (hv : v ∈ expandNode n) (hstands : Represents nodes v.id n.id)
    (hlift : ∀ r, standIns nodes r = [r] → Leads edges r n.id →
      Leads (expand nodes edges).edges r v.id) :
    v.id ∈ reachable (expand nodes edges).nodes (expand nodes edges).edges ↔
      n.id ∈ reachable nodes edges := by
  rw [mem_reachable, mem_reachable, rootIds_expand]
  by_cases hroots : rootIds nodes = []
  · have hmade : v ∈ (expand nodes edges).nodes := mem_flatMap.mpr ⟨n, hn, hv⟩
    simp only [hroots, if_true, mem_map_of_mem hmade, mem_map_of_mem hn]
  · simp only [hroots, if_false]
    refine exists_congr fun r => and_congr_right fun hr => ⟨fun hpath => ?_, fun hpath => ?_⟩
    · exact leads_of_represents hsep (standIns_root hnodup hr).2 hstands hpath
    · exact hlift r (standIns_root hnodup hr).1 hpath

theorem mem_reachable_expand_other (hnodup : (nodes.map Node.id).Nodup)
    (hsep : Separate nodes edges) (hn : n ∈ nodes) (hcomp : n.isComposite = false) :
    n.id ∈ reachable (expand nodes edges).nodes (expand nodes edges).edges ↔
      n.id ∈ reachable nodes edges := by
  refine mem_reachable_expand hnodup hsep hn (by simp [expandNode_other hcomp])
    (.inl ⟨rfl, hsep.ids n hn⟩) fun r hr hpath => leads_lift hr hpath n.id ?_
  simp [standIns_other hnodup hn hcomp]

theorem mem_reachable_expand_part (hnodup : (nodes.map Node.id).Nodup)
    (hsep : Separate nodes edges) (hc : c ∈ nodes) (hcomp : c.isComposite = true)
    (hv : v ∈ expandNode c) :
    v.id ∈ reachable (expand nodes edges).nodes (expand nodes edges).edges ↔
      c.id ∈ reachable nodes edges :=
  mem_reachable_expand hnodup hsep hc hv (.inr ⟨c, hc, hcomp, rfl, v, hv, rfl⟩) fun _ hr hpath =>
    leads_parts hnodup hr hc hcomp hpath v hv

theorem mem_keepLive_part (hc : c ∈ nodes) (hcomp : c.isComposite = true) (hv : v ∈ expandNode c) :
    v ∈ keepLive (expand nodes edges).nodes (expand nodes edges).edges ↔
      v.id ∈ reachable (expand nodes edges).nodes (expand nodes edges).edges := by
  have hmade : v ∈ (expand nodes edges).nodes := mem_flatMap.mpr ⟨c, hc, hv⟩
  have hpath : v.isAlwaysLive = false := by
    have hcat := category_of_mem_expandNode hcomp hv
    rw [Node.isAlwaysLive]
    cases h : v.category <;> rw [h] at hcat <;> revert hcat <;> decide
  rw [keepLive, mem_filter, Node.isLive, hpath, Bool.or_false, contains_iff_mem]
  exact and_iff_right hmade

end Graphs

/-- **Expansion preserves reachability.** If no id of a loaded graph is also the id of a node that
expansion makes, then a node that is no strategy is reachable after expansion exactly when it was
before, the parts of a strategy are reachable exactly when the strategy was, and so they live or die
together. -/
theorem reachable_expand_iff {document : Json} {g : Graph} (h : Graph.load document = .ok g)
    (hsep : Separate g.nodes g.edges) :
    let x := expand g.nodes g.edges
    (∀ n ∈ g.nodes, n.isComposite = false →
      (n.id ∈ reachable x.nodes x.edges ↔ n.id ∈ reachable g.nodes g.edges)) ∧
    (∀ c ∈ g.nodes, c.isComposite = true → ∀ v ∈ expandNode c,
      (v.id ∈ reachable x.nodes x.edges ↔ c.id ∈ reachable g.nodes g.edges)) ∧
    ∀ c ∈ g.nodes, c.isComposite = true →
      (∀ v ∈ expandNode c, v ∈ keepLive x.nodes x.edges) ∨
        ∀ v ∈ expandNode c, v ∉ keepLive x.nodes x.edges := by
  have hnodup := Graph.ids_nodup h
  refine ⟨fun n hn hcomp => mem_reachable_expand_other hnodup hsep hn hcomp,
    fun c hc hcomp v hv => mem_reachable_expand_part hnodup hsep hc hcomp hv,
    fun c hc hcomp => ?_⟩
  by_cases hlive : c.id ∈ reachable g.nodes g.edges
  · refine .inl fun v hv => ?_
    rw [mem_keepLive_part hc hcomp hv, mem_reachable_expand_part hnodup hsep hc hcomp hv]
    exact hlive
  · refine .inr fun v hv => ?_
    rw [mem_keepLive_part hc hcomp hv, mem_reachable_expand_part hnodup hsep hc hcomp hv]
    exact hlive

/-- A clock that leads to one strategy, which leads back to itself, beside a second strategy that
nothing leads to. -/
def crossoverDocument : Json :=
  .obj [("nodes", .arr [.node "clock" "always", .node "cross" "ema-crossover-entry",
    .node "turn" "rsi-reversal-entry"]),
    ("edges", .arr [.edge "clock" "cross", .edge "cross" "cross", .edge "turn" "cross"])]

def crossoverGraph : Graph := crossoverDocument.graph

theorem reachable_expand_crossover :
    Graph.load crossoverDocument = .ok crossoverGraph ∧
      Separate crossoverGraph.nodes crossoverGraph.edges ∧
      let x := expand crossoverGraph.nodes crossoverGraph.edges
      "cross__sl" ∈ reachable x.nodes x.edges ∧ "turn__sl" ∉ reachable x.nodes x.edges := by
  have hload : Graph.load crossoverDocument = .ok crossoverGraph := rfl
  have hsep : Separate crossoverGraph.nodes crossoverGraph.edges :=
    ⟨by decide, by decide, by decide⟩
  obtain ⟨-, hparts, -⟩ := reachable_expand_iff hload hsep
  have hroots : rootIds crossoverGraph.nodes = ["clock"] := by decide
  have hedges : crossoverGraph.edges = [⟨"e0", "clock", "cross"⟩, ⟨"e1", "cross", "cross"⟩,
      ⟨"e2", "turn", "cross"⟩] := by decide
  have hlive : reachable crossoverGraph.nodes crossoverGraph.edges =
      ["clock", "cross", "cross"] := by
    rw [reachable_eq, hroots, hedges]
    simp [closure, leaving, notLeaving]
  refine ⟨hload, hsep, ?_, ?_⟩
  · obtain ⟨c, hc, hid, hcomp, v, hv, hvid⟩ : ∃ c ∈ crossoverGraph.nodes, c.id = "cross" ∧
        c.isComposite = true ∧ ∃ v ∈ expandNode c, v.id = "cross__sl" := by decide
    rw [← hvid, hparts c hc hcomp v hv, hid, hlive]
    decide
  · obtain ⟨c, hc, hid, hcomp, v, hv, hvid⟩ : ∃ c ∈ crossoverGraph.nodes, c.id = "turn" ∧
        c.isComposite = true ∧ ∃ v ∈ expandNode c, v.id = "turn__sl" := by decide
    rw [← hvid, hparts c hc hcomp v hv, hid, hlive]
    decide

end TradeGraph

import Mathlib.Data.List.Find
import TradeGraph.Proofs.Deletion
import TradeGraph.Proofs.Markers
import TradeGraph.Proofs.Matching

/-!
# Renaming

A compiled program does not depend on the names of the nodes: if the ids of a graph are replaced one
to one, the program stays the same. The new nodes that expansion makes take their ids from those of
their strategies, so the correspondence of old and new ids carries over to them.
-/

namespace TradeGraph

open List

open Relator

variable {plan : EntryPlan} {signals : EntrySignals} {c n : Node}

/-! ## Renamed graphs -/

/-- The indicator that a stop names is renamed. -/
def Payload.rename (r : String → String) : Payload → Payload
  | .trading (.stopLoss p) =>
    .trading (.stopLoss { p with indicatorNodeId := p.indicatorNodeId.map r })
  | q => q

/-- The node under its new id. -/
def Node.rename (r : String → String) (n : Node) : Node :=
  { n with id := r n.id, data := { n.data with payload := n.data.payload.rename r } }

/-- The edge between the new ids. -/
def Edge.rename (r : String → String) (e : Edge) : Edge :=
  { e with source := r e.source, target := r e.target }

namespace Graph

/-- The graph with other ids. -/
def rename (g : Graph) (r : String → String) : Graph :=
  { g with nodes := g.nodes.map (Node.rename r), edges := g.edges.map (Edge.rename r) }

/-- The ids in a graph: of nodes, at the ends of edges, and of indicators that stops name. -/
def ids (g : Graph) : List String :=
  g.nodes.map Node.id ++ g.edges.flatMap (fun e => [e.source, e.target]) ++
    g.nodes.filterMap fun n => n.data.payload.stopName?

variable {g : Graph}

theorem id_mem_ids (hn : n ∈ g.nodes) : n.id ∈ g.ids :=
  mem_append_left _ (mem_append_left _ (mem_map_of_mem hn))

theorem ends_mem_ids {e : Edge} (he : e ∈ g.edges) : e.source ∈ g.ids ∧ e.target ∈ g.ids := by
  have hends : ∀ x ∈ [e.source, e.target], x ∈ g.ids := fun x hx =>
    mem_append_left _ (mem_append_right _ (mem_flatMap.mpr ⟨e, he, hx⟩))
  exact ⟨hends _ (by simp), hends _ (by simp)⟩

theorem stopName_mem_ids (hn : n ∈ g.nodes) {name : String}
    (hname : n.data.payload.stopName? = some name) : name ∈ g.ids :=
  mem_append_right _ (mem_filterMap.mpr ⟨n, hn, hname⟩)

end Graph

/-! ## Parts of strategies -/

/-- The parts differ only in corresponding ids. -/
structure Part.Matches (S : String → String → Prop) (p p' : Part) : Prop where
  role : p.role = p'.role
  label : p.label = p'.label
  flags : p.flags = p'.flags
  payload : p.payload.Matches S p'.payload

section Parts

variable {S : String → String → Prop} {o o' : Origin}
  (hid : S o.id o'.id ∧ (o.id = "" ↔ o'.id = "")) (hkind : o.kind = o'.kind)
  (hcommon : o.common = o'.common)

include hid hkind hcommon

theorem Origin.signals_matches (plan : EntryPlan) (signals : EntrySignals) :
    Forall₂ (Part.Matches S) (o.signals plan signals) (o'.signals plan signals) := by
  obtain ⟨id, kind, common⟩ := o
  obtain ⟨id', kind', common'⟩ := o'
  obtain rfl : kind = kind' := hkind
  obtain rfl : common = common' := hcommon
  cases signals with
  | emaCrossover e =>
    refine rel_append (rel_append (.cons ?_ (.cons ?_ .nil))
      (forall₂_ite (.cons ?_ .nil))) (forall₂_ite (.cons ?_ .nil)) <;>
      exact ⟨rfl, rfl, rfl, .indicator ⟨rfl, .some hid⟩⟩
  | trendPullback e =>
    refine rel_append (.cons ?_ (.cons ?_ .nil)) (forall₂_ite (.cons ?_ .nil)) <;>
      exact ⟨rfl, rfl, rfl, .indicator ⟨rfl, .some hid⟩⟩
  | rsiReversal e =>
    refine .cons ?_ (forall₂_ite (.cons ?_ .nil)) <;>
      exact ⟨rfl, rfl, rfl, .indicator ⟨rfl, .some hid⟩⟩
  | macdCrossover e => exact .cons ⟨rfl, rfl, rfl, .indicator ⟨rfl, .some hid⟩⟩ .nil
  | rangeBreakout e =>
    refine .cons ⟨rfl, rfl, rfl, .other nofun nofun⟩ (forall₂_ite (.cons ?_ .nil))
    exact ⟨rfl, rfl, rfl, .indicator ⟨rfl, .some hid⟩⟩

omit hid hkind in
theorem Origin.plan_matches (plan : EntryPlan) :
    Forall₂ (Part.Matches S) (o.orders plan) (o'.orders plan) ∧
      (o.stop plan).Matches S (o'.stop plan) ∧ (o.target plan).Matches S (o'.target plan) := by
  obtain ⟨id, kind, common⟩ := o
  obtain ⟨id', kind', common'⟩ := o'
  obtain rfl : common = common' := hcommon
  refine ⟨rel_append (forall₂_ite (.cons ⟨rfl, rfl, rfl, .other nofun nofun⟩ .nil))
    (forall₂_ite (.cons ⟨rfl, rfl, rfl, .other nofun nofun⟩ .nil)),
    ⟨rfl, rfl, rfl, .stop ⟨rfl, .none⟩⟩, ⟨rfl, rfl, rfl, .other nofun nofun⟩⟩

theorem Origin.roles_eq (plan : EntryPlan) (signals : EntrySignals) :
    (o.parts plan signals).map Part.role = (o'.parts plan signals).map Part.role := by
  obtain ⟨horders, hstop, htarget⟩ := Origin.plan_matches (S := S) hcommon plan
  have hparts : Forall₂ (Part.Matches S) (o.parts plan signals) (o'.parts plan signals) :=
    rel_append (rel_append (Origin.signals_matches hid hkind hcommon plan signals) horders)
      (.cons hstop (.cons htarget .nil))
  exact forall₂_eq_eq_eq ▸ rel_map (fun _ _ hpart => Part.Matches.role hpart) hparts

end Parts

/-! ## Corresponding ids -/

/-- The empty text is read as a missing id: it is the id of a strategy, or the name that the first
live stop gives to its indicator while an order is live. -/
inductive Graph.ReadsEmpty (g : Graph) : Prop
  | strategy {c : Node} : c ∈ g.nodes → c.isComposite = true → c.id = "" → ReadsEmpty g
  | stop {m n : Node} {p : StopLoss} : m ∈ g.liveNodes → m.kind = .placeBuy ∨ m.kind = .placeSell →
      g.firstStop? = some n → n.data.payload = .trading (.stopLoss p) → p.method = .indicator →
        p.indicatorNodeId = some "" → ReadsEmpty g

/-- The map gives the ids of the graph other names, one to one. No id is that of a part of a
strategy, before and after, and the empty text stays as it is where it is read as a missing id. -/
structure Graph.Renames (g : Graph) (r : String → String) : Prop where
  inj : ∀ x ∈ g.ids, ∀ y ∈ g.ids, r x = r y → x = y
  nonempty : ∀ x ∈ g.ids, x ≠ "" → r x ≠ ""
  empty : g.ReadsEmpty → r "" = ""
  before : ∀ x ∈ g.ids, x ∉ partIds g.nodes
  after : ∀ x ∈ (g.rename r).ids, x ∉ partIds (g.rename r).nodes

/-- Old and new ids. Those of the parts of a strategy follow the id of the strategy. -/
inductive Graph.Corresponds (g : Graph) (r : String → String) : String → String → Prop
  | own {x : String} : x ∈ g.ids → Corresponds g r x (r x)
  | part {c : Node} {role : String} : c ∈ g.nodes → c.isComposite = true → role ∈ partRoles →
      partId c.id role ∈ (expandNode c).map Node.id →
      partId (r c.id) role ∈ (expandNode (c.rename r)).map Node.id →
      Corresponds g r (partId c.id role) (partId (r c.id) role)

section Corresponding

variable {g : Graph} {r : String → String}

theorem Payload.rename_eq_self {q : Payload} (h : q.role? ≠ some .stopLoss) : q.rename r = q := by
  unfold Payload.rename
  split
  · exact absurd rfl h
  · rfl

theorem Payload.kind_rename (q : Payload) : (q.rename r).kind = q.kind := by
  by_cases h : q.role? = some .stopLoss
  · obtain ⟨p, rfl⟩ := Payload.of_role h
    rfl
  · rw [Payload.rename_eq_self h]

theorem Payload.stopName?_rename (q : Payload) : (q.rename r).stopName? = q.stopName?.map r := by
  by_cases h : q.role? = some .stopLoss
  · obtain ⟨p, rfl⟩ := Payload.of_role h
    rfl
  · have hnone : q.stopName? = none := by
      unfold Payload.stopName?
      split
      · exact absurd rfl h
      · rfl
    rw [Payload.rename_eq_self h, hnone]
    rfl

theorem Node.isComposite_rename (n : Node) : (n.rename r).isComposite = n.isComposite := by
  have hkind : (n.rename r).kind = n.kind := Payload.kind_rename n.data.payload
  rw [Node.isComposite, Node.isComposite, Node.category, Node.category, hkind]

theorem Graph.ids_rename (g : Graph) (r : String → String) : (g.rename r).ids = g.ids.map r := by
  have hends : (g.edges.map (Edge.rename r)).flatMap (fun e => [e.source, e.target]) =
      (g.edges.flatMap fun e => [e.source, e.target]).map r := by
    rw [flatMap_map, map_flatMap]
    rfl
  have hnames : (g.nodes.map (Node.rename r)).filterMap (fun n => n.data.payload.stopName?) =
      (g.nodes.filterMap fun n => n.data.payload.stopName?).map r := by
    rw [filterMap_map, map_filterMap]
    exact congrArg (List.filterMap · g.nodes) (funext fun n => Payload.stopName?_rename _)
  rw [Graph.ids, Graph.rename, hends, hnames, map_map, Graph.ids, map_append,
    map_append, map_map]
  rfl

theorem Graph.mem_ids_rename {x : String} (hx : x ∈ g.ids) : r x ∈ (g.rename r).ids := by
  rw [Graph.ids_rename]
  exact mem_map_of_mem hx

theorem mem_partIds_of_composite {nodes : List Node} {x : String} (hc : c ∈ nodes)
    (hcomp : c.isComposite = true) (hx : x ∈ (expandNode c).map Node.id) : x ∈ partIds nodes := by
  obtain ⟨v, hv, hid⟩ := mem_map.mp hx
  exact mem_partIds.mpr ⟨c, hc, hcomp, v, hv, hid⟩

theorem Graph.Renames.biUnique (hr : g.Renames r) : BiUnique (g.Corresponds r) := by
  have hold {c : Node} {x : String} (hc : c ∈ g.nodes) (hcomp : c.isComposite = true)
      (hx : x ∈ g.ids) : x ∉ (expandNode c).map Node.id :=
    fun hmem => hr.before x hx (mem_partIds_of_composite hc hcomp hmem)
  have hnew {c : Node} {x : String} (hc : c ∈ g.nodes) (hcomp : c.isComposite = true)
      (hx : x ∈ g.ids) : r x ∉ (expandNode (c.rename r)).map Node.id :=
    fun hmem => hr.after (r x) (g.mem_ids_rename hx)
      (mem_partIds_of_composite (mem_map_of_mem hc) (c.isComposite_rename.trans hcomp) hmem)
  have hrole {a b role role' : String} (ha : role ∈ partRoles) (hb : role' ∈ partRoles)
      (h : partId a role = partId b role') : a = b ∧ role = role' :=
    partId_inj (underscore_not_mem_partRoles _ ha) (underscore_not_mem_partRoles _ hb) h
  constructor
  · intro a b x hab hxb
    cases hab with
    | own ha =>
      generalize hx : r a = x at hxb
      cases hxb with
      | own hb => exact hr.inj a ha b hb hx
      | part hc hcomp _ _ hmem => exact absurd (hx ▸ hmem) (hnew hc hcomp ha)
    | @part c role hc hcomp hroles hmem hmem' =>
      generalize hx : partId (r c.id) role = x at hxb hmem'
      cases hxb with
      | own hb => exact absurd hmem' (hnew hc hcomp hb)
      | part hd _ hroles' _ _ =>
        obtain ⟨hid, rfl⟩ := hrole hroles hroles' hx
        rw [hr.inj _ (Graph.id_mem_ids hc) _ (Graph.id_mem_ids hd) hid]
  · intro a b x hab hax
    cases hab with
    | own ha =>
      cases hax with
      | own => rfl
      | part hc hcomp _ hmem => exact absurd hmem (hold hc hcomp ha)
    | @part c role hc hcomp hroles hmem =>
      generalize hx : partId c.id role = y at hax hmem
      cases hax with
      | own ha => exact absurd hmem (hold hc hcomp ha)
      | part hd _ hroles' =>
        obtain ⟨hid, rfl⟩ := hrole hroles hroles' hx
        rw [hid]

/-! ## Expansion -/

def Edge.ends (e : Edge) : String × String := (e.source, e.target)

theorem edges_match {S : String → String → Prop} {edges edges' : List Edge}
    (h : Forall₂ (fun a b => S a.1 b.1 ∧ S a.2 b.2) (edges.map Edge.ends)
      (edges'.map Edge.ends)) : Forall₂ (Edge.Matches S) edges edges' := by
  rw [forall₂_map_left_iff, forall₂_map_right_iff] at h
  exact h

theorem ends_zipIdx (name : Nat → String) (pairs : List (String × String)) :
    (pairs.zipIdx.map fun ((source, target), i) =>
      ({ id := name i, source, target } : Edge)).map Edge.ends = pairs := by
  rw [map_map]
  exact zipIdx_map_fst 0 pairs

theorem ends_fanOut (nodes : List Node) (e : Edge) :
    (fanOut nodes e).map Edge.ends =
      (standIns nodes e.source).flatMap fun s => (standIns nodes e.target).map fun t => (s, t) := by
  by_cases h : standIns nodes e.source = [e.source] ∧ standIns nodes e.target = [e.target]
  · simp only [fanOut, h, and_self, if_true, Edge.ends, map_cons, map_nil,
      flatMap_cons, flatMap_nil, append_nil]
  · simp only [fanOut, h, if_false]
    exact ends_zipIdx (fun i => partId e.id (toString i)) _

theorem Part.Matches.toNode {S : String → String → Prop} {p p' : Part} (h : p.Matches S p')
    {id id' : String} (hid : S (partId id p.role) (partId id' p'.role)) (position : Json) :
    (p.toNode id position).Matches S Node.SameExtras (p'.toNode id' position) where
  id := hid
  type := congrArg Kind.name h.payload.kind_eq
  common := by rw [Part.toNode, Part.toNode, h.label, h.flags]
  payload := h.payload
  extras := rfl
  position := rfl

/-- The subgraphs of a strategy under two ids match. -/
structure Subgraph.Matches (S : String → String → Prop) (s s' : Subgraph) : Prop where
  signals : Forall₂ (Node.Matches S Node.SameExtras) s.signals s'.signals
  nodes : Forall₂ (Node.Matches S Node.SameExtras) s.nodes s'.nodes
  edges : Forall₂ (Edge.Matches S) s.edges s'.edges

theorem ids_expandNode (hp : c.data.payload = .entry plan signals) : (expandNode c).map Node.id =
      ((c.origin.parts plan signals).map Part.role).map (partId c.id) := by
  rw [expandNode_eq_parts hp, map_map, map_map]
  rfl

section Strategies

variable {S : String → String → Prop} {c d : Node} (hposition : c.position = d.position)

include hposition

theorem parts_toNode_match {ps qs : List Part}
    (hids : ∀ p ∈ ps, S (partId c.id p.role) (partId d.id p.role))
    (h : Forall₂ (Part.Matches S) ps qs) :
    Forall₂ (Node.Matches S Node.SameExtras) (ps.map fun p => p.toNode c.id c.position)
      (qs.map fun p => p.toNode d.id d.position) := by
  rw [forall₂_map_left_iff, forall₂_map_right_iff, ← hposition]
  exact ((forall₂_and_left _ _).mpr ⟨hids, h⟩).imp fun p q ⟨hid, hpart⟩ =>
    hpart.toNode (hpart.role ▸ hid) c.position

/-- The subgraphs of two strategies match, if the ids of their parts correspond. -/
theorem Node.expand_matches (hc : c.data.payload = .entry plan signals)
    (hd : d.data.payload = .entry plan signals)
    (hsignals : Forall₂ (Part.Matches S) (c.origin.signals plan signals)
      (d.origin.signals plan signals)) (hcommon : c.origin.common = d.origin.common)
    (hids : ∀ p ∈ c.origin.parts plan signals, S (partId c.id p.role) (partId d.id p.role)) :
    ∃ s t, c.expand = some s ∧ d.expand = some t ∧ s.Matches S t := by
  obtain ⟨horders, hstop, htarget⟩ := Origin.plan_matches (S := S) hcommon plan
  have hnodes {ps qs : List Part} (hsub : ∀ p ∈ ps, p ∈ c.origin.parts plan signals)
      (h : Forall₂ (Part.Matches S) ps qs) :=
    parts_toNode_match hposition (fun p hp => hids p (hsub p hp)) h
  have hsignalNodes := hnodes (fun p hp => by simp [Origin.parts, hp]) hsignals
  have horderNodes := hnodes (fun p hp => by simp [Origin.parts, hp]) horders
  have hriskNodes := hnodes (fun p hp => mem_append_right _ hp)
    (.cons hstop (.cons htarget .nil))
  refine ⟨_, _, by rw [Node.expand, hc], by rw [Node.expand, hd], hsignalNodes,
    rel_append (rel_append hsignalNodes horderNodes) hriskNodes, edges_match ?_⟩
  obtain ⟨hstop, hriskNodes⟩ := forall₂_cons.mp hriskNodes
  obtain ⟨htarget, -⟩ := forall₂_cons.mp hriskNodes
  rw [wire, wire, ends_zipIdx fun i => partId c.id ("e" ++ toString i),
    ends_zipIdx fun i => partId d.id ("e" ++ toString i)]
  refine rel_append (rel_flatMap hsignalNodes fun s t hs => ?_)
    (rel_flatMap horderNodes fun o q ho => ?_)
  · exact rel_map (fun o q ho => ⟨hs.id, Node.Matches.id ho⟩) horderNodes
  · exact .cons ⟨ho.id, hstop.id⟩ (.cons ⟨ho.id, htarget.id⟩ .nil)

end Strategies

theorem Node.expand_rename (hr : g.Renames r) (hc : c ∈ g.nodes) (hcomp : c.isComposite = true) :
    ∃ s t, c.expand = some s ∧ (c.rename r).expand = some t ∧ s.Matches (g.Corresponds r) t := by
  obtain ⟨plan, signals, hp⟩ := Node.isComposite_iff.mp hcomp
  have hrenamed : (c.rename r).data.payload = .entry plan signals := by
    show c.data.payload.rename r = _
    rw [hp]
    rfl
  have hid : g.Corresponds r c.origin.id (c.rename r).origin.id ∧
      (c.origin.id = "" ↔ (c.rename r).origin.id = "") := by
    refine ⟨.own (Graph.id_mem_ids hc), fun h => ?_, fun h => ?_⟩
    · show r c.id = ""
      rw [show c.id = "" from h]
      exact hr.empty (.strategy hc hcomp h)
    · by_contra hne
      exact hr.nonempty _ (Graph.id_mem_ids hc) hne h
  have hkind : c.origin.kind = (c.rename r).origin.kind :=
    (Payload.kind_rename c.data.payload).symm
  refine Node.expand_matches rfl hp hrenamed
    (Origin.signals_matches hid hkind rfl plan signals) rfl fun p hmem => ?_
  -- the strategy has a part of this role on both sides
  have hrole : p.role ∈ (c.origin.parts plan signals).map Part.role := mem_map_of_mem hmem
  refine .part hc hcomp (Origin.parts_plain _ plan signals p hmem).role ?_ ?_
  · rw [ids_expandNode hp]
    exact mem_map_of_mem hrole
  · rw [ids_expandNode hrenamed, ← Origin.roles_eq hid hkind rfl plan signals]
    exact mem_map_of_mem hrole

theorem standIns_rename (hr : g.Renames r) {x : String} (hx : x ∈ g.ids) :
    Forall₂ (g.Corresponds r) (standIns g.nodes x) (standIns (g.rename r).nodes (r x)) := by
  have hfound : (g.rename r).nodes.filter (fun n => n.isComposite && n.id == r x) =
      (g.nodes.filter fun n => n.isComposite && n.id == x).map (Node.rename r) := by
    rw [Graph.rename, filter_map]
    refine congrArg _ (filter_congr fun n hn => ?_)
    have hid : (r n.id == r x) = (n.id == x) := by
      rw [Bool.eq_iff_iff, beq_iff_eq, beq_iff_eq]
      exact ⟨hr.inj _ (Graph.id_mem_ids hn) _ hx, congrArg r⟩
    show ((n.rename r).isComposite && r n.id == r x) = _
    rw [Node.isComposite_rename, hid]
  rw [standIns, standIns, hfound, getLast?_map]
  cases hlast : (g.nodes.filter fun n => n.isComposite && n.id == x).getLast? with
  | none => exact .cons (.own hx) .nil
  | some c =>
    obtain ⟨hc, hcomp⟩ := mem_filter.mp (mem_of_getLast? hlast)
    rw [Bool.and_eq_true] at hcomp
    obtain ⟨s, s', hs, hs', hmatch⟩ := Node.expand_rename hr hc hcomp.1
    simp only [Option.map_some, hs, hs', Option.getD_some]
    exact ids_matches hmatch.signals

theorem fanOut_rename (hr : g.Renames r) {e : Edge} (he : e ∈ g.edges) :
    Forall₂ (Edge.Matches (g.Corresponds r)) (fanOut g.nodes e)
      (fanOut (g.rename r).nodes (e.rename r)) := by
  have hends := Graph.ends_mem_ids he
  refine edges_match ?_
  rw [ends_fanOut, ends_fanOut]
  refine rel_flatMap (standIns_rename hr hends.1) fun s s' hs => ?_
  exact rel_map (fun t t' ht => ⟨hs, ht⟩) (standIns_rename hr hends.2)

theorem Node.Unmarked.matches_rename (h : n.Unmarked) (hn : n ∈ g.nodes) :
    n.Matches (g.Corresponds r) Node.SameExtras (n.rename r) where
  id := .own (Graph.id_mem_ids hn)
  type := rfl
  common := rfl
  payload := by
    show n.data.payload.Matches (g.Corresponds r) (n.data.payload.rename r)
    by_cases hstop : n.data.payload.role? = some .stopLoss
    · obtain ⟨p, hp⟩ := Payload.of_role hstop
      have hname (name : String) (h : p.indicatorNodeId = some name) : name ∈ g.ids :=
        Graph.stopName_mem_ids hn (by rw [hp]; exact h)
      rw [hp]
      refine .stop ⟨rfl, ?_⟩
      show Option.Rel _ p.indicatorNodeId (p.indicatorNodeId.map r)
      cases hid : p.indicatorNodeId with
      | none => exact .none
      | some name => exact .some (.own (hname name hid))
    · rw [Payload.rename_eq_self hstop]
      by_cases hindicator : n.data.payload.role? = some .indicator
      · obtain ⟨signal, indicator, hp⟩ := Payload.of_role hindicator
        rw [hp]
        refine .indicator ⟨rfl, ?_⟩
        rw [(h signal indicator hp).strategyId]
        exact .none
      · exact .other hindicator hstop
  extras := rfl
  position := rfl

/-- **Expansion of the renamed graph** matches that of the graph. -/
theorem expand_matches (hmarks : ∀ n ∈ g.nodes, n.Unmarked) (hr : g.Renames r) :
    Forall₂ (Node.Matches (g.Corresponds r) Node.SameExtras) (expand g.nodes g.edges).nodes
        (expand (g.rename r).nodes (g.rename r).edges).nodes ∧
      Forall₂ (Edge.Matches (g.Corresponds r)) (expand g.nodes g.edges).edges
        (expand (g.rename r).nodes (g.rename r).edges).edges := by
  have hnodes : Forall₂ (fun n m => n ∈ g.nodes ∧ m = n.rename r) g.nodes (g.rename r).nodes :=
    forall₂_map_right_iff.mpr (forall₂_same.mpr fun n hn => ⟨hn, rfl⟩)
  have hedges : Forall₂ (fun e e' => e ∈ g.edges ∧ e' = e.rename r) g.edges
      (g.rename r).edges :=
    forall₂_map_right_iff.mpr (forall₂_same.mpr fun e he => ⟨he, rfl⟩)
  constructor
  · refine rel_flatMap hnodes fun n m hnm => ?_
    obtain ⟨hn, rfl⟩ := hnm
    cases hcomp : n.isComposite with
    | false =>
      rw [expandNode_other hcomp, expandNode_other (n.isComposite_rename.trans hcomp)]
      exact .cons ((hmarks n hn).matches_rename hn) .nil
    | true =>
      obtain ⟨s, s', hs, hs', hmatch⟩ := Node.expand_rename hr hn hcomp
      rw [expandNode, expandNode, hs, hs']
      exact hmatch.nodes
  · refine rel_append (rel_flatMap hedges fun e e' hee => ?_)
      (rel_flatMap hnodes fun n m hnm => ?_)
    · obtain ⟨he, rfl⟩ := hee
      exact fanOut_rename hr he
    · obtain ⟨hn, rfl⟩ := hnm
      cases hcomp : n.isComposite with
      | false =>
        rw [Node.expand_eq_none hcomp, Node.expand_eq_none (n.isComposite_rename.trans hcomp)]
        exact .nil
      | true =>
        obtain ⟨s, s', hs, hs', hmatch⟩ := Node.expand_rename hr hn hcomp
        rw [hs, hs']
        exact hmatch.edges

theorem Graph.Renames.empty_iff (hr : g.Renames r) {name name' : String}
    (h : g.Corresponds r name name') (hempty : name = "" → g.ReadsEmpty) :
    name = "" ↔ name' = "" := by
  have hpart (id role : String) : partId id role ≠ "" := fun heq => by
    have hlength := congrArg (List.length ∘ String.toList) heq
    simp [partId] at hlength
  cases h with
  | own hx =>
    refine ⟨fun heq => ?_, fun heq => ?_⟩
    · rw [heq]
      exact hr.empty (hempty heq)
    · by_contra hne
      exact hr.nonempty name hx hne heq
  | part => exact iff_of_false (hpart _ _) (hpart _ _)

end Corresponding

/-- **The names of nodes do not matter.** If the ids of a graph whose nodes set no marker are
replaced one to one, the graph compiles exactly if it did before, and to the same program with the
same source text. -/
theorem compile_rename {g : Graph} {r : String → String} (hmarks : ∀ n ∈ g.nodes, n.Unmarked)
    (hr : g.Renames r) (project : String) (options : Options) (c : Compiled) :
    (g.compile project options).result = .ok c ↔
      ((g.rename r).compile project options).result = .ok c := by
  obtain ⟨hnodes, hedges⟩ := expand_matches hmarks hr
  have hids : Forall₂ (g.Corresponds r) (g.nodes.map Node.id)
      ((g.rename r).nodes.map Node.id) := by
    rw [Graph.rename, map_map, forall₂_map_left_iff, forall₂_map_right_iff,
      forall₂_same]
    exact fun n hn => .own (Graph.id_mem_ids hn)
  have hextras : ExtrasAgree g.liveNodes (g.rename r).liveNodes :=
    .of_sameExtras hr.biUnique (keepLive_matches hr.biUnique hnodes hedges)
  refine (Graph.compile_matches hr.biUnique hids hnodes hedges rfl hextras
    (fun hentry n p name name' hstop hp hmethod hname hcorr => ?_) project options).ok_iff c
  obtain ⟨m, hm, horder⟩ := g.hasEntry_iff.mp hentry
  rw [g.head_stopLoss] at hstop
  exact hr.empty_iff hcorr fun hblank =>
    .stop hm horder hstop hp hmethod (hname.trans (congrArg some hblank))

/-- A stop at a moving average beside a strategy that the average leads to. -/
def anchoredGraph : Graph :=
  (Graph.load (.obj [("nodes", .arr [
    .node "stop" "stop-loss" [("method", .str "INDICATOR"), ("indicatorNodeId", .str "average")],
    .node "average" "moving-average", .node "cross" "ema-crossover-entry"]),
    ("edges", .arr [.edge "average" "cross"])])).toOption.getD {}

theorem compile_rename_anchored :
    (∀ n ∈ anchoredGraph.nodes, n.Unmarked) ∧ anchoredGraph.Renames (fun x => x ++ x) ∧
      ∃ c, (anchoredGraph.compile "Test" {}).result = .ok c ∧
        ((anchoredGraph.rename fun x => x ++ x).compile "Test" {}).result = .ok c := by
  have hmarks : ∀ n ∈ anchoredGraph.nodes, n.Unmarked := by decide
  have hr : anchoredGraph.Renames fun x => x ++ x :=
    { inj := by decide
      nonempty := by decide
      empty := fun _ => rfl
      before := by decide
      after := by decide }
  have hok : (anchoredGraph.compile "Test" {}).result.toOption.map (fun _ => ()) = some () := by
    decide +kernel
  obtain ⟨c, hc, -⟩ := Compilation.exists_of_map hok
  exact ⟨hmarks, hr, c, hc, (compile_rename hmarks hr "Test" {} c).mp hc⟩

/-- An order and a stop whose name for its indicator is empty. -/
def blankGraph : Graph :=
  (Graph.load (.obj [("nodes", .arr [.node "buy" "place-buy",
    .node "stop" "stop-loss" [("method", .str "INDICATOR"),
      ("indicatorNodeId", .str "")]])])).toOption.getD {}

/-- A name that is empty is none, so it does not stay one under another name: the graph compiles,
and the renamed one does not. -/
theorem blank_name_not_renamed :
    let r : String → String := fun x => x ++ "1"
    (∀ n ∈ blankGraph.nodes, n.Unmarked) ∧
      (∀ x ∈ blankGraph.ids, ∀ y ∈ blankGraph.ids, r x = r y → x = y) ∧
      (∀ x ∈ blankGraph.ids, r x ≠ "") ∧
      (∀ x ∈ blankGraph.ids, x ∉ partIds blankGraph.nodes) ∧
      (∀ x ∈ (blankGraph.rename r).ids, x ∉ partIds (blankGraph.rename r).nodes) ∧
      (∃ c, (blankGraph.compile "Test" {}).result = .ok c) ∧
      ∃ f, ((blankGraph.rename r).compile "Test" {}).result = .error f := by
  have hok : (blankGraph.compile "Test" {}).result.toOption.map (fun _ => ()) = some () := by
    decide +kernel
  obtain ⟨c, hc, -⟩ := Compilation.exists_of_map hok
  have hfails : (blankGraph.rename fun x => x ++ "1").FailsAt {} _ :=
    ⟨⟨_, mem_cons_self, .inl rfl⟩, rfl, _, rfl, .unknownName rfl rfl (by decide)⟩
  obtain ⟨d, hd⟩ := Graph.compile_error "Test" hfails
  exact ⟨by decide, by decide, by decide, by decide, by decide, ⟨c, hc⟩, _, hd⟩

end TradeGraph

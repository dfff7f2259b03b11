import Mathlib.Data.List.Pairwise
import TradeGraph.Proofs.Renaming

/-!
# Ids after expansion

The nodes that replace an entry strategy are named after it: its id, two underscores, a role. Roles
have no underscores, so the strategy can be read off such a name, even if the ids of strategies hold
underscores and roles themselves. Ids of parts therefore clash with nothing but ids that the
document gives to other nodes.
-/

namespace TradeGraph

open List

/-! ## The parts of one strategy -/

/-- The roles of the signals of a strategy, those that it may do without included. -/
def EntrySignals.roles : EntrySignals → List String
  | .emaCrossover _ => ["ma-fast", "ma-slow", "htf-ema", "rsi-confirm"]
  | .trendPullback _ => ["trend-ema", "rsi", "adx"]
  | .rsiReversal _ => ["rsi", "trend-ema"]
  | .macdCrossover _ => ["macd"]
  | .rangeBreakout _ => ["range", "htf-ema"]

theorem sublist_optional {b : Bool} {p : Part} :
    ((if b then [p] else []).map Part.role).Sublist [p.role] := by
  cases b
  · exact nil_sublist _
  · exact List.Sublist.refl _

theorem Origin.signals_roles (o : Origin) (plan : EntryPlan) (signals : EntrySignals) :
    ((o.signals plan signals).map Part.role).Sublist signals.roles := by
  cases signals with
  | emaCrossover e =>
    simp only [Origin.signals, Origin.emaCrossover, map_append]
    exact ((List.Sublist.refl ["ma-fast", "ma-slow"]).append sublist_optional).append
      sublist_optional
  | trendPullback e =>
    simp only [Origin.signals, Origin.trendPullback, map_append]
    exact (List.Sublist.refl ["trend-ema", "rsi"]).append sublist_optional
  | rsiReversal e =>
    simp only [Origin.signals, Origin.rsiReversal, map_cons]
    exact sublist_optional.cons_cons "rsi"
  | macdCrossover e => exact List.Sublist.refl _
  | rangeBreakout e =>
    simp only [Origin.signals, Origin.rangeBreakout, map_cons]
    exact sublist_optional.cons_cons "range"

theorem Origin.orders_roles (o : Origin) (plan : EntryPlan) :
    ((o.orders plan).map Part.role).Sublist ["buy", "sell"] := by
  rw [Origin.orders, map_append]
  exact (sublist_optional (p := o.order plan .buy)).append
    (sublist_optional (p := o.order plan .sell))

theorem Origin.nodup_roles (o : Origin) (plan : EntryPlan) (signals : EntrySignals) :
    ((o.parts plan signals).map Part.role).Nodup := by
  have hroles : (signals.roles ++ ["buy", "sell"] ++ ["sl", "tp"]).Nodup := by
    cases signals <;> simp [EntrySignals.roles]
  refine hroles.sublist ?_
  rw [Origin.parts, map_append, map_append]
  exact ((o.signals_roles plan signals).append (o.orders_roles plan)).append (List.Sublist.refl _)

theorem nodup_parts {c : Node} (hc : c.isComposite = true) :
    ((expandNode c).map Node.id).Nodup := by
  obtain ⟨plan, signals, hp⟩ := Node.isComposite_iff.mp hc
  rw [ids_expandNode hp]
  have hroles := c.origin.nodup_roles plan signals
  refine hroles.map_on fun r hr q hq heq => ?_
  obtain ⟨p, hmem, rfl⟩ := mem_map.mp hr
  obtain ⟨p', hmem', rfl⟩ := mem_map.mp hq
  have hplain := (Origin.parts_plain _ plan signals p hmem).role
  have hplain' := (Origin.parts_plain _ plan signals p' hmem').role
  exact (partId_inj (underscore_not_mem_partRoles _ hplain)
    (underscore_not_mem_partRoles _ hplain') heq).2

/-! ## Parts and other nodes -/

theorem disjoint_parts {c d : Node} (hc : c.isComposite = true) (hd : d.isComposite = true)
    (hne : c.id ≠ d.id) : List.Disjoint ((expandNode c).map Node.id)
    ((expandNode d).map Node.id) := by
  intro x hx hx'
  obtain ⟨v, hv, rfl⟩ := mem_map.mp hx
  obtain ⟨w, hw, hid⟩ := mem_map.mp hx'
  obtain ⟨r, hr, hvr⟩ := exists_role_of_mem_expandNode hc hv
  obtain ⟨q, hq, hwq⟩ := exists_role_of_mem_expandNode hd hw
  rw [hvr, hwq] at hid
  exact hne (partId_inj (underscore_not_mem_partRoles q hq) (underscore_not_mem_partRoles r hr)
    hid).1.symm

section Nodes

variable {nodes : List Node}

theorem pairwise_disjoint_parts (hnodup : (nodes.map Node.id).Nodup) :
    (nodes.filter Node.isComposite).Pairwise fun c d =>
      List.Disjoint ((expandNode c).map Node.id) ((expandNode d).map Node.id) := by
  have hids := (pairwise_map.mp hnodup).filter Node.isComposite
  refine hids.imp_of_mem fun hc hd hne => ?_
  exact disjoint_parts (mem_filter.mp hc).2 (mem_filter.mp hd).2 hne

theorem mem_ids_expandNode {n : Node} (hn : n ∈ nodes) {x : String}
    (hx : x ∈ (expandNode n).map Node.id) :
    (n.isComposite = false ∧ x = n.id) ∨ (n.isComposite = true ∧ x ∈ partIds nodes) := by
  cases hcomp : n.isComposite with
  | true =>
    right
    exact ⟨rfl, mem_partIds_of_composite hn hcomp hx⟩
  | false =>
    left
    rw [expandNode_other hcomp] at hx
    exact ⟨rfl, mem_singleton.mp hx⟩

/-- If no other node has the id of a part, what replaces two nodes has different ids. -/
theorem disjoint_replacements (hfree : ∀ n ∈ nodes, n.isComposite = false → n.id ∉ partIds nodes)
    {a b : Node} (ha : a ∈ nodes) (hb : b ∈ nodes) (hne : a.id ≠ b.id) :
    List.Disjoint ((expandNode a).map Node.id) ((expandNode b).map Node.id) := by
  by_cases hboth : a.isComposite = true ∧ b.isComposite = true
  · exact disjoint_parts hboth.1 hboth.2 hne
  · -- one of the two stays as it is, and its id is no part's
    intro x hx hx'
    rcases mem_ids_expandNode ha hx with ⟨hacomp, rfl⟩ | ⟨hacomp, hpart⟩
    · rcases mem_ids_expandNode hb hx' with ⟨-, heq⟩ | ⟨-, hpart⟩
      · exact hne heq
      · exact hfree a ha hacomp hpart
    · rcases mem_ids_expandNode hb hx' with ⟨hbcomp, rfl⟩ | ⟨hbcomp, -⟩
      · exact hfree b hb hbcomp hpart
      · exact hboth ⟨hacomp, hbcomp⟩

/-- **Ids stay unique** exactly if no node that is kept has the id of a part. -/
theorem nodup_ids_expand_iff (hnodup : (nodes.map Node.id).Nodup) (edges : List Edge) :
    ((expand nodes edges).nodes.map Node.id).Nodup ↔
      ∀ n ∈ nodes, n.isComposite = false → n.id ∉ partIds nodes := by
  have hids : (expand nodes edges).nodes.map Node.id =
      nodes.flatMap fun n => (expandNode n).map Node.id := by
    show (nodes.flatMap expandNode).map Node.id = _
    rw [map_flatMap]
  rw [hids, nodup_flatMap]
  constructor
  · rintro ⟨-, hpairwise⟩ n hn hcomp hpart
    obtain ⟨c, hc, hccomp, v, hv, hid⟩ := mem_partIds.mp hpart
    have hne : n ≠ c := by
      rintro rfl
      rw [hcomp] at hccomp
      cases hccomp
    have hsymm : Std.Symm fun a b : Node =>
        List.Disjoint ((expandNode a).map Node.id) ((expandNode b).map Node.id) :=
      ⟨fun _ _ h => disjoint_symm h⟩
    have hown : n.id ∈ (expandNode n).map Node.id := by
      rw [expandNode_other hcomp]
      exact mem_singleton_self _
    exact hpairwise.forall hn hc hne hown (mem_map.mpr ⟨v, hv, hid⟩)
  · intro hfree
    constructor
    · intro n _
      cases hcomp : n.isComposite with
      | true => exact nodup_parts hcomp
      | false =>
        rw [expandNode_other hcomp]
        exact nodup_singleton _
    · exact (pairwise_map.mp hnodup).imp_of_mem fun ha hb hne =>
        disjoint_replacements hfree ha hb hne

end Nodes

/-! ## Places -/

/-- What stands in the place of a node: a strategy's parts, named after it, or the node itself. -/
inductive Replacement : Node → List Node → Prop
  | kept {n : Node} : n.isComposite = false → Replacement n [n]
  | parts {c : Node} {s : Subgraph} : c.isComposite = true → c.expand = some s →
      s.nodes ≠ [] → (∀ v ∈ s.nodes, ∃ role ∈ partRoles, v.id = partId c.id role) →
      Replacement c s.nodes

theorem replacement_expandNode (n : Node) : Replacement n (expandNode n) := by
  cases hcomp : n.isComposite with
  | false =>
    rw [expandNode_other hcomp]
    exact .kept hcomp
  | true =>
    obtain ⟨s, orders, stop, target, hs⟩ := Node.exists_expands hcomp
    have hnodes : expandNode n = s.nodes := by rw [expandNode, hs.expand]
    rw [hnodes]
    refine .parts hcomp hs.expand ?_ fun v hv => ?_
    · rw [hs.nodes]
      simp
    · exact exists_role_of_mem_expandNode hcomp (hnodes ▸ hv)

theorem exists_blocks (nodes : List Node) (edges : List Edge) :
    ∃ blocks, Forall₂ Replacement nodes blocks ∧
      (expand nodes edges).nodes = blocks.flatten := by
  refine ⟨nodes.map expandNode, ?_, flatMap_def⟩
  induction nodes with
  | nil => exact .nil
  | cons n ns ih => exact .cons (replacement_expandNode n) ih

theorem sublist_of_replacements {nodes : List Node} {blocks : List (List Node)}
    (h : Forall₂ Replacement nodes blocks) :
    (nodes.filter fun n => !n.isComposite).Sublist blocks.flatten := by
  induction h with
  | nil => exact List.Sublist.refl _
  | @cons n block ns blocks hn _ ih =>
    cases hn with
    | kept hcomp =>
      rw [filter_cons_of_pos (by simp [hcomp]), flatten_cons]
      exact ih.cons_cons n
    | parts hcomp =>
      rw [filter_cons_of_neg (by simp [hcomp]), flatten_cons]
      exact ih.trans (sublist_append_right _ _)

/-- **Ids stay unique exactly when they can.** In a loaded graph the parts of two strategies never
share an id, nor do two parts of one; so the ids after expansion differ if and only if no node that
is kept has the id of a part. Each strategy is replaced in its place by the block of its parts, and
the other nodes keep their order. -/
theorem ids_expand_unique {document : Json} {g : Graph} (hload : Graph.load document = .ok g) :
    let expanded := (expand g.nodes g.edges).nodes
    ((g.nodes.filter Node.isComposite).Pairwise fun c d =>
      List.Disjoint ((expandNode c).map Node.id) ((expandNode d).map Node.id)) ∧
    (∀ c ∈ g.nodes, c.isComposite = true → ((expandNode c).map Node.id).Nodup) ∧
    ((expanded.map Node.id).Nodup ↔
      ∀ n ∈ g.nodes, n.isComposite = false → n.id ∉ partIds g.nodes) ∧
    (∃ blocks, Forall₂ Replacement g.nodes blocks ∧ expanded = blocks.flatten) ∧
    (g.nodes.filter fun n => !n.isComposite).Sublist expanded := by
  have hnodup := Graph.ids_nodup hload
  obtain ⟨blocks, hblocks, hflat⟩ := exists_blocks g.nodes g.edges
  refine ⟨pairwise_disjoint_parts hnodup, fun c _ hcomp => nodup_parts hcomp,
    nodup_ids_expand_iff hnodup g.edges, ⟨blocks, hblocks, hflat⟩, ?_⟩
  rw [hflat]
  exact sublist_of_replacements hblocks

/-- A strategy that is called like a part of another one, and a node that is called like a part of
the first. -/
def nestedDocument : Json :=
  .obj [("nodes", .arr [.node "a" "rsi-reversal-entry", .node "clock" "always",
    .node "a__rsi" "rsi-reversal-entry", .node "a__rsi__tp" "rsi"])]

def nestedGraph : Graph := nestedDocument.graph

theorem ids_expand_unique_nested :
    Graph.load nestedDocument = .ok nestedGraph ∧
      ((nestedGraph.nodes.filter Node.isComposite).Pairwise fun c d =>
        List.Disjoint ((expandNode c).map Node.id) ((expandNode d).map Node.id)) ∧
      ¬ ((expand nestedGraph.nodes nestedGraph.edges).nodes.map Node.id).Nodup := by
  have hload : Graph.load nestedDocument = .ok nestedGraph := rfl
  obtain ⟨hapart, -, hunique, -⟩ := ids_expand_unique hload
  refine ⟨hload, hapart, fun hnodup => ?_⟩
  have hclash : ∃ n ∈ nestedGraph.nodes, n.isComposite = false ∧
    n.id ∈ partIds nestedGraph.nodes := by
    decide
  obtain ⟨n, hn, hcomp, hpart⟩ := hclash
  exact hunique.mp hnodup n hn hcomp hpart

end TradeGraph

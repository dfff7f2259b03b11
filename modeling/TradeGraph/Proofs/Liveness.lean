import TradeGraph.Proofs.Reachability

/-!
# Live nodes

What is kept of a graph, said with paths and without the search: nodes that a path leads to from a
timing node, and timing and filter nodes, which need no path.
-/

namespace TradeGraph

open List

variable {nodes : List Node} {edges : List Edge}

/-! ## The length of a search -/

/-- Each id that the search meets is a seed or the end of an edge of its own. -/
theorem length_closure_le (edges : List Edge) (seeds : List String) :
    (closure edges seeds).length ≤ edges.length + seeds.length := by
  induction edges, seeds using closure.induct with
  | case1 edges => simp [closure]
  | case2 edges id rest ih =>
    have hsplit := length_leaving_add id edges
    rw [closure]
    simp only [length_append, length_map, length_cons] at ih ⊢
    omega

theorem length_reachable_le (nodes : List Node) (edges : List Edge) :
    (reachable nodes edges).length ≤ edges.length + nodes.length := by
  rw [reachable_eq]
  split
  · simp
  · have hroots : (rootIds nodes).length ≤ nodes.length := by
      simpa [rootIds] using length_filter_le Node.isRoot nodes
    have hsearch := length_closure_le edges (rootIds nodes)
    omega

/-! ## Paths from timing nodes -/

/-- A path leads to the id from a timing node; in a graph without timing nodes, the id is a node's.
-/
def Reached (nodes : List Node) (edges : List Edge) (id : String) : Prop :=
  (∃ n ∈ nodes, n.category = .timing ∧ Leads edges n.id id) ∨
    (∀ n ∈ nodes, n.category ≠ .timing) ∧ ∃ n ∈ nodes, n.id = id

theorem Node.isRoot_iff {n : Node} : n.isRoot = true ↔ n.category = .timing :=
  beq_iff_eq

theorem mem_rootIds {id : String} :
    id ∈ rootIds nodes ↔ ∃ n ∈ nodes, n.category = .timing ∧ n.id = id := by
  simp only [rootIds, mem_map, mem_filter, Node.isRoot_iff, and_assoc]

theorem rootIds_eq_nil_iff : rootIds nodes = [] ↔ ∀ n ∈ nodes, n.category ≠ .timing := by
  simp only [rootIds, map_eq_nil_iff, filter_eq_nil_iff, Node.isRoot_iff, ne_eq]

theorem mem_reachable_iff_reached {id : String} :
    id ∈ reachable nodes edges ↔ Reached nodes edges id := by
  rw [mem_reachable]
  by_cases hroots : rootIds nodes = []
  · have hnone := rootIds_eq_nil_iff.mp hroots
    rw [if_pos hroots, mem_map]
    constructor
    · intro h
      exact .inr ⟨hnone, h⟩
    · rintro (⟨n, hn, htiming, -⟩ | ⟨-, h⟩)
      · exact absurd htiming (hnone n hn)
      · exact h
  · rw [if_neg hroots]
    constructor
    · rintro ⟨r, hr, hpath⟩
      obtain ⟨n, hn, htiming, rfl⟩ := mem_rootIds.mp hr
      exact .inl ⟨n, hn, htiming, hpath⟩
    · rintro (⟨n, hn, htiming, hpath⟩ | ⟨hnone, -⟩)
      · exact ⟨n.id, mem_rootIds.mpr ⟨n, hn, htiming, rfl⟩, hpath⟩
      · exact absurd (rootIds_eq_nil_iff.mpr hnone) hroots

/-! ## Keeping the live nodes -/

theorem Node.isLive_iff {n : Node} :
    n.isLive (reachable nodes edges) = true ↔
      Reached nodes edges n.id ∨ n.category = .timing ∨ n.category = .filter := by
  simp only [Node.isLive, Node.isAlwaysLive, Bool.or_eq_true, contains_iff_mem, beq_iff_eq,
    mem_reachable_iff_reached]

/-- Paths start at the same nodes before and after: a timing node is always kept. -/
theorem rootIds_keepLive (nodes : List Node) (edges : List Edge) :
    rootIds (keepLive nodes edges) = rootIds nodes := by
  have hkept : ∀ n : Node, (n.isRoot && n.isLive (reachable nodes edges)) = n.isRoot := by
    intro n
    by_cases h : n.isRoot = true
    · have hlive : n.isLive (reachable nodes edges) = true :=
        Node.isLive_iff.mpr (.inr (.inl (Node.isRoot_iff.mp h)))
      rw [h, hlive, Bool.and_self]
    · rw [Bool.not_eq_true] at h
      rw [h, Bool.false_and]
  simp only [rootIds, keepLive, filter_filter, hkept]

theorem keepLive_of_rootIds_eq_nil (h : rootIds nodes = []) : keepLive nodes edges = nodes := by
  refine filter_eq_self.mpr fun n hn => Node.isLive_iff.mpr ?_
  exact .inl (.inr ⟨rootIds_eq_nil_iff.mp h, n, hn, rfl⟩)

/-- The ids that paths lead to are the same once the other nodes are dropped. -/
theorem reachable_keepLive (nodes : List Node) (edges : List Edge) :
    reachable (keepLive nodes edges) edges = reachable nodes edges := by
  rw [reachable_eq, rootIds_keepLive, reachable_eq]
  by_cases h : rootIds nodes = []
  · rw [keepLive_of_rootIds_eq_nil h]
  · rw [if_neg h, if_neg h]

open scoped Classical in
/-- **Liveness is exact.** The search ends after as many steps as there are nodes and edges, and has
then met exactly the ids that paths lead to. The nodes kept are those with such an id and the timing
and filter nodes, in their order. Keeping the live nodes again drops nothing. -/
theorem liveness_exact (nodes : List Node) (edges : List Edge) :
    (reachable nodes edges).length ≤ edges.length + nodes.length ∧
      (∀ id, id ∈ reachable nodes edges ↔ Reached nodes edges id) ∧
      keepLive nodes edges =
        nodes.filter (fun n =>
          Reached nodes edges n.id ∨ n.category = .timing ∨ n.category = .filter) ∧
      keepLive (keepLive nodes edges) edges = keepLive nodes edges := by
  refine ⟨length_reachable_le nodes edges, fun _ => mem_reachable_iff_reached, ?_, ?_⟩
  · refine filter_congr fun n _ => ?_
    rw [Bool.eq_iff_iff, Node.isLive_iff, decide_eq_true_iff]
  · show List.filter _ _ = _
    rw [reachable_keepLive, keepLive, filter_filter]
    simp only [Bool.and_self]

end TradeGraph

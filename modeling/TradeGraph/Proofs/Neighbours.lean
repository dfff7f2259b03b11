import TradeGraph.Proofs.Failure

/-!
# Neighbours

A close condition and a stop at an indicator refer to the nodes that they are joined to. It makes no
difference at which end of an edge they stand, so edges may be drawn either way.
-/

namespace TradeGraph

open List

variable {id x : String} {e : Edge} {edges edges' : List Edge}

def Edge.joins (a b : String) (e : Edge) : Bool :=
  e.source == a && e.target == b || e.source == b && e.target == a

/-- The edge the other way round. -/
def Edge.reversed (e : Edge) : Edge :=
  { e with source := e.target, target := e.source }

/-- The second list is the first one with some of its edges reversed. -/
def SomeReversed : List Edge → List Edge → Prop :=
  Forall₂ fun e e' => e' = e ∨ e' = e.reversed

theorem Edge.other?_eq_some_iff : e.other? id = some x ↔ e.joins id x = true := by
  rw [Edge.other?, Edge.joins]
  by_cases hsource : e.source = id <;> by_cases htarget : e.target = id <;> grind

theorem Edge.other?_reversed (id : String) (e : Edge) : e.reversed.other? id = e.other? id := by
  refine Option.ext fun x => ?_
  rw [other?_eq_some_iff, other?_eq_some_iff, joins, joins, reversed, Bool.or_comm,
    Bool.and_comm (e.target == x), Bool.and_comm (e.target == id)]

/-- Items of edges, each once, stand in the order of the first edges that have them. -/
theorem pairwise_firstOnes {f : Edge → Option String} (edges : List Edge) (seen : List String) :
    (firstOnes seen (edges.filterMap f)).Pairwise fun x y =>
      edges.findIdx (f · = some x) < edges.findIdx (f · = some y) := by
  induction edges generalizing seen with
  | nil => exact List.Pairwise.nil
  | cons e edges ih =>
    -- the first edge only has an item that stands first or was seen
    have hlater {seen : List String}
      (hnew : ∀ x ∈ firstOnes seen (edges.filterMap f), f e ≠ some x) :
        (firstOnes seen (edges.filterMap f)).Pairwise fun x y =>
          (e :: edges).findIdx (f · = some x) < (e :: edges).findIdx (f · = some y) := by
      refine (ih seen).imp_of_mem fun {x y} hx hy hlt => ?_
      simpa [findIdx_cons, hnew x hx, hnew y hy] using hlt
    cases he : f e with
    | none =>
      rw [filterMap_cons_none he]
      exact hlater fun x _ => by simp [he]
    | some s =>
      rw [filterMap_cons_some he, firstOnes]
      split
      · rename_i hseen
        refine hlater fun x hx hfirst => ?_
        obtain rfl : s = x := Option.some.inj (he.symm.trans hfirst)
        exact (mem_firstOnes.mp hx).2 (contains_iff_mem.mp hseen)
      · have hnew : ∀ x ∈ firstOnes (s :: seen) (edges.filterMap f), f e ≠ some x := by
          intro x hx hfirst
          obtain rfl : s = x := Option.some.inj (he.symm.trans hfirst)
          exact (mem_firstOnes.mp hx).2 mem_cons_self
        refine pairwise_cons.mpr ⟨fun x hx => ?_, hlater hnew⟩
        simp [findIdx_cons, he, show s ≠ x from fun h => hnew x hx (h ▸ he)]

theorem neighbours_of_reversed (h : SomeReversed edges edges') (id : String) :
    neighbours id edges' = neighbours id edges := by
  rw [neighbours, neighbours]
  congr 1
  induction h with
  | nil => rfl
  | cons he _ ih =>
    have hother := he.elim (congrArg (Edge.other? id)) fun h => h ▸ Edge.other?_reversed id _
    rw [filterMap_cons, filterMap_cons, hother, ih]

/-- **References have no direction.** The neighbours of an id are the ids that some edge joins it
to, each once and in the order of their first edges. Whichever edges are reversed, the neighbours
are the same, a stop finds the same indicator or fails in the same way, and the code of a close
condition is the same. -/
theorem neighbours_undirected (id : String) (edges : List Edge) :
    (neighbours id edges).Nodup ∧
    (∀ x, x ∈ neighbours id edges ↔ ∃ e ∈ edges, e.joins id x) ∧
    (neighbours id edges).Pairwise (fun x y =>
      edges.findIdx (Edge.joins id x) < edges.findIdx (Edge.joins id y)) ∧
    ∀ edges', SomeReversed edges edges' →
      neighbours id edges' = neighbours id edges ∧
      (∀ stop indicators known, stopIndicator id stop indicators edges' known =
        stopIndicator id stop indicators edges known) ∧
      ∀ n i indicators priceAction, n.id = id →
        emitCloseCondition n i indicators priceAction edges' =
          emitCloseCondition n i indicators priceAction edges := by
  have horder : (neighbours id edges).Pairwise fun x y =>
      edges.findIdx (Edge.joins id x) < edges.findIdx (Edge.joins id y) := by
    have hfirst (x : String) : (fun e => decide (Edge.other? id e = some x)) = Edge.joins id x :=
      funext fun e => by simp [Edge.other?_eq_some_iff]
    have h := pairwise_firstOnes (f := Edge.other? id) edges []
    simp only [hfirst] at h
    exact h
  refine ⟨horder.imp fun hlt heq => ?_, fun x => ?_, horder, fun edges' h => ?_⟩
  · rw [heq] at hlt
    exact Nat.lt_irrefl _ hlt
  · simp only [neighbours, mem_firstOnes, mem_filterMap, Edge.other?_eq_some_iff,
      not_mem_nil, not_false_eq_true, and_true]
  · have hsame := neighbours_of_reversed h id
    refine ⟨hsame, fun stop indicators known => ?_, fun n i indicators priceAction hn => ?_⟩
    · rw [stopIndicator, stopIndicator, hsame]
    · rw [emitCloseCondition, emitCloseCondition, hn, hsame]

/-- Edges that run from a node and to it, one of them twice and one back to the node itself. -/
def crossedEdges : List Edge :=
  [⟨"a", "exit", "rsi"⟩, ⟨"b", "cci", "exit"⟩, ⟨"c", "rsi", "exit"⟩, ⟨"d", "exit", "exit"⟩]

theorem neighbours_undirected_crossed :
    SomeReversed crossedEdges (crossedEdges.map Edge.reversed) ∧
      neighbours "exit" (crossedEdges.map Edge.reversed) = ["rsi", "cci", "exit"] := by
  have hreversed : SomeReversed crossedEdges (crossedEdges.map Edge.reversed) := by
    rw [SomeReversed, forall₂_map_right_iff, forall₂_same]
    exact fun e _ => .inr rfl
  exact ⟨hreversed, ((neighbours_undirected "exit" crossedEdges).2.2.2 _ hreversed).1.trans
    (by decide)⟩

end TradeGraph

import Mathlib.Logic.Relation
import TradeGraph.Liveness

/-!
# Reachability

The search for live nodes uses up edges as it goes. Here it is compared with paths, which do not:
an id is found exactly when a path leads to it from a seed. A loop that goes breadth first, with a
queue and the ids seen so far, finds the same ids.
-/

namespace TradeGraph

open List

variable {edges : List Edge} {a b id x : String} {seeds seen queue : List String}

/-! ## Paths -/

/-- One edge leads from the first id to the second. -/
def Joined (edges : List Edge) (a b : String) : Prop :=
  ∃ e ∈ edges, e.source = a ∧ e.target = b

/-- A path of edges leads from the first id to the second. -/
def Leads (edges : List Edge) : String → String → Prop :=
  Relation.ReflTransGen (Joined edges)

theorem Joined.mono {edges' : List Edge} (hsub : ∀ e ∈ edges, e ∈ edges') (h : Joined edges a b) :
    Joined edges' a b := by
  obtain ⟨e, he, hs, ht⟩ := h
  exact ⟨e, hsub e he, hs, ht⟩

theorem Leads.mono {edges' : List Edge} (hsub : ∀ e ∈ edges, e ∈ edges') (h : Leads edges a b) :
    Leads edges' a b :=
  Relation.ReflTransGen.mono (fun _ _ => Joined.mono hsub) _ _ h

/-! ## The search -/

theorem mem_targets_leaving : x ∈ (leaving id edges).map Edge.target ↔ Joined edges id x := by
  simp only [leaving, mem_map, mem_filter, beq_iff_eq, Joined, and_assoc]

theorem Joined.notLeaving (h : Joined edges a b) (ha : a ≠ id) :
    Joined (TradeGraph.notLeaving id edges) a b := by
  obtain ⟨e, he, hs, ht⟩ := h
  refine ⟨e, ?_, hs, ht⟩
  simp only [TradeGraph.notLeaving, mem_filter, bne_iff_ne]
  exact ⟨he, by rwa [hs]⟩

/-- A path from a seed ends at the visited id, or goes on from the new seeds along the edges that
are left. -/
theorem Leads.after_visit {s : String} {rest : List String} (hs : s ∈ id :: rest)
    (h : Leads edges s x) :
    x = id ∨ ∃ s' ∈ (leaving id edges).map Edge.target ++ rest,
      Leads (TradeGraph.notLeaving id edges) s' x := by
  induction h with
  | refl =>
    rcases mem_cons.mp hs with rfl | hs
    · exact .inl rfl
    · exact .inr ⟨s, mem_append_right _ hs, .refl⟩
  | @tail b c _ hbc ih =>
    by_cases hb : b = id
    · subst hb
      exact .inr ⟨c, mem_append_left _ (mem_targets_leaving.mpr hbc), .refl⟩
    · rcases ih with rfl | ⟨s', hs', hpath⟩
      · exact absurd rfl hb
      · exact .inr ⟨s', hs', hpath.tail (hbc.notLeaving hb)⟩

/-- **The search finds what paths lead to**: an id is in the closure exactly when a path leads to it
from one of the seeds. -/
theorem mem_closure :
    x ∈ closure edges seeds ↔ ∃ s ∈ seeds, Leads edges s x := by
  induction edges, seeds using closure.induct with
  | case1 edges => simp [closure]
  | case2 edges id rest ih =>
    rw [closure, mem_cons, ih]
    constructor
    · rintro (rfl | ⟨s, hs, hpath⟩)
      · exact ⟨x, mem_cons_self, .refl⟩
      · have hpath : Leads edges s x :=
          hpath.mono fun e he => (mem_filter.mp he).1
        rcases mem_append.mp hs with hs | hs
        · exact ⟨id, mem_cons_self, .head (mem_targets_leaving.mp hs) hpath⟩
        · exact ⟨s, mem_cons_of_mem _ hs, hpath⟩
    · rintro ⟨s, hs, hpath⟩
      exact hpath.after_visit hs

/-! ## Breadth first -/

/-- How many edges lead to ids that have not been seen. -/
def unseen (edges : List Edge) (seen : List String) : Nat :=
  ((edges.map Edge.target).filter (· ∉ seen)).length

/-- Follow edges to their targets: those that are new are seen from now on and wait. -/
def follow : List String → List String → List String → List String × List String
  | [], seen, queue => (seen, queue)
  | x :: xs, seen, queue =>
    if x ∈ seen then follow xs seen queue else follow xs (seen ++ [x]) (queue ++ [x])

theorem unseen_lt (hx : x ∈ edges.map Edge.target) (hnew : x ∉ seen) :
    unseen edges (seen ++ [x]) < unseen edges seen := by
  have hfilter : (edges.map Edge.target).filter (· ∉ seen ++ [x]) =
      ((edges.map Edge.target).filter (· ∉ seen)).filter (· ≠ x) := by
    rw [filter_filter]
    exact filter_congr fun y _ => by simp [and_comm]
  rw [unseen, hfilter, unseen, length_filter_lt_length_iff_exists]
  exact ⟨x, mem_filter.mpr ⟨hx, by simpa using hnew⟩, by simp⟩

theorem follow_spec (edges : List Edge) (xs seen queue : List String) :
    ∃ new, follow xs seen queue = (seen ++ new, queue ++ new) ∧ new ⊆ xs ∧ xs ⊆ seen ++ new ∧
      (xs ⊆ edges.map Edge.target → unseen edges (seen ++ new) + new.length ≤
      unseen edges seen) := by
  induction xs generalizing seen queue with
  | nil => exact ⟨[], by simp [follow]⟩
  | cons x xs ih =>
    by_cases hx : x ∈ seen
    · obtain ⟨new, hnew, hsub, hall, hcount⟩ := ih seen queue
      refine ⟨new, by rw [follow, if_pos hx, hnew], subset_cons_of_subset _ hsub,
        cons_subset.mpr ⟨mem_append_left _ hx, hall⟩, fun h => hcount (cons_subset.mp h).2⟩
    · obtain ⟨new, hnew, hsub, hall, hcount⟩ := ih (seen ++ [x]) (queue ++ [x])
      refine ⟨x :: new, by simp [follow, hx, hnew], cons_subset_cons x hsub, ?_, fun h => ?_⟩
      · simpa using hall
      · have hlt := unseen_lt (cons_subset.mp h).1 hx
        have hle := hcount (cons_subset.mp h).2
        rw [append_assoc, singleton_append] at hle
        rw [length_cons]
        omega

/-- The loop of the search: the first id that waits is taken, and its edges are followed. -/
def search (edges : List Edge) (seen queue : List String) : List String :=
  match queue with
  | [] => seen
  | id :: rest =>
    let next := follow ((leaving id edges).map Edge.target) seen rest
    search edges next.1 next.2
termination_by unseen edges seen + queue.length
decreasing_by
  obtain ⟨new, hnew, -, -, hcount⟩ :=
    follow_spec edges ((leaving id edges).map Edge.target) seen rest
  have hle := hcount (map_subset _ filter_sublist.subset)
  simp only [hnew, length_append, length_cons]
  omega

/-- What holds in each round: what was seen is led to from a seed, and the edges from what does not
wait any more have been followed. -/
structure Searching (edges : List Edge) (seeds seen queue : List String) : Prop where
  starts : seeds ⊆ seen
  found : ∀ x ∈ seen, ∃ s ∈ seeds, Leads edges s x
  waits : queue ⊆ seen
  followed : ∀ x ∈ seen, x ∉ queue → ∀ y, Joined edges x y → y ∈ seen

/-- **One round**: an id is taken from the queue, and what it leads to first waits in its turn. -/
theorem Searching.step {rest : List String} (h : Searching edges seeds seen (id :: rest)) :
    ∃ new, follow ((leaving id edges).map Edge.target) seen rest = (seen ++ new, rest ++ new) ∧
      Searching edges seeds (seen ++ new) (rest ++ new) := by
  obtain ⟨new, hnew, hsub, hall, -⟩ :=
    follow_spec edges ((leaving id edges).map Edge.target) seen rest
  obtain ⟨hid, hrest⟩ := cons_subset.mp h.waits
  refine ⟨new, hnew, subset_append_of_subset_left _ h.starts, fun x hx => ?_, ?_,
    fun x hx hdone y hy => ?_⟩
  · rcases mem_append.mp hx with hx | hx
    · exact h.found x hx
    · obtain ⟨s, hs, hpath⟩ := h.found id hid
      exact ⟨s, hs, hpath.tail (mem_targets_leaving.mp (hsub hx))⟩
  · exact append_subset.mpr ⟨subset_append_of_subset_left _ hrest, subset_append_right _ _⟩
  · rw [mem_append, not_or] at hdone
    have hseen := (mem_append.mp hx).resolve_right hdone.2
    by_cases hsame : x = id
    · exact hall (mem_targets_leaving.mpr (hsame ▸ hy))
    · exact mem_append_left _ (h.followed x hseen (by simp [hsame, hdone.1]) y hy)

theorem Searching.mem_search_iff (h : Searching edges seeds seen queue) :
    x ∈ search edges seen queue ↔ ∃ s ∈ seeds, Leads edges s x := by
  induction seen, queue using search.induct edges with
  | case1 seen =>
    rw [search]
    refine ⟨h.found x, ?_⟩
    -- nothing waits any more, so no path leaves what was seen
    rintro ⟨s, hs, hpath⟩
    induction hpath with
    | refl => exact h.starts hs
    | tail _ hlast ih => exact h.followed _ ih not_mem_nil _ hlast
  | case2 seen id rest next ih =>
    obtain ⟨new, hnew, hstep⟩ := h.step
    rw [search, hnew]
    rw [show next = _ from hnew] at ih
    exact ih hstep

/-- **The search goes breadth first**: the loop sees the same ids as the closure. -/
theorem mem_search : x ∈ search edges seeds seeds ↔ x ∈ closure edges seeds := by
  rw [mem_closure]
  exact Searching.mem_search_iff ⟨Subset.refl _, fun x hx => ⟨x, hx, .refl⟩, Subset.refl _,
    fun x hx hdone => absurd hx hdone⟩

/-! ## Roots -/

/-- The ids of the timing nodes, where paths start. -/
def rootIds (nodes : List Node) : List String :=
  (nodes.filter Node.isRoot).map Node.id

theorem reachable_eq (nodes : List Node) (edges : List Edge) :
    reachable nodes edges =
      if rootIds nodes = [] then nodes.map Node.id else closure edges (rootIds nodes) := by
  show (if (rootIds nodes).isEmpty then nodes.map Node.id else closure edges (rootIds nodes)) = _
  simp only [List.isEmpty_iff]

/-- Without timing nodes every node is reachable; otherwise those that a path leads to. -/
theorem mem_reachable {nodes : List Node} :
    x ∈ reachable nodes edges ↔
      if rootIds nodes = [] then x ∈ nodes.map Node.id
      else ∃ r ∈ rootIds nodes, Leads edges r x := by
  rw [reachable_eq]
  by_cases h : rootIds nodes = []
  · simp only [h, if_true]
  · simp only [h, if_false, mem_closure]

end TradeGraph

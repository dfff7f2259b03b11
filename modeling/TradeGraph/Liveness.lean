import TradeGraph.Graph
import TradeGraph.Log

/-!
# Liveness

A node is live when a path leads to it from a timing node. Without timing nodes everything is live,
and timing and filter nodes always are.
-/

namespace TradeGraph

/-! ## Paths -/

/-- The edges that leave an id. -/
def leaving (id : String) (edges : List Edge) : List Edge :=
  edges.filter fun e => e.source == id

/-- The edges that leave other ids. -/
def notLeaving (id : String) (edges : List Edge) : List Edge :=
  edges.filter fun e => e.source != id

theorem length_leaving_add (id : String) (edges : List Edge) :
    (leaving id edges).length + (notLeaving id edges).length = edges.length := by
  induction edges with
  | nil => rfl
  | cons e es ih =>
    by_cases h : e.source = id <;> simp [leaving, notLeaving, h] at ih ⊢ <;> omega

/-- All ids that paths from the seeds lead to. An edge is used up when the id that it leaves is met,
so every edge is followed at most once. -/
def closure (edges : List Edge) (seeds : List String) : List String :=
  match seeds with
  | [] => []
  | id :: rest =>
    id :: closure (notLeaving id edges) ((leaving id edges).map Edge.target ++ rest)
termination_by edges.length + seeds.length
decreasing_by
  have h := length_leaving_add id edges
  simp
  omega

/-! ## Live nodes -/

/-- Paths start at timing nodes. -/
def Node.isRoot (n : Node) : Bool :=
  n.category == .timing

/-- Timing and filter nodes need no path. -/
def Node.isAlwaysLive (n : Node) : Bool :=
  n.category == .timing || n.category == .filter

/-- The ids that paths from timing nodes lead to, or all ids if there is no timing node. -/
def reachable (nodes : List Node) (edges : List Edge) : List String :=
  let roots := (nodes.filter Node.isRoot).map Node.id
  if roots.isEmpty then nodes.map Node.id else closure edges roots

/-- Is the node live, given the reachable ids? -/
def Node.isLive (live : List String) (n : Node) : Bool :=
  live.contains n.id || n.isAlwaysLive

/-- The live nodes, in order. -/
def keepLive (nodes : List Node) (edges : List Edge) : List Node :=
  nodes.filter (Node.isLive (reachable nodes edges))

/-- What is said of the nodes that are not live. -/
def livenessLog (nodes : List Node) (edges : List Edge) : Log :=
  let live := reachable nodes edges
  (nodes.filter fun n => !n.isLive live).flatMap fun n =>
    Log.warning .liveness
      ("Dropping unreachable node '" ++ n.id ++ "' (" ++ n.kind.name ++ ")")

/-! ## Neighbours -/

/-- The id at the other end of an edge of the node. -/
def Edge.other? (id : String) (e : Edge) : Option String :=
  if e.source == id then some e.target
  else if e.target == id then some e.source
  else none

/-- Each item once, at its first place. -/
def firstOnes : List String → List String → List String
  | _, [] => []
  | seen, s :: ss => if seen.contains s then firstOnes seen ss else s :: firstOnes (s :: seen) ss

/-- The ids joined to a node by an edge in either direction, in the order of the edges. -/
def neighbours (id : String) (edges : List Edge) : List String :=
  firstOnes [] (edges.filterMap (Edge.other? id))

end TradeGraph

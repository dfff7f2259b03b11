import TradeGraph.Node.Parse
import TradeGraph.Settings

/-!
# Strategy graphs

A document is an object with nodes, edges and settings. Node ids are unique; edges may name nodes
that do not exist.
-/

namespace TradeGraph

/-- A directed connection between two node ids. -/
structure Edge where
  id : String
  source : String
  target : String
deriving DecidableEq, Repr

structure Graph where
  nodes : List Node := []
  edges : List Edge := []
  settings : Settings := {}
  version : Json := .int 1

/-! ## Nodes and edges -/

/-- The node in the entries of a raw node; the index is its place in the document. -/
def Node.ofEntries (es : Entries) (index : Nat) : Except Fault Node :=
  let id := es.get "id"
  let type := es.get "type"
  let data := es.get "data"
  if !id.truthy then .error (.document none (.nodeWithoutId index))
  else do
    let entries : Entries ←
      if !data.truthy then .ok []
      else
        match data with
        | .obj entries => .ok entries
        | _ => .error (.inNode id.asText .dataNotObject)
    let data ← NodeData.parse id.asText type entries
    .ok
      { id := id.asText
        type := if type.truthy then type.asText else ""
        data
        position := es.get "position" }

/-- A raw node is an object. -/
def Node.ofJson (raw : Json) (index : Nat) : Except Fault Node :=
  match raw with
  | .obj es => ofEntries es index
  | _ => .error .notObject

/-- The edge in the entries of a raw edge; the index is its place in the document. -/
def Edge.ofEntries (es : Entries) (index : Nat) : Except Fault Edge :=
  let id := es.get "id"
  let source := es.get "source"
  let target := es.get "target"
  if !source.truthy || !target.truthy then .error (.document none (.edgeWithoutEnd index))
  else
    .ok
      { id := if id.truthy then id.asText else "e" ++ toString index
        source := source.asText
        target := target.asText }

/-- A raw edge is an object. -/
def Edge.ofJson (raw : Json) (index : Nat) : Except Fault Edge :=
  match raw with
  | .obj es => ofEntries es index
  | _ => .error .notObject

/-- Map over a list with the place of each item; the first fault stops. -/
def mapIndexed {α β : Type} (f : α → Nat → Except Fault β) : Nat → List α → Except Fault (List β)
  | _, [] => .ok []
  | i, a :: as => do
    let b ← f a i
    let bs ← mapIndexed f (i + 1) as
    .ok (b :: bs)

/-! ## Documents -/

/-- The items of a list in a document. What counts as absent has none; the parts of a text or an
object are no objects. -/
def itemsOf (v : Json) : Except Fault (List Json) :=
  if !v.truthy then .ok []
  else
    match v with
    | .arr items => .ok items
    | .str _ | .obj _ => .error .notObject
    | _ => .error .notSequence

/-- The first id that occurs a second time. -/
def duplicateId? : List String → List Node → Option String
  | _, [] => none
  | seen, n :: ns => if seen.contains n.id then some n.id else duplicateId? (n.id :: seen) ns

namespace Graph

/-- Nodes from raw nodes, without a second node of one id. -/
def readNodes (raw : Json) : Except Fault (List Node) := do
  let items ← itemsOf raw
  let nodes ← mapIndexed Node.ofJson 0 items
  match duplicateId? [] nodes with
  | some id => .error (.inNode id .duplicateId)
  | none => .ok nodes

def readEdges (raw : Json) : Except Fault (List Edge) := do
  let items ← itemsOf raw
  mapIndexed Edge.ofJson 0 items

/-- The graph in the entries of a document. -/
def ofEntries (es : Entries) : Except Fault Graph := do
  let nodes ← readNodes (es.get "nodes")
  let edges ← readEdges (es.get "edges")
  let settings ← Settings.read (es.get "settings")
  .ok { nodes, edges, settings, version := (es.find? "version").getD (.int 1) }

/-- The graph of a document, which is an object. -/
def load (document : Json) : Except Fault Graph :=
  match document with
  | .obj es => ofEntries es
  | v => .error (.document none (.notObject v.typeName))

end Graph

end TradeGraph

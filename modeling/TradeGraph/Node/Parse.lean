import TradeGraph.Node.Basic

/-!
# Reading nodes

The kind of a node is found from the key that names it in the data, else from the category and the
node type, else from the node type alone. Then its fields are read.
-/

namespace TradeGraph

/-- The keys that name a kind, the first one present decides. -/
def kindKeys : List (String × Category) :=
  [("filterType", .filter), ("entryType", .entryStrategy), ("timingType", .timing),
    ("indicatorType", .indicator), ("priceActionType", .priceAction), ("tradingType", .trading),
    ("managementType", .management), ("tradeManagementType", .management)]

namespace Kind

/-- The kind of a category that a value names. -/
def named? (c : Category) : Json → Option Kind
  | .str s => ofName? c s
  | _ => none

def withoutEntry (s : String) : String :=
  if entryEnding.toList.isSuffixOf s.toList then
    String.ofList (s.toList.take (s.length - entryEnding.length))
  else s

/-- The kind of a category that a node type names; an entry strategy may be named with its ending.
-/
def inCategory? (c : Category) (type : Json) : Except Fault (Option Kind) :=
  match named? c type with
  | some k => .ok (some k)
  | none =>
    if c = .entryStrategy ∧ type.truthy then
      match type with
      | .str s => .ok (ofName? c (withoutEntry s))
      | _ => .error .notText
    else .ok none

/-- The kind that a node type names on its own. -/
def ofType (type category : Json) : Except Fault Kind :=
  let unknown := Except.error (.document none (.unknownKind type category))
  if !type.truthy then unknown
  else
    match type with
    | .str s => (ofTypeName? s).elim unknown .ok
    | .arr _ | .obj _ => .error .notKey
    | _ => unknown

/-- The kind of a node with a type and data. -/
def resolve (type : Json) (data : Entries) : Except Fault Kind :=
  match kindKeys.find? fun (key, _) => data.has key with
  | some (key, c) =>
    let value := data.get key
    (named? c value).elim (.error (.document none (.unknownName c value))) .ok
  | none =>
    let category := data.get "category"
    match category with
    | .arr _ | .obj _ => .error .notKey
    | .str s =>
      match Category.ofName? s with
      | some c => do
        match ← inCategory? c type with
        | some k => .ok k
        | none => ofType type category
      | none => ofType type category
    | _ => ofType type category

end Kind

namespace NodeData

/-- The data of a node of a known kind. -/
def read (k : Kind) (es : Entries) : Except DocumentFault NodeData :=
  let shape := k.shape
  let codec := Common.codec.pair shape.codec
  match codec.decode es with
  | .error ps => .error (.invalidData k ps)
  | .ok (common, body) =>
    let payload := shape.make body
    match payload.conflict? with
    | some c => .error (.conflict k c)
    | none => .ok { common, payload, extras := codec.schema.extras es }

/-- The data of a node. Faults of the document carry the node's id. -/
def parse (id : String) (type : Json) (es : Entries) : Except Fault NodeData :=
  match Kind.resolve type es with
  | .error (.document _ fault) => .error (.inNode id fault)
  | .error fault => .error fault
  | .ok k =>
    match read k es with
    | .error fault => .error (.inNode id fault)
    | .ok d => .ok d

end NodeData

end TradeGraph

import TradeGraph.Field.Type

/-!
# Schemas and records

A schema lists the fields of a record in order. A value is looked up under the key of the field and,
if that is absent, under its spelled-out key; a missing value is the initial one. Keys that no field
takes are kept apart.
-/

namespace TradeGraph

/-- A field: its key, its spelled-out key, its type and its initial value. -/
structure Field where
  key : String
  long : String
  type : FieldType
  initial : type.Value

namespace Field

abbrev text (key long : String) (initial : String) : Field :=
  ⟨key, long, .text, initial⟩

/-- A text field that may be null, and is at first. -/
abbrev maybeText (key long : String) : Field :=
  ⟨key, long, .optional .text, none⟩

abbrev flag (key long : String) (initial : Bool) : Field :=
  ⟨key, long, .flag, initial⟩

/-- An integer between two limits. -/
abbrev integer (key long : String) (low high initial : Int) : Field :=
  ⟨key, long, .integer (Bound.between low high), initial⟩

/-- A double with limits. -/
abbrev number (key long : String) (bounds : List (Bound Float)) (initial : Float) : Field :=
  ⟨key, long, .number bounds, initial⟩

/-- A word of a vocabulary. -/
abbrev choice (key long : String) {α : Type} [Vocabulary α] (initial : α) : Field :=
  ⟨key, long, .choice α, initial⟩

/-- The key under which the field finds its value. -/
def keyIn (f : Field) (es : Entries) : String :=
  if es.has f.key then f.key else f.long

/-- The value of the field. -/
def read (f : Field) (es : Entries) : Checked f.type.Value :=
  match es.find? (f.keyIn es) with
  | some v => f.type.read [f.keyIn es] v
  | none => .ok f.initial

end Field

/-! ## Records -/

/-- The fields of a record, in order. -/
abbrev Schema := List Field

/-- A value for each field. -/
@[reducible] def Record : Schema → Type
  | [] => Unit
  | f :: s => f.type.Value × Record s

namespace Record

def initial : (s : Schema) → Record s
  | [] => ()
  | f :: s => (f.initial, initial s)

/-- Two records one after the other. -/
def append : {s t : Schema} → Record s → Record t → Record (s ++ t)
  | [], _, _, r => r
  | _ :: _, _, (a, q), r => (a, append q r)

/-- The two parts of a record. -/
def split : (s : Schema) → {t : Schema} → Record (s ++ t) → Record s × Record t
  | [], _, r => ((), r)
  | _ :: s, _, (a, r) => ((a, (split s r).1), (split s r).2)

@[simp] theorem split_append {s t : Schema} (q : Record s) (r : Record t) :
    split s (append q r) = (q, r) := by
  induction s with
  | nil => rfl
  | cons f s ih => simp [append, split, ih]

end Record

namespace Schema

/-- Read every field; the problems of all are kept, in order. -/
def decode : (s : Schema) → Entries → Checked (Record s)
  | [], _ => .ok ()
  | f :: s, es => (f.read es).both (decode s es)

/-- Write every field under its key, in order. -/
def encode : (s : Schema) → Record s → Entries
  | [], _ => []
  | f :: s, (a, r) => (f.key, f.type.write a) :: encode s r

theorem encode_append {s t : Schema} (q : Record s) (r : Record t) :
    Schema.encode (s ++ t) (Record.append q r) = s.encode q ++ t.encode r := by
  induction s with
  | nil => rfl
  | cons f s ih => exact congrArg _ (ih q.2)

/-- Is the key the one under which some field finds its value? -/
def takes (s : Schema) (es : Entries) (key : String) : Bool :=
  s.any fun f => f.keyIn es == key

/-- The entries that no field takes. -/
def extras (s : Schema) (es : Entries) : Entries :=
  es.filter fun (k, _) => !s.takes es k

end Schema

/-! ## Codecs -/

/-- A type whose values are the records of a schema. -/
structure Codec (α : Type) where
  schema : Schema
  ofRecord : Record schema → α
  toRecord : α → Record schema

namespace Codec

/-- The value with all fields initial. -/
def initial {α : Type} (c : Codec α) : α :=
  c.ofRecord (Record.initial c.schema)

/-- Read a value from the entries of an object. -/
def decode {α : Type} (c : Codec α) (es : Entries) : Checked α :=
  (c.schema.decode es).map c.ofRecord

/-- The entries of a value. -/
def encode {α : Type} (c : Codec α) (a : α) : Entries :=
  c.schema.encode (c.toRecord a)

/-- The fields of one codec before those of another. -/
def pair {α β : Type} (c : Codec α) (d : Codec β) : Codec (α × β) where
  schema := c.schema ++ d.schema
  ofRecord r := (c.ofRecord (Record.split c.schema r).1, d.ofRecord (Record.split c.schema r).2)
  toRecord x := Record.append (c.toRecord x.1) (d.toRecord x.2)

theorem encode_pair {α β : Type} (c : Codec α) (d : Codec β) (a : α) (b : β) :
    (c.pair d).encode (a, b) = c.encode a ++ d.encode b :=
  Schema.encode_append _ _

/-- No fields. -/
def empty : Codec Unit where
  schema := []
  ofRecord _ := ()
  toRecord _ := ()

end Codec

end TradeGraph

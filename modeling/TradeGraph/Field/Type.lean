import TradeGraph.Field.Numeral

/-!
# Types of fields

A field type says which values a field has, how they are read from JSON and how they are written
back. Reading is lenient: numbers are taken from text, flags from words and from 0 and 1.
-/

namespace TradeGraph

/-- A finite type whose members are known by words. -/
class Vocabulary (α : Type) where
  all : List α
  word : α → String

/-- The member known by a word. -/
def Vocabulary.ofWord? {α : Type} [Vocabulary α] (w : String) : Option α :=
  (Vocabulary.all : List α).find? fun a => Vocabulary.word a == w

/-! ## Numbers and flags -/

/-- The first limit that an integer breaks. -/
def brokenInt? (bounds : List (Bound Int)) (n : Int) : Option (Bound Int) :=
  bounds.find? fun b => !b.holdsInt n

/-- The first limit that a double breaks. -/
def brokenFloat? (bounds : List (Bound Float)) (x : Float) : Option (Bound Float) :=
  bounds.find? fun b => !b.holdsFloat x

/-- Doubles with a magnitude of at least this are too large to be taken as integers. -/
def integerLimit : Nat := Nat.pow 2 63

/-- An integer, from an integer, a flag, a double without fraction or a text. -/
def readIntegerValue : Json → Except Cause Int
  | .int n => .ok n
  | .bool b => .ok (if b then 1 else 0)
  | .float x =>
    if !Double.isFinite x then .error .notFinite
    else
      match Double.toInt? x with
      | none => .error .integerFraction
      | some n => if n.natAbs < integerLimit then .ok n else .error .integerSize
  | .str s => Numeral.readIntegerText s.toList
  | _ => .error .notInteger

/-- A double, from a number, a flag or a text. -/
def readNumberValue : Json → Except Cause Float
  | .int n =>
    let x := Double.ofInt n
    if Double.isFinite x then .ok x else .error .notNumber
  | .float x => .ok x
  | .bool b => .ok (if b then 1.0 else 0.0)
  | .str s => Numeral.readNumberText s.toList
  | _ => .error .notNumber

/-- The words for false and for true, in lower case. -/
def flagWord? (w : String) : Option Bool :=
  if ["0", "off", "f", "false", "n", "no"].contains w then some false
  else if ["1", "on", "t", "true", "y", "yes"].contains w then some true
  else none

/-- A flag from the number that stands for it. -/
def flagOfInt (n : Int) : Except Cause Bool :=
  if n == 0 then .ok false
  else if n == 1 then .ok true
  else .error .flagUnclear

def readFlagValue : Json → Except Cause Bool
  | .bool b => .ok b
  | .int n =>
    if -(integerLimit : Int) ≤ n ∧ n < integerLimit then flagOfInt n else .error .notFlag
  | .float x =>
    match Double.toInt? x with
    | none => .error .notFlag
    | some n => if n.natAbs < integerLimit then flagOfInt n else .error .notFlag
  | .str s =>
    match flagWord? (s.map Char.toLower) with
    | some b => .ok b
    | none => .error .flagUnclear
  | _ => .error .notFlag

/-- An integer within its limits. -/
def readInteger (bounds : List (Bound Int)) (path : List String) (v : Json) : Checked Int :=
  match readIntegerValue v with
  | .error c => Checked.fail path c
  | .ok n =>
    match brokenInt? bounds n with
    | some b => Checked.fail path (.integerBound b)
    | none => .ok n

/-- A double within its limits. -/
def readNumber (bounds : List (Bound Float)) (path : List String) (v : Json) : Checked Float :=
  match readNumberValue v with
  | .error c => Checked.fail path c
  | .ok x =>
    match brokenFloat? bounds x with
    | some b => Checked.fail path (.numberBound b)
    | none => .ok x

def readFlag (path : List String) (v : Json) : Checked Bool :=
  match readFlagValue v with
  | .ok b => .ok b
  | .error c => Checked.fail path c

/-! ## Stretches of the day -/

/-- A stretch of the day from a start to an end. -/
structure TimeSlot where
  startHour : Int
  startMinute : Int
  endHour : Int
  endMinute : Int
deriving DecidableEq, Repr

namespace TimeSlot

/-- The minute of the day at which the slot starts. -/
def first (s : TimeSlot) : Int := s.startHour * 60 + s.startMinute

/-- The minute of the day at which the slot ends. -/
def last (s : TimeSlot) : Int := s.endHour * 60 + s.endMinute

/-- One entry of a slot, by its own key or its spelled-out one, zero if missing. -/
def readPart (path : List String) (es : Entries) (key long : String) (high : Int) : Checked Int :=
  match es.find? key with
  | some v => readInteger (Bound.between 0 high) (path ++ [key]) v
  | none =>
    match es.find? long with
    | some v => readInteger (Bound.between 0 high) (path ++ [long]) v
    | none => .ok 0

/-- A slot from an object. -/
def read (path : List String) : Json → Checked TimeSlot
  | .obj es =>
    let startHour := readPart path es "startHour" "start_hour" 23
    let startMinute := readPart path es "startMinute" "start_minute" 59
    let endHour := readPart path es "endHour" "end_hour" 23
    let endMinute := readPart path es "endMinute" "end_minute" 59
    ((startHour.both startMinute).both (endHour.both endMinute)).map fun ((a, b), (c, d)) =>
      ⟨a, b, c, d⟩
  | _ => Checked.fail path .notSlot

/-- The object of a slot. -/
def write (s : TimeSlot) : Json :=
  .obj [("startHour", .int s.startHour), ("startMinute", .int s.startMinute),
    ("endHour", .int s.endHour), ("endMinute", .int s.endMinute)]

end TimeSlot

/-! ## Field types -/

inductive FieldType : Type 1 where
  | text
  | flag
  | integer (bounds : List (Bound Int))
  | number (bounds : List (Bound Float))
  | choice (α : Type) [Vocabulary α]
  | optional (t : FieldType)
  | list (t : FieldType)
  | flags
  | slot

namespace FieldType

/-- The values of a field type. -/
@[reducible] def Value : FieldType → Type
  | .text => String
  | .flag => Bool
  | .integer _ => Int
  | .number _ => Float
  | @FieldType.choice α _ => α
  | .optional t => Option t.Value
  | .list t => List t.Value
  | .flags => List (String × Bool)
  | .slot => TimeSlot

/-- Read a value at a path. -/
def read : (t : FieldType) → List String → Json → Checked t.Value
  | .text, path, v =>
    match v with
    | .str s => .ok s
    | _ => Checked.fail path .notText
  | .flag, path, v => readFlag path v
  | .integer bounds, path, v => readInteger bounds path v
  | .number bounds, path, v => readNumber bounds path v
  | @FieldType.choice α _, path, v =>
    let refused := Checked.fail path (.notWord ((Vocabulary.all : List α).map Vocabulary.word))
    match v with
    | .str s => (Vocabulary.ofWord? s).elim refused .ok
    | _ => refused
  | .optional t, path, v =>
    match v with
    | .null => .ok none
    | _ => (t.read path v).map some
  | .list t, path, v =>
    match v with
    | .arr items =>
      Checked.sequence (items.zipIdx.map fun (x, i) => t.read (path ++ [toString i]) x)
    | _ => Checked.fail path .notList
  | .flags, path, v =>
    match v with
    | .obj entries =>
      Checked.sequence (entries.map fun (k, x) =>
        (readFlag (path ++ [k]) x).map fun b => (k, b))
    | _ => Checked.fail path .notDictionary
  | .slot, path, v => TimeSlot.read path v

def write : (t : FieldType) → t.Value → Json
  | .text, s => .str s
  | .flag, b => .bool b
  | .integer _, n => .int n
  | .number _, x => .float x
  | @FieldType.choice _ _, a => .str (Vocabulary.word a)
  | .optional t, a =>
    match a with
    | none => .null
    | some a => t.write a
  | .list t, as => .arr (as.map t.write)
  | .flags, fs => .obj (fs.map fun (k, b) => (k, .bool b))
  | .slot, s => s.write

end FieldType

end TradeGraph

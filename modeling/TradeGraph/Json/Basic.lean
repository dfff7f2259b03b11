import TradeGraph.Double.Basic

/-!
# JSON values

A document is a JSON value that keeps what the text says: integers and decimals are different
values, and the entries of an object keep their order.
-/

namespace TradeGraph

inductive Json where
  | null
  | bool (b : Bool)
  | int (n : Int)
  | float (x : Float)
  | str (s : String)
  | arr (items : List Json)
  | obj (entries : List (String × Json))

/-- The entries of a JSON object, in order. No key occurs twice. -/
abbrev Entries := List (String × Json)

namespace Entries

/-- The value under a key. -/
def find? (key : String) : Entries → Option Json
  | [] => none
  | (k, v) :: rest => if k == key then some v else find? key rest

/-- Is there a value under the key? -/
def has (key : String) (es : Entries) : Bool :=
  (es.find? key).isSome

/-- The value under a key, null if there is none. -/
def get (key : String) (es : Entries) : Json :=
  (es.find? key).getD .null

/-- Set the value under a key: in its place if the key is known, else at the end. -/
def insert (key : String) (value : Json) : Entries → Entries
  | [] => [(key, value)]
  | (k, v) :: rest => if k == key then (k, value) :: rest else (k, v) :: insert key value rest

end Entries

namespace Json

instance : Inhabited Json := ⟨.null⟩

/-- Null, false, zero, and empty text, arrays and objects count as absent. -/
def truthy : Json → Bool
  | .null => false
  | .bool b => b
  | .int n => n != 0
  | .float x => x != 0.0
  | .str s => !s.isEmpty
  | .arr items => !items.isEmpty
  | .obj entries => !entries.isEmpty

/-- The integer that a number equals; flags count as 0 and 1. -/
def integral? : Json → Option Int
  | .bool b => some (if b then 1 else 0)
  | .int n => some n
  | .float x => Double.toInt? x
  | _ => none

mutual

/-- Equality of values. Numbers are compared as numbers, objects without regard to order. -/
def same : Json → Json → Bool
  | .null, .null => true
  | .float a, .float b => a == b
  | .str a, .str b => a == b
  | .arr as, .arr bs => sameItems as bs
  | .obj as, .obj bs => as.length == bs.length && sameEntries as bs
  | a, b =>
    match a.integral?, b.integral? with
    | some m, some n => m == n
    | _, _ => false

def sameItems : List Json → List Json → Bool
  | [], [] => true
  | a :: as, b :: bs => a.same b && sameItems as bs
  | _, _ => false

/-- Is every entry also in the other list? -/
def sameEntries : List (String × Json) → List (String × Json) → Bool
  | [], _ => true
  | (k, a) :: as, bs =>
    match Entries.find? k bs with
    | some b => a.same b && sameEntries as bs
    | none => false

end

end Json

end TradeGraph

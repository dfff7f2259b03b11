import TradeGraph.Double.Shortest
import TradeGraph.Json.Basic
import TradeGraph.Text.Basic

/-!
# Writing JSON

The compact text of a value: no blanks, ASCII only, characters above the basic plane as surrogate
pairs.
-/

namespace TradeGraph.Json

def escapedUnit (n : Nat) : List Char :=
  ['\\', 'u'] ++ Text.hex 4 n

def escapedChar (c : Char) : List Char :=
  let n := c.toNat
  if c == '"' || c == '\\' then ['\\', c]
  else if c == '\n' then ['\\', 'n']
  else if c == '\r' then ['\\', 'r']
  else if c == '\t' then ['\\', 't']
  else if 0x20 ≤ n ∧ n < 0x7f then [c]
  else if n < 0x10000 then escapedUnit n
  else
    escapedUnit (0xd800 + (n - 0x10000) / 0x400) ++ escapedUnit (0xdc00 + (n - 0x10000) % 0x400)

/-- A string between its quotes. -/
def escapedText (s : String) : String :=
  String.ofList ('"' :: s.toList.flatMap escapedChar ++ ['"'])

/-- A double; infinities and NaN are written as words. -/
def numeral (x : Float) : String :=
  match Double.parts x with
  | .nan => "NaN"
  | .infinite negative => if negative then "-Infinity" else "Infinity"
  | .finite .. => Double.text x

mutual

/-- The compact text of a value. -/
def compact : Json → String
  | .null => "null"
  | .bool b => if b then "true" else "false"
  | .int n => toString n
  | .float x => numeral x
  | .str s => escapedText s
  | .arr items => "[" ++ ",".intercalate (compactItems items) ++ "]"
  | .obj entries => "\x7b" ++ ",".intercalate (compactEntries entries) ++ "\x7d"

/-- The texts of the items of an array. -/
def compactItems : List Json → List String
  | [] => []
  | x :: xs => x.compact :: compactItems xs

/-- The texts of the entries of an object. -/
def compactEntries : List (String × Json) → List String
  | [] => []
  | (k, v) :: rest => (escapedText k ++ ":" ++ v.compact) :: compactEntries rest

end

end TradeGraph.Json

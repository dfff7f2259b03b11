import TradeGraph.Double.Shortest
import TradeGraph.Json.Basic
import TradeGraph.Text.Basic
import TradeGraph.Text.Printable

/-!
# Values in messages

How a value is shown in a message or used as text.
-/

namespace TradeGraph

/-! ## Quoted text -/

/-- One character between quotes. What cannot be shown is escaped by its code point. -/
def quotedChar (quote c : Char) : List Char :=
  if c == '\\' || c == quote then ['\\', c]
  else if c == '\n' then ['\\', 'n']
  else if c == '\r' then ['\\', 'r']
  else if c == '\t' then ['\\', 't']
  else if Text.isPrintable c then [c]
  else
    let n := c.toNat
    if n < 0x100 then ['\\', 'x'] ++ Text.hex 2 n
    else if n < 0x10000 then ['\\', 'u'] ++ Text.hex 4 n
    else ['\\', 'U'] ++ Text.hex 8 n

/-- Text between quotes: double ones if it contains a single quote and no double quote, else single
ones. -/
def quoted (s : String) : String :=
  let cs := s.toList
  let quote := if cs.contains '\'' && !cs.contains '"' then '"' else '\''
  String.ofList (quote :: cs.flatMap (quotedChar quote) ++ [quote])

namespace Json

mutual

/-- A value as a message shows it. -/
def shown : Json → String
  | .null => "None"
  | .bool b => if b then "True" else "False"
  | .int n => toString n
  | .float x => Double.text x
  | .str s => quoted s
  | .arr items => "[" ++ ", ".intercalate (shownItems items) ++ "]"
  | .obj entries => "\x7b" ++ ", ".intercalate (shownEntries entries) ++ "\x7d"

def shownItems : List Json → List String
  | [] => []
  | x :: xs => x.shown :: shownItems xs

def shownEntries : List (String × Json) → List String
  | [] => []
  | (k, v) :: rest => (quoted k ++ ": " ++ v.shown) :: shownEntries rest

end

/-- A value used as text. -/
def asText : Json → String
  | .str s => s
  | v => v.shown

def typeName : Json → String
  | .null => "NoneType"
  | .bool _ => "bool"
  | .int _ => "int"
  | .float _ => "float"
  | .str _ => "str"
  | .arr _ => "list"
  | .obj _ => "dict"

end Json

end TradeGraph

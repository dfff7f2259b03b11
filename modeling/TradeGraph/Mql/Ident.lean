import TradeGraph.Text.Basic

/-!
# Names and text of the emitted language

- `Ident`: an identifier, kept as stem, number and tail so that numbered families stay recognisable
- `identifier`: any text made into identifier characters
- `escape`: any text made fit for a double-quoted literal
-/

namespace TradeGraph.Mql

/-- An identifier: a stem, perhaps a number, and a tail. `ind2Buffer` is `⟨"ind", some 2,
"Buffer"⟩`. -/
structure Ident where
  stem : String
  number : Option Nat := none
  tail : String := ""
deriving DecidableEq, Repr

namespace Ident

/-- The identifier as written. -/
def text (x : Ident) : String :=
  x.stem ++ (match x.number with
    | none => ""
    | some n => toString n) ++ x.tail

/-- A plain identifier. -/
instance : Coe String Ident := ⟨fun s => { stem := s }⟩

end Ident

def isIdentChar (c : Char) : Bool :=
  c.isAlphanum || c == '_'

/-- Every character that an identifier cannot hold becomes an underscore. -/
def identifier (s : String) : String :=
  s.map fun c => if isIdentChar c then c else '_'

/-- One character of a double-quoted literal. Line ends become blanks. -/
def escapeChar (c : Char) : List Char :=
  if c == '\\' || c == '"' then ['\\', c]
  else if c == '\r' || c == '\n' then [' ']
  else [c]

/-- Text made fit to stand between double quotes. -/
def escape (s : String) : String :=
  String.ofList (s.toList.flatMap escapeChar)

/-- The double-quoted literal of a text. -/
def literal (s : String) : String :=
  "\"" ++ escape s ++ "\""

end TradeGraph.Mql

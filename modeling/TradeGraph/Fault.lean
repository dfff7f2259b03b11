import TradeGraph.Field.Problem
import TradeGraph.Json.Reader
import TradeGraph.Node.Kind

/-!
# Faults

Everything that can stop the reading of a document or a compile, as causes.
-/

namespace TradeGraph

/-! ## Documents -/

/-- Fields of a node that do not go together. -/
inductive Conflict where
  | levels
  | periods
  | averages
  | confirmation
  | macdPeriods
deriving DecidableEq, Repr

def Conflict.message : Conflict → String
  | .levels => "overboughtLevel must be greater than oversoldLevel"
  | .periods => "fastPeriod must be smaller than slowPeriod"
  | .averages => "fastEma must be smaller than slowEma"
  | .confirmation => "rsiLongMax must be greater than rsiShortMin"
  | .macdPeriods => "macdFast must be smaller than macdSlow"

inductive DocumentFault where
  | notObject (typeName : String)
  | nodeWithoutId (index : Nat)
  | dataNotObject
  | unknownName (category : Category) (value : Json)
  | unknownKind (type category : Json)
  | invalidData (kind : Kind) (problems : List Problem)
  | conflict (kind : Kind) (c : Conflict)
  | duplicateId
  | edgeWithoutEnd (index : Nat)
  | badSetting (key : String) (value : Json)
  | badConditionMode (mode : String)
  | tooFewTrades
  | unknownIndicator (id : String)
  | noIndicator
  | noRange

def DocumentFault.message : DocumentFault → String
  | .notObject t => "document must be a mapping, got " ++ t
  | .nodeWithoutId i => "nodes[" ++ toString i ++ "] has no id"
  | .dataNotObject => "data must be an object"
  | .unknownName c v => "unknown " ++ c.name ++ " kind " ++ v.shown
  | .unknownKind t c => "unknown node kind (type=" ++ t.shown ++ ", category=" ++ c.shown ++ ")"
  | .invalidData k ps =>
    "invalid " ++ k.name ++ " data (" ++ "; ".intercalate (ps.map Problem.message) ++ ")"
  | .conflict k c =>
    "invalid " ++ k.name ++ " data (" ++ k.name ++ ": Value error, " ++ c.message ++ ")"
  | .duplicateId => "duplicate node id"
  | .edgeWithoutEnd i => "edges[" ++ toString i ++ "] needs both source and target"
  | .badSetting key v => "settings." ++ key ++ ": invalid value " ++ v.shown
  | .badConditionMode mode => "conditionMode must be 'AND' or 'OR', got " ++ quoted mode
  | .tooFewTrades => "maxOpenTrades must be at least 1"
  | .unknownIndicator id => "indicatorNodeId '" ++ id ++ "' does not name any node"
  | .noIndicator => "indicator-based stop loss has no connected indicator"
  | .noRange => "RANGE_OPPOSITE stop loss requires a range breakout node"

/-! ## Faults -/

/-- What a node is used for. -/
inductive Use where
  | timing
  | indicator
  | priceAction
  | position
  | stopLoss
  | takeProfit
  | closeCondition
  | timeExit
  | management
deriving DecidableEq, Repr

def Use.words : Use → String
  | .timing => "timing type"
  | .indicator => "indicator type"
  | .priceAction => "price action type"
  | .position => "position node type"
  | .stopLoss => "stop loss type"
  | .takeProfit => "take profit type"
  | .closeCondition => "close condition type"
  | .timeExit => "time exit type"
  | .management => "trade management type"

/-- Why a run stopped.

`notObject`: entries were asked of a value that is no object. `notText`: a text was needed.
`notSequence`: a value cannot be gone through. `notKey`: a value cannot be looked up in a table.
`missingField`: a field was asked of a node whose kind has none of that name. `outOfRange` and
`notNumeral`: a value cannot be made a number. -/
inductive Fault where
  | document (node : Option String) (fault : DocumentFault)
  | notObject
  | notText
  | notSequence
  | notKey
  | missingField
  | outOfRange
  | notNumeral
  | unsupported (use : Use) (kind : Kind)
  | unexpanded (id : String)
  | unknownPreset (id : String) (known : List String)
  | unreadable (e : Json.ReadError)

namespace Fault

/-- The message of a document fault, with the node at fault in front. -/
def documentMessage (node : Option String) (fault : DocumentFault) : String :=
  match node with
  | none => fault.message
  | some id => "node '" ++ id ++ "': " ++ fault.message

def inNode (id : String) (fault : DocumentFault) : Fault :=
  .document (some id) fault

/-- What is said of a composite node that has not been expanded. -/
def unexpandedMessage (id : String) : String :=
  "Entry strategy node '" ++ id ++ "' must be decomposed before categorizing"

def unknownPresetMessage (id : String) (known : List String) : String :=
  "Unknown preset " ++ quoted id ++ " (known: " ++ ", ".intercalate known ++ ")"

def words : Fault → String
  | .document node fault => documentMessage node fault
  | .notObject => "a value that is no object has no entries"
  | .notText => "a text is needed"
  | .notSequence => "a value that is no list cannot be gone through"
  | .notKey => "a list or an object cannot be looked up"
  | .missingField => "a node of this kind has no such field"
  | .outOfRange => "a number is out of range"
  | .notNumeral => "a value is no number"
  | .unsupported use kind => "Unsupported " ++ use.words ++ ": " ++ kind.name
  | .unexpanded id => unexpandedMessage id
  | .unknownPreset id known => unknownPresetMessage id known
  | .unreadable .malformed => "the document is no JSON text"
  | .unreadable .tooDeep => "the document is nested too deeply"
  | .unreadable .tooManyDigits => "an integer of the document has too many digits"

end Fault

end TradeGraph

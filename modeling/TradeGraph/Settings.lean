import TradeGraph.Fault

/-!
# Settings

The settings of a strategy document. Numbers are taken from numbers, flags and text, with the digits
of any script; a missing or null setting keeps its initial value.
-/

namespace TradeGraph

/-- How the conditions of several signals are joined. -/
inductive ConditionMode where
  | all
  | any
deriving DecidableEq, Repr

/-- The mode as a document names it. -/
def ConditionMode.word : ConditionMode → String
  | .all => "AND"
  | .any => "OR"

/-- The settings of a strategy. Zero for a daily limit means that there is none. -/
structure Settings where
  magicNumber : Int := 123456
  comment : String := "QuantDSL EA"
  maxOpenTrades : Int := 1
  allowHedging : Bool := false
  maxBuyPositions : Int := 1
  maxSellPositions : Int := 1
  conditionMode : ConditionMode := .all
  maxTradesPerDay : Int := 0
  maxDailyProfitPercent : Float := 0.0
  maxDailyLossPercent : Float := 0.0

/-! ## Casts -/

namespace Cast

/-- A cast fails because the value is no such thing, or because it is out of range. -/
inductive Failure where
  | invalid
  | outOfRange
deriving DecidableEq, Repr

/-- An integer; doubles are cut off. -/
def integer : Json → Except Failure Int
  | .int n => .ok n
  | .bool b => .ok (if b then 1 else 0)
  | .float x =>
    match Double.parts x with
    | .nan => .error .invalid
    | .infinite _ => .error .outOfRange
    | .finite .. => .ok ((Double.truncate? x).getD 0)
  | .str s =>
    match Text.readGroupedInt? Text.digit? (Text.strip s.toList) with
    | some n => .ok n
    | none => .error .invalid
  | _ => .error .invalid

/-- A double. -/
def number : Json → Except Failure Float
  | .int n =>
    let x := Double.ofInt n
    if Double.isFinite x then .ok x else .error .outOfRange
  | .bool b => .ok (if b then 1.0 else 0.0)
  | .float x => .ok x
  | .str s =>
    match Text.readGroupedFloat? Text.digit? (Text.strip s.toList) with
    | some x => .ok x
    | none => .error .invalid
  | _ => .error .invalid

def text (v : Json) : Except Failure String :=
  .ok v.asText

/-- A flag and nothing else. -/
def flag : Json → Except Failure Bool
  | .bool b => .ok b
  | _ => .error .invalid

end Cast

/-! ## Reading -/

namespace Settings

/-- One setting, if it is given. -/
def one {α : Type} (es : Entries) (key : String) (cast : Json → Except Cast.Failure α) :
    Except Fault (Option α) :=
  match es.get key with
  | .null => .ok none
  | v =>
    match cast v with
    | .ok a => .ok (some a)
    | .error .invalid => .error (.document none (.badSetting key v))
    | .error .outOfRange => .error .outOfRange

def mode (w : String) : Except Fault ConditionMode :=
  if w == "AND" then .ok .all
  else if w == "OR" then .ok .any
  else .error (.document none (.badConditionMode w))

/-- The settings in the entries of an object. -/
def ofEntries (es : Entries) : Except Fault Settings := do
  let initial : Settings := {}
  let magicNumber ← one es "magicNumber" Cast.integer
  let comment ← one es "comment" Cast.text
  let maxOpenTrades ← one es "maxOpenTrades" Cast.integer
  let allowHedging ← one es "allowHedging" Cast.flag
  let maxBuyPositions ← one es "maxBuyPositions" Cast.integer
  let maxSellPositions ← one es "maxSellPositions" Cast.integer
  let modeWord ← one es "conditionMode" Cast.text
  let maxTradesPerDay ← one es "maxTradesPerDay" Cast.integer
  let maxDailyProfitPercent ← one es "maxDailyProfitPercent" Cast.number
  let maxDailyLossPercent ← one es "maxDailyLossPercent" Cast.number
  let conditionMode ← mode (modeWord.getD initial.conditionMode.word)
  let ceiling := maxOpenTrades.getD initial.maxOpenTrades
  if ceiling < 1 then
    .error (.document none .tooFewTrades)
  else
    .ok
      { magicNumber := magicNumber.getD initial.magicNumber
        comment := comment.getD initial.comment
        maxOpenTrades := ceiling
        allowHedging := allowHedging.getD initial.allowHedging
        maxBuyPositions := maxBuyPositions.getD ceiling
        maxSellPositions := maxSellPositions.getD ceiling
        conditionMode
        maxTradesPerDay := maxTradesPerDay.getD initial.maxTradesPerDay
        maxDailyProfitPercent := maxDailyProfitPercent.getD initial.maxDailyProfitPercent
        maxDailyLossPercent := maxDailyLossPercent.getD initial.maxDailyLossPercent }

/-- The settings of a document. What counts as absent gives the initial ones. -/
def read (raw : Json) : Except Fault Settings :=
  if !raw.truthy then .ok {}
  else
    match raw with
    | .obj es => ofEntries es
    | _ => .error .notObject

end Settings

end TradeGraph

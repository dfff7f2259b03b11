import TradeGraph.Json.Display

/-!
# Problems of a field

What can be wrong with the value given for a field, where it was found, and how it is said.
-/

namespace TradeGraph

/-! ## Bounds -/

/-- A limit of a number. -/
inductive Bound (α : Type) where
  | atMost (b : α)
  | below (b : α)
  | atLeast (b : α)
  | above (b : α)
deriving Repr

/-- The limits of a closed interval. The upper one is tested first. -/
def Bound.between {α : Type} (low high : α) : List (Bound α) :=
  [.atMost high, .atLeast low]

/-- Does the integer keep the limit? -/
def Bound.holdsInt (n : Int) : Bound Int → Bool
  | .atMost b => n ≤ b
  | .below b => n < b
  | .atLeast b => b ≤ n
  | .above b => b < n

/-- Does the double keep the limit? NaN keeps none. -/
def Bound.holdsFloat (x : Float) : Bound Float → Bool
  | .atMost b => x ≤ b
  | .below b => x < b
  | .atLeast b => b ≤ x
  | .above b => b < x

/-- A limit in words, given the text of its number. -/
def Bound.words {α : Type} (text : α → String) : Bound α → String
  | .atMost b => "less than or equal to " ++ text b
  | .below b => "less than " ++ text b
  | .atLeast b => "greater than or equal to " ++ text b
  | .above b => "greater than " ++ text b

/-! ## Causes -/

/-- What is wrong with a value. -/
inductive Cause where
  | notText
  | notFlag
  | flagUnclear
  | notInteger
  | integerText
  | integerFraction
  | integerSize
  | notFinite
  | notNumber
  | numberText
  | integerBound (b : Bound Int)
  | numberBound (b : Bound Float)
  | notWord (words : List String)
  | notList
  | notDictionary
  | notSlot

/-- Words in quotes, the last two joined by `or`. -/
def quotedChoice : List String → String
  | [] => ""
  | [w] => quoted w
  | [v, w] => quoted v ++ " or " ++ quoted w
  | w :: ws => quoted w ++ ", " ++ quotedChoice ws

def Cause.message : Cause → String
  | .notText => "Input should be a valid string"
  | .notFlag => "Input should be a valid boolean"
  | .flagUnclear => "Input should be a valid boolean, unable to interpret input"
  | .notInteger => "Input should be a valid integer"
  | .integerText => "Input should be a valid integer, unable to parse string as an integer"
  | .integerFraction => "Input should be a valid integer, got a number with a fractional part"
  | .integerSize => "Unable to parse input string as an integer, exceeded maximum size"
  | .notFinite => "Input should be a finite number"
  | .notNumber => "Input should be a valid number"
  | .numberText => "Input should be a valid number, unable to parse string as a number"
  | .integerBound b => "Input should be " ++ b.words toString
  | .numberBound b => "Input should be " ++ b.words Double.plainText
  | .notWord words => "Input should be " ++ quotedChoice words
  | .notList => "Input should be a valid list"
  | .notDictionary => "Input should be a valid dictionary"
  | .notSlot => "Input should be a valid dictionary or instance of TimeSlot"

/-! ## Problems -/

/-- A cause and the path to the value that has it. -/
structure Problem where
  path : List String
  cause : Cause

def Problem.message (p : Problem) : String :=
  ".".intercalate p.path ++ ": " ++ p.cause.message

/-- A value, or all problems that were found. -/
abbrev Checked (α : Type) := Except (List Problem) α

namespace Checked

/-- A value that has a problem. -/
def fail {α : Type} (path : List String) (cause : Cause) : Checked α :=
  .error [⟨path, cause⟩]

/-- Join two results; the problems of both are kept. -/
def both {α β : Type} : Checked α → Checked β → Checked (α × β)
  | .ok a, .ok b => .ok (a, b)
  | .ok _, .error q => .error q
  | .error p, .ok _ => .error p
  | .error p, .error q => .error (p ++ q)

/-- Join the results of a list; the problems of all are kept. -/
def sequence {α : Type} : List (Checked α) → Checked (List α)
  | [] => .ok []
  | c :: cs => (both c (sequence cs)).map fun (a, as) => a :: as

end Checked

end TradeGraph

import TradeGraph.Double.Basic
import TradeGraph.Text.Basic
import TradeGraph.Text.Digit

/-!
# Numerals

Reading integers and doubles from text. What counts as a digit is a parameter: some numerals admit
ASCII digits only, others the digits of every script. In a grouped numeral an underscore may stand
between two digits.
-/

namespace TradeGraph.Text

abbrev DigitClass := Char → Option Nat

/-- The longest run of digits at the front and what follows it. -/
def digitRun (digit : DigitClass) (cs : List Char) : List Nat × List Char :=
  let isDigit (c : Char) : Bool := (digit c).isSome
  ((cs.takeWhile isDigit).filterMap digit, cs.dropWhile isDigit)

/-- The number whose decimal digits are given, the highest first. -/
def ofDigits (ds : List Nat) : Nat :=
  ds.foldl (fun n d => 10 * n + d) 0

/-- An optional sign: is it a minus, and what follows. -/
def readSign : List Char → Bool × List Char
  | '+' :: cs => (false, cs)
  | '-' :: cs => (true, cs)
  | cs => (false, cs)

/-! ## Integers -/

/-- How many digits an integer may have, leading zeros included. -/
def maxDigits : Nat := 4300

/-- An optional sign, one or more digits, and nothing else. -/
def readSigned? (digit : DigitClass) (cs : List Char) : Option (Bool × List Nat) :=
  let (negative, body) := readSign cs
  match digitRun digit body with
  | (d :: ds, []) => some (negative, d :: ds)
  | _ => none

/-- A signed integer and nothing else. -/
def readInt? (digit : DigitClass) (cs : List Char) : Option Int := do
  let (negative, ds) ← readSigned? digit cs
  if maxDigits < ds.length then none else some (Double.signed negative (ofDigits ds))

/-! ## Doubles -/

/-- The exponent part `e[sign]digits`, or nothing at the end of the text. -/
def readExponent? (digit : DigitClass) : List Char → Option Int
  | [] => some 0
  | c :: cs =>
    if c == 'e' || c == 'E' then
      (readSigned? digit cs).map fun (negative, ds) => Double.signed negative (ofDigits ds)
    else none

/-- The words for infinity and NaN, in any case. -/
def readSpecial? (cs : List Char) : Option Float :=
  let word := String.ofList (cs.map Char.toLower)
  if word == "inf" || word == "infinity" then some Double.infinity
  else if word == "nan" then some (0.0 / 0.0)
  else none

/-- A decimal with digits on at least one side of its point, or a word for infinity or NaN. -/
def readFloat? (digit : DigitClass) (cs : List Char) : Option Float :=
  let (negative, body) := readSign cs
  match readSpecial? body with
  | some x => some (Double.withSign negative x)
  | none =>
    let (whole, afterWhole) := digitRun digit body
    let (fraction, afterFraction) :=
      match afterWhole with
      | '.' :: rest => digitRun digit rest
      | rest => ([], rest)
    do
      let exponent ← readExponent? digit afterFraction
      if whole.isEmpty && fraction.isEmpty then none
      else
        some (Double.ofDecimal negative (ofDigits (whole ++ fraction))
          (exponent - fraction.length))

/-! ## Grouped digits -/

/-- The text without its underscores, if each of them stands between two digits. The flag says
whether a digit has just been read. -/
def ungroup? (digit : DigitClass) : Bool → List Char → Option (List Char)
  | _, [] => some []
  | _, ['_'] => none
  | afterDigit, '_' :: c :: cs =>
    if afterDigit && (digit c).isSome then (ungroup? digit true cs).map (c :: ·) else none
  | _, c :: cs => (ungroup? digit (digit c).isSome cs).map (c :: ·)

/-- A signed integer whose digits may be grouped. -/
def readGroupedInt? (digit : DigitClass) (cs : List Char) : Option Int :=
  (ungroup? digit false cs).bind (readInt? digit)

/-- A decimal whose digits may be grouped, or a word for infinity or NaN. -/
def readGroupedFloat? (digit : DigitClass) (cs : List Char) : Option Float :=
  (ungroup? digit false cs).bind (readFloat? digit)

end TradeGraph.Text

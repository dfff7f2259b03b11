import TradeGraph.Field.Problem
import TradeGraph.Text.Numeral

/-!
# Numerals in fields

A field takes numbers from text, in ASCII digits. An integer is first brought into its plain form:
white space around it, a plus sign, leading zeros, a fraction of zeros and underscores between
digits are dropped. Zeros in front are dropped with the underscores among them, up to the next digit
or minus sign.
-/

namespace TradeGraph.Numeral

/-! ## Underscores -/

/-- Is there something else before and after each underscore? The flag says whether one may stand
here. -/
def separates : Bool → List Char → Bool
  | allowed, [] => allowed
  | allowed, c :: cs => if c == '_' then allowed && separates false cs else separates true cs

/-- The text without its underscores, or as it is if one of them is misplaced. -/
def ungrouped (cs : List Char) : List Char :=
  if separates false cs then cs.filter (· != '_') else cs

/-! ## Integers -/

/-- What follows a zero and the zeros and underscores behind it. At the end of the text, and before
a point, the last character stays. -/
def afterZeros? (last : Char) : List Char → Option (List Char)
  | [] => some [last]
  | c :: cs =>
    if c == '0' || c == '_' then afterZeros? c cs
    else if c.isDigit || c == '-' then some (c :: cs)
    else if c == '.' then some (last :: c :: cs)
    else none

/-- A text that starts with a digit, without its leading zeros. -/
def dropZeros? : List Char → Option (List Char)
  | [] => none
  | c :: cs =>
    if c == '0' then afterZeros? c cs
    else if c.isDigit then some (c :: cs)
    else none

/-- The text without a fraction of one or more zeros. -/
def dropFraction (cs : List Char) : List Char :=
  match cs.dropWhile (· != '.') with
  | _ :: z :: zs => if (z :: zs).all (· == '0') then cs.takeWhile (· != '.') else cs
  | _ => cs

def plainForm? (cs : List Char) : Option (List Char) :=
  let unpadded :=
    match Text.strip cs with
    | '+' :: body => dropZeros? body
    | '-' :: body => (dropZeros? body).map ('-' :: ·)
    | body => dropZeros? body
  unpadded.map fun body => ungrouped (dropFraction body)

/-- A minus sign, if there is one, and what follows. -/
def readMinus : List Char → Bool × List Char
  | '-' :: cs => (true, cs)
  | cs => (false, cs)

/-- The integer of a plain form: no leading zeros, and at most `Text.maxDigits` digits. -/
def plain? (cs : List Char) : Option Int :=
  let (negative, body) := readMinus cs
  match Text.digitRun Text.asciiDigit? body with
  | (d :: ds, []) =>
    if (d == 0 && !ds.isEmpty) || Text.maxDigits < (d :: ds).length then none
    else some (Double.signed negative (Text.ofDigits (d :: ds)))
  | _ => none

/-- Does the text start with an integer of more than `Text.maxDigits` digits? -/
def isOverlong (cs : List Char) : Bool :=
  match Text.digitRun Text.asciiDigit? (readMinus cs).2 with
  | (d :: ds, _) => d != 0 && Text.maxDigits < (d :: ds).length
  | _ => false

def readIntegerText (cs : List Char) : Except Cause Int :=
  if isOverlong cs then .error .integerSize
  else
    match (plainForm? cs).bind plain? with
    | some n => .ok n
    | none => .error .integerText

/-! ## Doubles -/

/-- The double of a text. White space around it and underscores in it may be dropped, not both. -/
def readNumberText (cs : List Char) : Except Cause Float :=
  match Text.readFloat? Text.asciiDigit? (Text.strip cs) with
  | some x => .ok x
  | none =>
    match Text.readFloat? Text.asciiDigit? (ungrouped cs) with
    | some x => .ok x
    | none => .error .numberText

end TradeGraph.Numeral

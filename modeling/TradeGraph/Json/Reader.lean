import TradeGraph.Json.Basic
import TradeGraph.Text.Numeral

/-!
# Reading JSON

A recursive-descent reader over the characters of a text. It accepts standard JSON and the three
words `NaN`, `Infinity` and `-Infinity`. A number without fraction and exponent is an integer of at
most `Text.maxDigits` digits, any other number is the nearest double. Of two entries with one key
the later value stands at the earlier place.
-/

namespace TradeGraph.Json

/-- Why a text is refused: it is no JSON, its arrays and objects are nested too deeply, or an
integer in it has too many digits. -/
inductive ReadError where
  | malformed
  | tooDeep
  | tooManyDigits
deriving DecidableEq, Repr

/-- What was read, if it is JSON. -/
def wellFormed {α : Type} : Option α → Except ReadError α
  | some r => .ok r
  | none => .error .malformed

/-- Skip blanks, tabs, line feeds and carriage returns. -/
def skipSpace (cs : List Char) : List Char :=
  cs.dropWhile fun c => c == ' ' || c == '\n' || c == '\t' || c == '\r'

/-! ## Numbers -/

/-- The longest run of ASCII digits and what follows it. -/
def digitsOf (cs : List Char) : List Nat × List Char :=
  (cs.takeWhile Char.isDigit |>.map fun c => c.toNat - '0'.toNat, cs.dropWhile Char.isDigit)

/-- A fraction `.digits`, if one follows. -/
def readFraction (cs : List Char) : Option (List Nat) × List Char :=
  match cs with
  | '.' :: rest =>
    match digitsOf rest with
    | ([], _) => (none, cs)
    | (ds, tail) => (some ds, tail)
  | _ => (none, cs)

/-- An exponent `e[sign]digits`, if one follows. -/
def readPower (cs : List Char) : Option Int × List Char :=
  match cs with
  | c :: rest =>
    if c == 'e' || c == 'E' then
      let (negative, body) := Text.readSign rest
      match digitsOf body with
      | ([], _) => (none, cs)
      | (ds, tail) => (some (Double.signed negative (Text.ofDigits ds)), tail)
    else (none, cs)
  | [] => (none, cs)

/-- The digits before the point. A leading zero stands alone. -/
def readWhole? (cs : List Char) : Option (List Nat × List Char) :=
  match cs with
  | '0' :: rest => some ([0], rest)
  | _ =>
    match digitsOf cs with
    | ([], _) => none
    | (ds, rest) => some (ds, rest)

def readNumber (negative : Bool) (cs : List Char) : Except ReadError (Json × List Char) := do
  let (whole, afterWhole) ← wellFormed (readWhole? cs)
  let (fraction, afterFraction) := readFraction afterWhole
  let (power, rest) := readPower afterFraction
  match fraction, power with
  | none, none =>
    if Text.maxDigits < whole.length then .error .tooManyDigits
    else .ok (.int (Double.signed negative (Text.ofDigits whole)), rest)
  | _, _ =>
    let ds := fraction.getD []
    .ok (.float (Double.ofDecimal negative (Text.ofDigits (whole ++ ds))
      (power.getD 0 - ds.length)), rest)

/-! ## Strings -/

/-- The value of a hexadecimal digit. -/
def hexDigit? (c : Char) : Option Nat :=
  if '0' ≤ c ∧ c ≤ '9' then some (c.toNat - '0'.toNat)
  else if 'a' ≤ c ∧ c ≤ 'f' then some (c.toNat - 'a'.toNat + 10)
  else if 'A' ≤ c ∧ c ≤ 'F' then some (c.toNat - 'A'.toNat + 10)
  else none

/-- Four hexadecimal digits. -/
def readUnit? : List Char → Option (Nat × List Char)
  | a :: b :: c :: d :: rest => do
    let a ← hexDigit? a
    let b ← hexDigit? b
    let c ← hexDigit? c
    let d ← hexDigit? d
    some (((a * 16 + b) * 16 + c) * 16 + d, rest)
  | _ => none

/-- The character of a `\u` escape; two units that form a surrogate pair are one character. -/
def readEscapedUnit? (cs : List Char) : Option (Char × List Char) := do
  let (high, rest) ← readUnit? cs
  match rest with
  | '\\' :: 'u' :: tail =>
    if 0xd800 ≤ high ∧ high < 0xdc00 then
      match readUnit? tail with
      | some (low, after) =>
        if 0xdc00 ≤ low ∧ low < 0xe000 then
          some (Char.ofNat (0x10000 + (high - 0xd800) * 0x400 + (low - 0xdc00)), after)
        else some (Char.ofNat high, rest)
      | none => none
    else some (Char.ofNat high, rest)
  | _ => some (Char.ofNat high, rest)

/-- The character of a one-letter escape. -/
def simpleEscape? : Char → Option Char
  | '"' => some '"'
  | '\\' => some '\\'
  | '/' => some '/'
  | 'b' => some '\x08'
  | 'f' => some '\x0c'
  | 'n' => some '\n'
  | 'r' => some '\r'
  | 't' => some '\t'
  | _ => none

/-- The rest of a string whose opening quote has been read. Control characters must be escaped. -/
def readString? : Nat → List Char → Option (List Char × List Char)
  | 0, _ => none
  | _, [] => none
  | fuel + 1, c :: cs =>
    if c == '"' then some ([], cs)
    else if c == '\\' then
      match cs with
      | 'u' :: rest => do
        let (x, tail) ← readEscapedUnit? rest
        let (xs, after) ← readString? fuel tail
        some (x :: xs, after)
      | e :: rest => do
        let x ← simpleEscape? e
        let (xs, after) ← readString? fuel rest
        some (x :: xs, after)
      | [] => none
    else if c.toNat < 0x20 then none
    else do
      let (xs, after) ← readString? fuel cs
      some (c :: xs, after)

/-- A string from its opening quote. -/
def readText? : List Char → Option (String × List Char)
  | '"' :: cs => (readString? (cs.length + 1) cs).map fun (s, rest) => (String.ofList s, rest)
  | _ => none

/-! ## Values -/

/-- The value that a word stands for, if the word stands at the front. -/
def readWord (word : String) (value : Json) (cs : List Char) :
    Except ReadError (Json × List Char) :=
  if word.toList.isPrefixOf cs then .ok (value, cs.drop word.length) else .error .malformed

/-- A word, a number or a string. -/
def readLeaf (cs : List Char) : Except ReadError (Json × List Char) :=
  match cs with
  | '"' :: _ => wellFormed ((readText? cs).map fun (s, rest) => (.str s, rest))
  | 'n' :: _ => readWord "null" .null cs
  | 't' :: _ => readWord "true" (.bool true) cs
  | 'f' :: _ => readWord "false" (.bool false) cs
  | 'N' :: _ => readWord "NaN" (.float (0.0 / 0.0)) cs
  | 'I' :: _ => readWord "Infinity" (.float Double.infinity) cs
  | '-' :: 'I' :: rest => readWord "Infinity" (.float (-Double.infinity)) ('I' :: rest)
  | '-' :: rest => readNumber true rest
  | _ => readNumber false cs

mutual

/-- A value at the front of a text. The first argument bounds the steps, at most two for a
character; the second bounds how deep arrays and objects may be nested. -/
def readValue : Nat → Nat → List Char → Except ReadError (Json × List Char)
  | 0, _, _ => .error .malformed
  | fuel + 1, depth, cs =>
    match cs with
    | '[' :: rest =>
      match depth with
      | 0 => .error .tooDeep
      | depth + 1 =>
        match skipSpace rest with
        | ']' :: tail => .ok (.arr [], tail)
        | body => do
          let (xs, tail) ← readItems fuel depth body
          .ok (.arr xs, tail)
    | '\x7b' :: rest =>
      match depth with
      | 0 => .error .tooDeep
      | depth + 1 =>
        match skipSpace rest with
        | '\x7d' :: tail => .ok (.obj [], tail)
        | body => do
          let (es, tail) ← readEntries fuel depth [] body
          .ok (.obj es, tail)
    | _ => readLeaf cs

/-- The items of an array up to its closing bracket. -/
def readItems : Nat → Nat → List Char → Except ReadError (List Json × List Char)
  | 0, _, _ => .error .malformed
  | fuel + 1, depth, cs => do
    let (x, rest) ← readValue fuel depth cs
    match skipSpace rest with
    | ']' :: tail => .ok ([x], tail)
    | ',' :: more =>
      let (xs, tail) ← readItems fuel depth (skipSpace more)
      .ok (x :: xs, tail)
    | _ => .error .malformed

/-- The entries of an object up to its closing brace, added to those read before. -/
def readEntries : Nat → Nat → Entries → List Char → Except ReadError (Entries × List Char)
  | 0, _, _, _ => .error .malformed
  | fuel + 1, depth, done, cs => do
    let (key, afterKey) ← wellFormed (readText? cs)
    match skipSpace afterKey with
    | ':' :: body =>
      let (value, rest) ← readValue fuel depth (skipSpace body)
      let entries := done.insert key value
      match skipSpace rest with
      | '\x7d' :: tail => .ok (entries, tail)
      | ',' :: more => readEntries fuel depth entries (skipSpace more)
      | _ => .error .malformed
    | _ => .error .malformed

end

/-- How deep arrays and objects of a document may be nested. -/
def maxDepth : Nat := 990

/-- The value of a whole text. -/
def parse (s : String) : Except ReadError Json := do
  let cs := skipSpace s.toList
  let (v, rest) ← readValue (2 * cs.length + 2) maxDepth cs
  if (skipSpace rest).isEmpty then .ok v else .error .malformed

end TradeGraph.Json

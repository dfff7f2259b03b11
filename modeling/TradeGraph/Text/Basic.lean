/-!
# Text

The few operations on text that the reading and writing modules share.
-/

namespace TradeGraph.Text

/-! ## White space -/

/-- The characters of the Unicode property White_Space. -/
def isSpace (c : Char) : Bool :=
  let n := c.toNat
  (0x9 ≤ n && n ≤ 0xd) || n == 0x20 || n == 0x85 || n == 0xa0 || n == 0x1680 ||
    (0x2000 ≤ n && n ≤ 0x200a) || n == 0x2028 || n == 0x2029 || n == 0x202f || n == 0x205f ||
    n == 0x3000

/-- Remove white space from both ends. -/
def strip (cs : List Char) : List Char :=
  ((cs.dropWhile isSpace).reverse.dropWhile isSpace).reverse

/-! ## Columns -/

/-- Fill with blanks up to a width, counted in characters. Longer text is left alone. -/
def padRight (width : Nat) (s : String) : String :=
  s ++ String.ofList (List.replicate (width - s.length) ' ')

/-- At least two characters, a missing one written as `0`. A sign counts as a character. -/
def zeroPad2 (n : Int) : String :=
  if 0 ≤ n ∧ n < 10 then "0" ++ toString n else toString n

def clock (hour minute : Int) : String :=
  zeroPad2 hour ++ ":" ++ zeroPad2 minute

/-! ## Lines and numerals -/

/-- Lines joined by line feeds, without one at the end. -/
def lines (ls : List String) : String :=
  "\n".intercalate ls

/-- The lower-case hexadecimal numeral of `n` in `width` digits, high digits dropped. -/
def hex : Nat → Nat → List Char
  | 0, _ => []
  | width + 1, n => hex width (n / 16) ++ [Nat.digitChar (n % 16)]

/-- Does the text contain the fragment? -/
def contains (fragment : List Char) : List Char → Bool
  | [] => fragment.isEmpty
  | c :: cs => fragment.isPrefixOf (c :: cs) || contains fragment cs

end TradeGraph.Text

import Mathlib.Data.List.Basic
import TradeGraph.Mql.Function
import TradeGraph.Proofs.Quoting

/-!
# Tokens of emitted code

Emitted code is read back as a sequence of words and marks, outside of quotes and comments. What a
program refers to, declares and defines is said in terms of these tokens, not of the trees that the
text was printed from.
-/

namespace TradeGraph.Mql

open List

variable {w s g : String} {rest : List Char}

/-! ## Reading -/

/-- A token: a word by itself, a word before an opening parenthesis, a word after a point, or one
other character. -/
inductive Token where
  | name (w : String)
  | call (w : String)
  | field (w : String)
  | mark (c : Char)
deriving DecidableEq, Repr

/-- Where a reader is: in code, in a word, after a slash, in quotes, after a backslash in quotes, or
in a comment. It remembers whether a point stands before the word. -/
inductive Mode where
  | code (afterPoint : Bool)
  | word (afterPoint : Bool) (seen : List Char)
  | slash
  | quoted
  | escaped
  | comment

/-- Read a character outside of words, quotes and comments. Blanks and line ends are no tokens. -/
def readCode (afterPoint : Bool) (c : Char) : List Token × Mode :=
  if isIdentChar c then ([], .word afterPoint [c])
  else if c == '"' then ([], .quoted)
  else if c == '/' then ([], .slash)
  else if c == ' ' || c == '\n' then ([], .code false)
  else ([.mark c], .code (c == '.'))

/-- The token of a word, given the character after it. -/
def endWord (afterPoint : Bool) (seen : List Char) (next : Option Char) : Token :=
  if afterPoint then .field (String.ofList seen)
  else if next == some '(' then .call (String.ofList seen)
  else .name (String.ofList seen)

namespace Mode

def read : Mode → Char → List Token × Mode
  | .code afterPoint, c => readCode afterPoint c
  | .word afterPoint seen, c =>
    if isIdentChar c then ([], .word afterPoint (seen ++ [c]))
    else (endWord afterPoint seen (some c) :: (readCode false c).1, (readCode false c).2)
  | .slash, c =>
    if c == '/' then ([], .comment)
    else (.mark '/' :: (readCode false c).1, (readCode false c).2)
  | .quoted, c => ([], if c == '"' then .code false else if c == '\\' then .escaped else .quoted)
  | .escaped, _ => ([], .quoted)
  | .comment, c => ([], if c == '\n' then .code false else .comment)

/-- What is left to say at the end of a text. -/
def finish : Mode → List Token
  | .word afterPoint seen => [endWord afterPoint seen none]
  | .slash => [.mark '/']
  | _ => []

end Mode

/-- The tokens of the characters from a mode on. -/
def tokensFrom : Mode → List Char → List Token
  | m, [] => m.finish
  | m, c :: cs => (m.read c).1 ++ tokensFrom (m.read c).2 cs

abbrev Mode.start : Mode := .code false

def tokens (s : String) : List Token :=
  tokensFrom .start s.toList

/-! ## Words, declarations and definitions -/

namespace Token

def word? : Token → Option String
  | .name w | .call w | .field w => some w
  | .mark _ => none

/-- The word of a token before an opening parenthesis. -/
def call? : Token → Option String
  | .call w => some w
  | _ => none

def isBrace : Token → Bool
  | .mark c => c == '\x7b' || c == '\x7d'
  | _ => false

/-- Is the token a bracket around a subscript? -/
def isBracket : Token → Bool
  | .mark c => c == '[' || c == ']'
  | _ => false

end Token

/-- The words of a text outside of quotes and comments. -/
def words (s : String) : List String :=
  (tokens s).filterMap Token.word?

/-- The words of a text that stand before an opening parenthesis. -/
def calls (s : String) : List String :=
  (tokens s).filterMap Token.call?

/-- The words that begin a declaration. -/
def typeNames : List String :=
  ["bool", "datetime", "double", "int", "MqlDateTime", "SMLTPState", "struct", "ulong"]

/-- The name that a line declares at the outer level, and the tokens after it. -/
def declaration? (line : String) : Option (String × List Token) :=
  match tokens line with
  | .name type :: .name x :: rest =>
    if typeNames.contains type && line.toList.head? != some ' ' then some (x, rest) else none
  | _ => none

def declaredName? (line : String) : Option String :=
  (declaration? line).map Prod.fst

/-- The words that a line uses: all but those that begin a declaration at the outer level. -/
def usedWords (line : String) : List String :=
  match declaration? line with
  | some (_, rest) => rest.filterMap Token.word?
  | none => words line

/-- The functions that tokens define, given the number of open braces: outside of braces a word
before an opening parenthesis is the name of a function. -/
def definitions : Nat → List Token → List String
  | _, [] => []
  | depth, .mark c :: ts =>
    definitions (if c = '\x7b' then depth + 1 else if c = '\x7d' then depth - 1 else depth) ts
  | depth, .call f :: ts => if depth = 0 then f :: definitions depth ts else definitions depth ts
  | depth, _ :: ts => definitions depth ts

def definedFunctions (s : String) : List String :=
  definitions 0 (tokens s)

/-- The number of open braces after tokens, given the number before them; none if a brace is closed
that was not opened. -/
def openBraces : Nat → List Token → Option Nat
  | depth, [] => some depth
  | depth, .mark c :: ts =>
    if c = '\x7b' then openBraces (depth + 1) ts
    else if c = '\x7d' then
      match depth with
      | 0 => none
      | outer + 1 => openBraces outer ts
    else openBraces depth ts
  | depth, _ :: ts => openBraces depth ts

/-! ## Words in front of other text -/

def isWord (w : String) : Bool :=
  !w.toList.isEmpty && w.toList.all isIdentChar

/-- The text cannot go on with a word: it is empty or starts with another character, which is no
opening parenthesis either. -/
def Apart : List Char → Prop
  | [] => True
  | c :: _ => isIdentChar c = false ∧ c ≠ '('

theorem tokensFrom_word_rest (afterPoint : Bool) (seen : List Char) {cs : List Char}
    (hcs : ∀ c ∈ cs, isIdentChar c = true) (rest : List Char)
    (hrest : ∀ c ∈ rest.head?, isIdentChar c = false) :
    tokensFrom (.word afterPoint seen) (cs ++ rest) =
      endWord afterPoint (seen ++ cs) rest.head? :: tokensFrom .start rest := by
  induction cs generalizing seen with
  | nil =>
    cases rest with
    | nil => simp [tokensFrom, Mode.finish]
    | cons d rest =>
      have hd : isIdentChar d = false := hrest d rfl
      simp [tokensFrom, Mode.read, hd]
  | cons c cs ih =>
    have hc : isIdentChar c = true := hcs c mem_cons_self
    have ih := ih (seen ++ [c]) fun d hd => hcs d (mem_cons_of_mem _ hd)
    simpa [tokensFrom, Mode.read, hc] using ih

theorem tokensFrom_word {afterPoint : Bool} (hw : isWord w = true)
    (hrest : ∀ c ∈ rest.head?, isIdentChar c = false) :
    tokensFrom (.code afterPoint) (w.toList ++ rest) =
      endWord afterPoint w.toList rest.head? :: tokensFrom .start rest := by
  rw [isWord, Bool.and_eq_true] at hw
  obtain ⟨hne, hall⟩ := hw
  rw [all_eq_true] at hall
  cases hcs : w.toList with
  | nil => simp [hcs] at hne
  | cons c cs =>
    rw [hcs] at hall
    have hc : isIdentChar c = true := hall c mem_cons_self
    have := tokensFrom_word_rest afterPoint [c]
      (fun d hd => hall d (mem_cons_of_mem _ hd)) rest hrest
    simpa [tokensFrom, Mode.read, readCode, hc] using this

theorem apart_head (h : Apart rest) :
    ∀ c ∈ rest.head?, isIdentChar c = false := by
  cases rest with
  | nil => simp
  | cons c cs => simpa using h.1

theorem tokensFrom_name (hw : isWord w = true) (hrest : Apart rest) :
    tokensFrom .start (w.toList ++ rest) = .name w :: tokensFrom .start rest := by
  rw [tokensFrom_word hw (apart_head hrest)]
  cases rest with
  | nil => simp [endWord]
  | cons c cs => simp [endWord, hrest.2]

theorem tokensFrom_field (hw : isWord w = true) (hrest : ∀ c ∈ rest.head?, isIdentChar c = false) :
    tokensFrom (.code true) (w.toList ++ rest) = .field w :: tokensFrom .start rest := by
  rw [tokensFrom_word hw hrest]
  simp [endWord]

theorem tokensFrom_call (hw : isWord w = true) (rest : List Char) :
    tokensFrom .start (w.toList ++ '(' :: rest) = .call w ::
      .mark '(' :: tokensFrom .start rest := by
  rw [tokensFrom_word hw (by simp; decide)]
  simp [endWord, tokensFrom, Mode.read]
  rfl

/-! ## Quotes and comments -/

theorem tokensFrom_literal (s : String) (rest : List Char) :
    tokensFrom .start ((literal s).toList ++ rest) = tokensFrom .start rest := by
  have hquoted (cs : List Char) :
      tokensFrom .quoted (cs.flatMap escapeChar ++ '"' :: rest) = tokensFrom .start rest := by
    induction cs with
    | nil => rfl
    | cons c cs ih =>
      rw [flatMap_cons, append_assoc]
      rcases escapeChar_cases c with ⟨-, hc⟩ | ⟨hplain, hc⟩ <;> rw [hc]
      · exact ih
      · have hquote : blanked c ≠ '"' := blanked_ne hplain.2 (by decide)
        have hback : blanked c ≠ '\\' := blanked_ne hplain.1 (by decide)
        simpa [tokensFrom, Mode.read, hquote, hback] using ih
  rw [toList_literal, cons_append, append_assoc]
  exact hquoted s.toList

/-- The text is at its end or goes on with a new line. -/
def Ends : List Char → Prop
  | [] => True
  | c :: _ => c = '\n'

theorem tokensFrom_comment {t : List Char} (ht : '\n' ∉ t) (hrest : Ends rest) :
    tokensFrom .comment (t ++ rest) = tokensFrom .start rest := by
  induction t with
  | nil =>
    cases rest with
    | nil => rfl
    | cons c rest =>
      obtain rfl : c = '\n' := hrest
      rfl
  | cons c t ih =>
    rw [mem_cons, not_or] at ht
    have hc : c ≠ '\n' := fun h => ht.1 h.symm
    simpa [tokensFrom, Mode.read, hc] using ih ht.2

/-! ## Pieces of text -/

/-- Sequences of tokens that can be put together; all marks but braces and brackets are among them.
-/
structure Joins (Q : List Token → Prop) : Prop where
  nil : Q []
  append {ts us : List Token} : Q ts → Q us → Q (ts ++ us)
  mark (c : Char) : (Token.mark c).isBrace = false → (Token.mark c).isBracket = false → Q [.mark c]

/-- A text that can be read on its own: before anything that keeps apart from it, it gives tokens of
its own, and they satisfy the predicate. -/
def Reads (Q : List Token → Prop) (s : String) : Prop :=
  ∃ ts : List Token, Q ts ∧ ∀ rest, Apart rest →
    tokensFrom .start (s.toList ++ rest) = ts ++ tokensFrom .start rest

/-- A text that can be read on its own before anything at all. -/
def Signs (Q : List Token → Prop) (s : String) : Prop :=
  ∃ ts : List Token, Q ts ∧ ∀ rest,
    tokensFrom .start (s.toList ++ rest) = ts ++ tokensFrom .start rest

/-- Signs that may follow a word. -/
structure Glue (Q : List Token → Prop) (s : String) : Prop where
  signs : Signs Q s
  apart : ∀ rest, Apart (s.toList ++ rest)

/-- Is the character a mark or a blank, and no brace, bracket, slash or point? -/
def isSign (c : Char) : Bool :=
  !isIdentChar c && !(['"', '/', '.', '\x7b', '\x7d', '[', ']'].contains c)

section Pieces

variable {Q : List Token → Prop}

theorem Reads.tokens_eq {ts : List Token} (h : ∀ rest, Apart rest →
    tokensFrom .start (s.toList ++ rest) = ts ++ tokensFrom .start rest) : tokens s = ts := by
  have := h [] trivial
  simpa [tokens, tokensFrom, Mode.finish] using this

section Joined

variable (hQ : Joins Q)

include hQ

theorem Reads.empty : Reads Q "" :=
  ⟨[], hQ.nil, fun _ _ => rfl⟩

theorem Signs.append (hg : Signs Q g) (hs : Reads Q s) : Reads Q (g ++ s) := by
  obtain ⟨ts, hts, hrun⟩ := hg
  obtain ⟨us, hus, hrun'⟩ := hs
  refine ⟨ts ++ us, hQ.append hts hus, fun rest hrest => ?_⟩
  rw [String.toList_append, append_assoc, hrun, hrun' rest hrest, append_assoc]

theorem Reads.glue {a b : String} (ha : Reads Q a) (hg : Glue Q g) (hb : Reads Q b) :
    Reads Q (a ++ g ++ b) := by
  obtain ⟨ts, hts, hrun⟩ := ha
  obtain ⟨us, hus, hrun'⟩ := hg.signs.append hQ hb
  refine ⟨ts ++ us, hQ.append hts hus, fun rest hrest => ?_⟩
  have hsplit : (a ++ g ++ b).toList ++ rest = a.toList ++ (g.toList ++ (b.toList ++ rest)) := by
    simp
  rw [hsplit, hrun _ (hg.apart _), append_assoc, ← hrun' rest hrest]
  simp

theorem Reads.closed {a : String} (ha : Reads Q a) (hg : Glue Q g) : Reads Q (a ++ g) := by
  have := ha.glue hQ hg (Reads.empty hQ)
  rwa [String.append_empty] at this

theorem Reads.intercalate (hg : Glue Q g) :
    ∀ {ss : List String}, (∀ s ∈ ss, Reads Q s) → Reads Q (g.intercalate ss)
  | [], _ => Reads.empty hQ
  | [s], h => by
    rw [String.intercalate_singleton]
    exact h s mem_cons_self
  | s :: t :: ss, h => by
    rw [String.intercalate_cons_cons]
    exact (h s mem_cons_self).glue hQ hg
      (Reads.intercalate hg fun u hu => h u (mem_cons_of_mem _ hu))

/-! ## Signs -/

theorem Signs.of_all (h : s.toList.all isSign = true) : Signs Q s := by
  rw [Signs]
  generalize s.toList = cs at h
  induction cs with
  | nil => exact ⟨[], hQ.nil, fun _ => rfl⟩
  | cons c cs ih =>
    rw [all_cons, Bool.and_eq_true] at h
    obtain ⟨ts, hts, hrun⟩ := ih h.2
    have hsign := h.1
    simp only [isSign, Bool.and_eq_true, Bool.not_eq_true', contains_eq_mem,
      decide_eq_false_iff_not, mem_cons, not_mem_nil, not_or] at hsign
    by_cases hblank : c = ' ' ∨ c = '\n'
    · refine ⟨ts, hts, fun rest => ?_⟩
      rcases hblank with rfl | rfl <;> exact hrun rest
    · rw [not_or] at hblank
      have hmark : Q [.mark c] :=
        hQ.mark c (by simp [Token.isBrace, hsign]) (by simp [Token.isBracket, hsign])
      have hpoint : (c == '.') = false := beq_eq_false_iff_ne.mpr hsign.2.2.2.1
      refine ⟨.mark c :: ts, hQ.append hmark hts, fun rest => ?_⟩
      have hstep : tokensFrom .start (c :: cs ++ rest) =
          .mark c :: tokensFrom .start (cs ++ rest) := by
        simp [tokensFrom, Mode.read, readCode, hsign, hblank, hpoint]
      rw [hstep, hrun rest]
      rfl

/-- Sign characters that do not start with an opening parenthesis are glue. -/
theorem Glue.of_all
    (h : (s.toList.all isSign && !s.toList.isEmpty && s.toList.head? != some '(') = true) :
    Glue Q s := by
  simp only [Bool.and_eq_true, bne_iff_ne] at h
  refine ⟨Signs.of_all hQ h.1.1, fun rest => ?_⟩
  cases hs : s.toList with
  | nil => simp [hs] at h
  | cons c cs =>
    have hsign : isSign c = true := all_eq_true.mp h.1.1 c (hs ▸ mem_cons_self)
    simp only [isSign, Bool.and_eq_true, Bool.not_eq_true'] at hsign
    refine ⟨hsign.1, fun heq => h.2 ?_⟩
    rw [hs, heq]
    rfl

theorem Glue.slash : Glue Q " / " :=
  ⟨⟨[.mark '/'], hQ.mark '/' rfl rfl, fun _ => rfl⟩, fun _ => ⟨rfl, by decide⟩⟩

/-! ## Calls, fields and literals -/

theorem Reads.literal (s : String) : Reads Q (literal s) :=
  ⟨[], hQ.nil, fun rest _ => tokensFrom_literal s rest⟩

theorem Reads.opening {f : String} (hf : isWord f = true) (h : Q [.call f]) (hs : Reads Q s) :
    Reads Q (f ++ "(" ++ s) := by
  obtain ⟨ts, hts, hrun⟩ := hs
  refine ⟨[.call f] ++ ([.mark '('] ++ ts), hQ.append h (hQ.append (hQ.mark '(' rfl rfl) hts),
    fun rest hrest => ?_⟩
  have hsplit : (f ++ "(" ++ s).toList ++ rest = f.toList ++ '(' :: (s.toList ++ rest) := by simp
  rw [hsplit, tokensFrom_call hf, hrun rest hrest]
  rfl

theorem Reads.call {f args : String} (hf : isWord f = true) (h : Q [.call f])
    (hargs : Reads Q args) : Reads Q (f ++ "(" ++ args ++ ")") :=
  (hargs.opening hQ hf h).closed hQ (Glue.of_all hQ (by decide))

theorem Reads.field {e x : String} (he : Reads Q e) (hx : isWord x = true) (h : Q [.field x]) :
    Reads Q (e ++ "." ++ x) := by
  obtain ⟨ts, hts, hrun⟩ := he
  refine ⟨ts ++ ([.mark '.'] ++ [.field x]),
    hQ.append hts (hQ.append (hQ.mark '.' rfl rfl) h), fun rest hrest => ?_⟩
  have hsplit : (e ++ "." ++ x).toList ++ rest = e.toList ++ '.' :: (x.toList ++ rest) := by simp
  have hpoint : tokensFrom .start ('.' :: (x.toList ++ rest)) =
      .mark '.' :: tokensFrom (.code true) (x.toList ++ rest) := rfl
  rw [hsplit, hrun _ (show Apart ('.' :: _) from ⟨rfl, by decide⟩), hpoint,
    tokensFrom_field hx (apart_head hrest)]
  simp

/-- A method of what can be read, called with arguments that can be read. -/
theorem Reads.send {e m args : String} (he : Reads Q e) (hm : isWord m = true)
    (h : Q [.field m]) (hargs : Reads Q args) : Reads Q (e ++ "." ++ m ++ "(" ++ args ++ ")") := by
  obtain ⟨ts, hts, hrun⟩ := he
  obtain ⟨us, hus, hrun'⟩ := hargs.closed hQ (Glue.of_all hQ (s := ")") (by decide))
  refine ⟨ts ++ ([.mark '.'] ++ ([.field m] ++ ([.mark '('] ++ us))),
    hQ.append hts (hQ.append (hQ.mark '.' rfl rfl)
      (hQ.append h (hQ.append (hQ.mark '(' rfl rfl) hus))), fun rest hrest => ?_⟩
  have hsplit : (e ++ "." ++ m ++ "(" ++ args ++ ")").toList ++ rest =
      e.toList ++ '.' :: (m.toList ++ '(' :: ((args ++ ")").toList ++ rest)) := by simp
  have hpoint (cs : List Char) : tokensFrom .start ('.' :: cs) =
      .mark '.' :: tokensFrom (.code true) cs := rfl
  have hopen (cs : List Char) : tokensFrom .start ('(' :: cs) =
      .mark '(' :: tokensFrom .start cs := rfl
  rw [hsplit, hrun _ (show Apart ('.' :: _) from ⟨rfl, by decide⟩), hpoint,
    tokensFrom_field hm (by simp; decide), hopen, hrun' rest hrest]
  simp

end Joined

theorem Reads.name (hw : isWord w = true) (h : Q [.name w]) : Reads Q w :=
  ⟨[.name w], h, fun _ hrest => tokensFrom_name hw hrest⟩

end Pieces

end TradeGraph.Mql

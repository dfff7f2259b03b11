import TradeGraph.Proofs.Bytes

/-!
# Printed code and its tokens

The printer keeps code closed: the tokens of the text of a closed tree are known words and calls of
functions that are offered.
-/

namespace TradeGraph.Mql

open List
open String (toList_ofList toList_append)

variable {w s x type : String}

/-! ## Numerals -/

def isNumeralChar (c : Char) : Bool :=
  c.isDigit || ['.', '-', '+', 'e', 'n', 'a', 'i', 'f'].contains c

/-- The word of a numeral names nothing: names of inputs and of variables have other letters. -/
theorem Scope.knows_numeral (σ : Scope) {w : List Char} (h : ∀ c ∈ w, isNumeralChar c = true) :
    σ.Knows (String.ofList w) := by
  refine ⟨fun hw => ?_, fun hw => ?_, fun hw => ?_⟩
  · simp only [isInputName, isPrefixOf_iff_prefix, toList_ofList] at hw
    have := h 'I' (hw.subset (by decide))
    exact absurd this (by decide)
  · simp only [isSignalName, toList_ofList] at hw
    split at hw
    · exact absurd (h 'd' (by simp)) (by decide)
    · exact absurd (h 'p' (by simp)) (by decide)
    · cases hw
  · have hletters : ∀ r ∈ reservedWords, r.toList.all isNumeralChar = false := by decide
    have hword := hletters _ hw
    rw [toList_ofList, all_eq_true.mpr h] at hword
    cases hword

def numeralToken (afterPoint : Bool) (w : List Char) : Token :=
  if afterPoint then .field (String.ofList w) else .name (String.ofList w)

/-- The words that the printer adds by itself. -/
def layoutWords : List String :=
  ["true", "false", "int", "static", "else", "continue", "break"]

/-- The words that the printer adds before a parenthesis. -/
def headWords : List String :=
  ["if", "for", "while"]

/-- Sequences of tokens that have what every program is printed with: numerals and the words that
the printer adds. -/
structure Prints (Q : List Token → Prop) : Prop extends Joins Q where
  numeral (afterPoint : Bool) {w : List Char} : (∀ c ∈ w, isNumeralChar c = true) →
    Q [numeralToken afterPoint w]
  plain {w : String} : w ∈ layoutWords → Q [.name w]
  keyword {w : String} : w ∈ headWords → Q [.call w]

theorem Scope.inner_call (σ : Scope) {f : String} (hplain : isPlain f = true)
    (hf : f ∈ platformCalls) : σ.Inner [.call f] :=
  inner_singleton rfl rfl ⟨(σ.hasWord_of_isPlain hplain).2, .inl hf⟩

theorem Scope.inner_prints (σ : Scope) : Prints σ.Inner where
  toJoins := σ.inner_joins
  numeral afterPoint w h := by
    cases afterPoint
    · exact inner_singleton rfl rfl (σ.knows_numeral h)
    · exact inner_singleton rfl rfl (σ.knows_numeral h)
  plain {w} h := by
    have hplain : ∀ w ∈ layoutWords, isPlain w = true := by decide
    exact inner_singleton rfl rfl (σ.hasWord_of_isPlain (hplain w h)).2
  keyword {w} h := by
    have hheads : ∀ w ∈ headWords, isPlain w = true ∧ w ∈ platformCalls := by decide
    exact σ.inner_call (hheads w h).1 (hheads w h).2

theorem endWord_apart {afterPoint : Bool} {w rest : List Char} (h : Apart rest) :
    endWord afterPoint w rest.head? = numeralToken afterPoint w := by
  cases rest with
  | nil => simp [endWord, numeralToken]
  | cons c cs => simp [endWord, numeralToken, h.2]

theorem tokensFrom_code_apart {afterPoint : Bool} {rest : List Char} (h : Apart rest) :
    tokensFrom (.code afterPoint) rest = tokensFrom .start rest := by
  cases rest with
  | nil => rfl
  | cons c cs => simp [tokensFrom, Mode.read, readCode, h.1]

section Printed

variable {Q : List Token → Prop} (hQ : Prints Q)

include hQ

theorem numeral_reads {cs : List Char} (hcs : ∀ c ∈ cs, isNumeralChar c = true) :
    (∀ afterPoint, ∃ ts : List Token, Q ts ∧ ∀ rest, Apart rest →
      tokensFrom (.code afterPoint) (cs ++ rest) = ts ++ tokensFrom .start rest) ∧
    ∀ afterPoint seen, (∀ c ∈ seen, isNumeralChar c = true) →
      ∃ ts : List Token, Q ts ∧ ∀ rest, Apart rest →
        tokensFrom (.word afterPoint seen) (cs ++ rest) = ts ++ tokensFrom .start rest := by
  induction cs with
  | nil =>
    refine ⟨fun afterPoint => ⟨[], hQ.nil, fun rest h => tokensFrom_code_apart h⟩,
      fun afterPoint seen hseen =>
        ⟨[numeralToken afterPoint seen], hQ.numeral afterPoint hseen, fun rest h => ?_⟩⟩
    rw [tokensFrom_word_rest afterPoint seen (by simp) rest (apart_head h), append_nil,
      endWord_apart h]
    rfl
  | cons c cs ih =>
    obtain ⟨hcode, hword⟩ := ih fun d hd => hcs d (mem_cons_of_mem _ hd)
    have hc : isNumeralChar c = true := hcs c mem_cons_self
    by_cases hident : isIdentChar c = true
    · -- the word begins here or goes on
      refine ⟨fun afterPoint => ?_, fun afterPoint seen hseen => ?_⟩
      · obtain ⟨ts, hts, hrun⟩ := hword afterPoint [c] (by simpa using hc)
        exact ⟨ts, hts, fun rest h => by
          simpa [tokensFrom, Mode.read, readCode, hident] using hrun rest h⟩
      · obtain ⟨ts, hts, hrun⟩ := hword afterPoint (seen ++ [c]) (by
          intro d hd
          rcases mem_append.mp hd with hd | hd
          · exact hseen d hd
          · rw [mem_singleton.mp hd]
            exact hc)
        exact ⟨ts, hts, fun rest h => by
          simpa [tokensFrom, Mode.read, hident] using hrun rest h⟩
    · -- a point or a sign: a mark
      obtain ⟨ts, hts, hrun⟩ := hcode (c == '.')
      have hcases : c = '.' ∨ c = '-' ∨ c = '+' := by
        simp only [isNumeralChar, Bool.or_eq_true, contains_eq_mem, decide_eq_true_eq,
          mem_cons, not_mem_nil, or_false] at hc
        simp only [isIdentChar, Char.isAlphanum, Bool.or_eq_true, not_or] at hident
        rcases hc with hc | rfl | rfl | rfl | rfl | rfl | rfl | rfl | rfl
        · exact absurd hc hident.1.2
        · exact .inl rfl
        · exact .inr (.inl rfl)
        · exact .inr (.inr rfl)
        all_goals exact absurd rfl hident.1.1
      have hmark (afterPoint : Bool) :
          readCode afterPoint c = ([.mark c], .code (c == '.')) := by
        rcases hcases with rfl | rfl | rfl <;> rfl
      have hjoined : Q ([.mark c] ++ ts) := by
        refine hQ.append ?_ hts
        rcases hcases with rfl | rfl | rfl <;> exact hQ.mark _ rfl rfl
      refine ⟨fun afterPoint => ⟨_, hjoined, fun rest h => ?_⟩, fun afterPoint seen hseen =>
        ⟨_, hQ.append (hQ.numeral afterPoint hseen) hjoined, fun rest h => ?_⟩⟩
      · simpa [tokensFrom, Mode.read, hmark] using hrun rest h
      · have hpar : c ≠ '(' := by
          rintro rfl
          exact absurd hc (by decide)
        have hend : endWord afterPoint seen (some c) = numeralToken afterPoint seen := by
          simp [endWord, numeralToken, hpar]
        simpa [tokensFrom, Mode.read, hident, hmark, hend] using hrun rest h

theorem Reads.numeral (h : ∀ c ∈ s.toList, isNumeralChar c = true) : Reads Q s :=
  (numeral_reads hQ h).1 false

end Printed

theorem isNumeralChar_of_isDigit {c : Char} (h : c.isDigit = true) : isNumeralChar c = true := by
  simp [isNumeralChar, h]

theorem toDigits_numeral {n : Nat} : ∀ c ∈ Nat.toDigits 10 n, isNumeralChar c = true :=
  fun _ hc => isNumeralChar_of_isDigit (Nat.isDigit_of_mem_toDigits (by decide) (by decide) hc)

theorem repr_numeral {n : Nat} : ∀ c ∈ n.repr.toList, isNumeralChar c = true := by
  rw [Nat.toList_repr]
  exact toDigits_numeral

theorem int_numeral {n : Int} : ∀ c ∈ (toString n).toList, isNumeralChar c = true := by
  rw [Int.toString_eq_repr, Int.repr_eq_if]
  by_cases h : 0 ≤ n
  · rw [if_pos h]
    exact repr_numeral
  · rw [if_neg h, toList_append]
    intro c hc
    rcases mem_append.mp hc with hc | hc
    · rw [mem_singleton.mp hc]
      decide
    · exact repr_numeral c hc

theorem layout_numeral {ds : List Char} (hds : ∀ c ∈ ds, isNumeralChar c = true) (e : Int) :
    ∀ c ∈ Double.layout ds e, isNumeralChar c = true := by
  have hzeros (n : Nat) : ∀ c ∈ List.replicate n '0', isNumeralChar c = true := by
    intro c hc
    rw [eq_of_mem_replicate hc]
    decide
  have htake (n : Nat) : ∀ c ∈ ds.take n, isNumeralChar c = true :=
    fun c hc => hds c (mem_of_mem_take hc)
  have hdrop (n : Nat) : ∀ c ∈ ds.drop n, isNumeralChar c = true :=
    fun c hc => hds c (mem_of_mem_drop hc)
  have happend {as bs : List Char} (ha : ∀ c ∈ as, isNumeralChar c = true)
      (hb : ∀ c ∈ bs, isNumeralChar c = true) : ∀ c ∈ as ++ bs, isNumeralChar c = true :=
    fun c hc => (mem_append.mp hc).elim (ha c) (hb c)
  unfold Double.layout
  split
  · split
    · exact happend (happend (all_eq_true.mp (by decide)) (hzeros _)) hds
    · refine happend (happend (happend (htake _) (hzeros _)) (all_eq_true.mp (by decide))) ?_
      split
      · exact all_eq_true.mp (by decide)
      · exact hdrop _
  · refine happend (happend (happend (htake _) ?_) ?_) ?_
    · split
      · simp
      · intro c hc
        rcases mem_cons.mp hc with rfl | hc
        · decide
        · exact hdrop _ c hc
    · split <;> exact all_eq_true.mp (by decide)
    · split
      · intro c hc
        rcases mem_cons.mp hc with rfl | hc
        · decide
        · exact toDigits_numeral c hc
      · exact toDigits_numeral

theorem plainText_numeral (x : Float) :
    ∀ c ∈ (Double.plainText x).toList, isNumeralChar c = true := by
  unfold Double.plainText
  split
  · exact int_numeral
  · unfold Double.text
    split
    · exact all_eq_true.mp (by decide)
    · split <;> exact all_eq_true.mp (by decide)
    · rename_i negative m e _
      rw [toList_ofList]
      have hbody : ∀ c ∈ (if m == 0 then ['0', '.', '0'] else
          Double.layout (Double.trimZeros (Nat.toDigits 10 (Double.shortest m e).1))
            ((Double.shortest m e).2 + (Nat.toDigits 10 (Double.shortest m e).1).length - 1)),
          isNumeralChar c = true := by
        split
        · exact all_eq_true.mp (by decide)
        · refine layout_numeral (fun c hc => ?_) _
          rw [Double.trimZeros, mem_reverse] at hc
          exact toDigits_numeral c (mem_reverse.mp ((dropWhile_sublist _).subset hc))
      intro c hc
      cases negative with
      | false => exact hbody c hc
      | true =>
        rcases mem_cons.mp hc with rfl | hc
        · decide
        · exact hbody c hc

theorem decimal_numeral (digits places : Nat) :
    ∀ c ∈ (Literal.decimal digits places).written.toList, isNumeralChar c = true := by
  intro c hc
  simp only [Literal.written, Nat.toString_eq_repr, toList_append, toList_ofList,
    mem_append] at hc
  rcases hc with (hc | hc) | hc | hc
  · exact repr_numeral c hc
  · rw [mem_singleton.mp hc]
    decide
  · rw [eq_of_mem_replicate hc]
    decide
  · exact repr_numeral c hc

theorem power_numeral (m : Nat) (e : Int) :
    ∀ c ∈ (Literal.power m e).written.toList, isNumeralChar c = true := by
  intro c hc
  simp only [Literal.written, Nat.toString_eq_repr, toList_append, mem_append] at hc
  rcases hc with (hc | hc) | hc
  · exact repr_numeral c hc
  · rw [mem_singleton.mp hc]
    decide
  · exact int_numeral c hc

/-! ## Heads of loops -/

theorem Loop.text_count (i : Ident) (first test : Expr) (up : Bool) :
    (Loop.count i first test up).text = "for(int " ++ i.text ++ " = " ++ first.text ++ "; " ++
      test.text ++ "; " ++ i.text ++ (if up then "++" else "--") ++ ")" := rfl

theorem Loop.text_during (c : Expr) : (Loop.during c).text = "while(" ++ c.text ++ ")" := rfl

/-! ## Expressions -/

section Printed

variable {Q : List Token → Prop} (hQ : Prints Q)

include hQ

theorem Reads.plain (h : w ∈ layoutWords) : Reads Q w := by
  have hwords : ∀ w ∈ layoutWords, isWord w = true := by decide
  exact Reads.name (hwords w h) (hQ.plain h)

theorem Literal.reads (l : Literal) : Reads Q l.written := by
  cases l with
  | int n => exact Reads.numeral hQ int_numeral
  | real x => exact Reads.numeral hQ (plainText_numeral x)
  | decimal digits places => exact Reads.numeral hQ (decimal_numeral digits places)
  | power m e => exact Reads.numeral hQ (power_numeral m e)
  | flag b => cases b <;> exact Reads.plain hQ (by decide)
  | text t => exact Reads.literal hQ.toJoins t

theorem Reads.after (g : String) (hs : Reads Q s)
    (hg : g.toList.all isSign = true) : Reads Q (g ++ s) :=
  (Signs.of_all hQ.toJoins hg).append hQ.toJoins hs

theorem Reads.before (g : String) (hs : Reads Q s)
    (hg : (g.toList.all isSign && !g.toList.isEmpty && g.toList.head? != some '(') = true) :
    Reads Q (s ++ g) :=
  hs.closed hQ.toJoins (Glue.of_all hQ.toJoins hg)

theorem Reads.between {t : String} (hs : Reads Q s) (g : String) (ht : Reads Q t)
    (hg : (g.toList.all isSign && !g.toList.isEmpty && g.toList.head? != some '(') = true) :
    Reads Q (s ++ g ++ t) :=
  hs.glue hQ.toJoins (Glue.of_all hQ.toJoins hg) ht

theorem Reads.joined {ss : List String} (g : String) (h : ∀ s ∈ ss, Reads Q s)
    (hg : (g.toList.all isSign && !g.toList.isEmpty && g.toList.head? != some '(') = true) :
    Reads Q (g.intercalate ss) :=
  Reads.intercalate hQ.toJoins (Glue.of_all hQ.toJoins hg) h

theorem BinaryOp.glue (op : BinaryOp) : Glue Q (" " ++ op.sign ++ " ") := by
  cases op with
  | div => exact Glue.slash hQ.toJoins
  | _ => exact Glue.of_all hQ.toJoins (by decide)

theorem BinaryOp.reads (op : BinaryOp) {t : String} (hs : Reads Q s) (ht : Reads Q t) :
    Reads Q (s ++ " " ++ op.sign ++ " " ++ t) := by
  have hsplit : s ++ " " ++ op.sign ++ " " ++ t = s ++ (" " ++ op.sign ++ " ") ++ t := by
    simp [String.append_assoc]
  rw [hsplit]
  exact hs.glue hQ.toJoins (op.glue hQ) ht

theorem Reads.keyword (w : String) (h : Reads Q s) (hw : w ∈ headWords) :
    Reads Q (w ++ "(" ++ s ++ ")") := by
  have hwords : ∀ w ∈ headWords, isWord w = true := by decide
  exact h.call hQ.toJoins (hwords w hw) (hQ.keyword hw)

theorem if_reads (h : Reads Q s) : Reads Q ("if(" ++ s) :=
  h.opening hQ.toJoins (f := "if") (by decide) (hQ.keyword (by decide))

theorem ifHead_reads {c : Expr} (h : Reads Q c.text) : Reads Q (ifHead c) :=
  (if_reads hQ h).before hQ ")" (by decide)

theorem actionBelow_reads {a : Action} (h : Reads Q a.text) : Reads Q (actionBelow a) :=
  ((h.after hQ "   " (by decide)).before hQ ";" (by decide))

theorem Loop.count_reads {i : Ident} {first test : Expr} {up : Bool} (hi : Reads Q i.text)
    (hfirst : Reads Q first.text) (htest : Reads Q test.text) :
    Reads Q (Loop.count i first test up).text := by
  have hint : Reads Q "int" := Reads.plain hQ (by decide)
  have hhead := (hint.between hQ " " hi (by decide)).between hQ " = " hfirst (by decide)
  have hcond := (hhead.between hQ "; " htest (by decide)).between hQ "; " hi (by decide)
  have hstep := hcond.before hQ (if up then "++" else "--") (by cases up <;> decide)
  have hsplit : (Loop.count i first test up).text = "for" ++ "(" ++
      ("int" ++ " " ++ i.text ++ " = " ++ first.text ++ "; " ++ test.text ++ "; " ++ i.text ++
        (if up then "++" else "--")) ++ ")" := by
    rw [Loop.text_count]
    apply String.toList_inj.mp
    simp only [toList_append, append_assoc]
    rfl
  rw [hsplit]
  exact hstep.keyword hQ "for" (by decide)

end Printed

section Scoped

variable {σ : Scope}

theorem Reads.word (h : σ.HasWord w) : Reads σ.Inner w :=
  Reads.name h.1 (Scope.inner_singleton rfl rfl h.2)

theorem Reads.subscript {Q : List Token → Prop} (hQ : Joins Q)
    (hbracket : ∀ {t : Token}, t.isBracket = true → Q [t]) {a k : String} (ha : Reads Q a)
    (hk : Reads Q k) : Reads Q (a ++ "[" ++ k ++ "]") := by
  have hopen : Glue Q "[" := ⟨⟨[.mark '['], hbracket rfl, fun _ => rfl⟩, fun _ => ⟨rfl, by decide⟩⟩
  have hclose : Glue Q "]" := ⟨⟨[.mark ']'], hbracket rfl, fun _ => rfl⟩, fun _ => ⟨rfl, by decide⟩⟩
  exact (ha.glue hQ hopen hk).closed hQ hclose

theorem Scope.inner_bracket (hσ : σ.elements = none) {t : Token} (h : t.isBracket = true) :
    σ.Inner [t] := by
  cases t with
  | mark c =>
    rw [Token.isBracket, Bool.or_eq_true, beq_iff_eq, beq_iff_eq] at h
    exact ⟨⟨by simp [Scope.Fine], by simp [hσ]⟩,
      by rcases h with rfl | rfl <;> simp [Token.isBrace]⟩
  | _ => cases h

theorem isWord_numeral (k : Nat) : isWord (toString k) = true := by
  rw [isWord, Nat.toString_eq_repr, Nat.toList_repr, Bool.and_eq_true, all_eq_true]
  refine ⟨by simp [Nat.toDigits_ne_nil], fun c hc => ?_⟩
  have hdigit := Nat.isDigit_of_mem_toDigits (by decide) (by decide) hc
  simp [isIdentChar, Char.isAlphanum, hdigit]

theorem Reads.element {Q : List Token → Prop} {k : Nat} (hx : isWord x = true)
    (h : Q (element x k)) : Reads Q (x ++ "[" ++ toString k ++ "]") := by
  refine ⟨_, h, fun rest _ => ?_⟩
  have hsplit : (x ++ "[" ++ toString k ++ "]").toList ++ rest =
      x.toList ++ '[' :: ((toString k).toList ++ ']' :: rest) := by simp
  have hopen (cs : List Char) : tokensFrom .start ('[' :: cs) = .mark '[' :: tokensFrom .start cs :=
    rfl
  have hclose : tokensFrom .start (']' :: rest) = .mark ']' :: tokensFrom .start rest := rfl
  rw [hsplit, tokensFrom_name hx (show Apart ('[' :: _) from ⟨rfl, by decide⟩), hopen,
    tokensFrom_name (isWord_numeral k) (show Apart (']' :: _) from ⟨rfl, by decide⟩), hclose]
  rfl

theorem Scope.inner_element {S : String → Nat → Prop} (hσ : σ.elements = some S) {k : Nat}
    (hx : σ.Knows x) (h : S x k) : σ.Inner (element x k) := by
  have hnumeral : σ.Knows k.repr := by
    simpa only [String.ofList_toList] using σ.knows_numeral (repr_numeral (n := k))
  refine ⟨⟨?_, fun T hT => ?_⟩, by simp [Mql.element, Token.isBrace]⟩
  · simp [Mql.element, Scope.Fine, hx, hnumeral]
  · cases hσ.symm.trans hT
    exact Shows.element h

theorem reads_index {e k : Expr} (he : Reads σ.Inner e.text) (hclosed : e.Closed σ)
    (hk : Reads σ.Inner k.text) (h : ∀ S ∈ σ.elements, IsElement S e k) :
    Reads σ.Inner (e.text ++ "[" ++ k.text ++ "]") := by
  cases hσ : σ.elements with
  | none => exact he.subscript σ.inner_joins (Scope.inner_bracket hσ) hk
  | some S =>
    have helement := h S hσ
    unfold IsElement at helement
    split at helement
    case h_1 x j =>
      obtain ⟨n, rfl⟩ := Int.eq_ofNat_of_zero_le helement.1
      have hword : σ.HasWord x.text := hclosed
      exact Reads.element hword.1 (Scope.inner_element hσ hword.2 helement.2)
    case h_2 => exact helement.elim

mutual

theorem Expr.reads : ∀ e : Expr, e.Closed σ → Reads σ.Inner e.text
  | .lit l, _ => l.reads σ.inner_prints
  | .name _, h => Reads.word h
  | .call _ args, h =>
    (Reads.joined σ.inner_prints ", " (Expr.texts_reads args h.2) (by decide)).call σ.inner_joins
      h.1.1.1 (Scope.inner_singleton rfl rfl ⟨h.1.1.2, h.1.2⟩)
  | .send _ _ args, h =>
    (Reads.word h.1).send σ.inner_joins h.2.1.1 (Scope.inner_singleton rfl rfl h.2.1.2)
      (Reads.joined σ.inner_prints ", " (Expr.texts_reads args h.2.2) (by decide))
  | .member e _, h =>
    (e.reads h.1).field σ.inner_joins h.2.1 (Scope.inner_singleton rfl rfl h.2.2)
  | .index e k, h => reads_index (e.reads h.1) h.1 (k.reads h.2.1) h.2.2
  | .not e, h => (e.reads h).after σ.inner_prints "!" (by decide)
  | .neg e, h => (e.reads h).after σ.inner_prints "-" (by decide)
  | .increased e, h => (e.reads h).after σ.inner_prints "++" (by decide)
  | .increasing e, h => (e.reads h).before σ.inner_prints "++" (by decide)
  | .cast _ e, h =>
    ((Reads.word h.1).after σ.inner_prints "(" (by decide)).between σ.inner_prints ")"
      (e.reads h.2) (by decide)
  | .binary op a b, h => op.reads σ.inner_prints (a.reads h.1) (b.reads h.2)
  | .all parts, h => Reads.joined σ.inner_prints " && " (Expr.texts_reads parts h) (by decide)
  | .any parts, h => Reads.joined σ.inner_prints " || " (Expr.texts_reads parts h) (by decide)
  | .choice c yes no, h =>
    ((c.reads h.1).between σ.inner_prints " ? " (yes.reads h.2.1) (by decide)).between
      σ.inner_prints " : " (no.reads h.2.2) (by decide)
  | .group e, h =>
    ((e.reads h).after σ.inner_prints "(" (by decide)).before σ.inner_prints ")" (by decide)

theorem Expr.texts_reads : ∀ es : List Expr, Expr.AllClosed σ es →
    ∀ s ∈ Expr.texts es, Reads σ.Inner s
  | [], _, s, hs => by cases hs
  | e :: es, h, s, hs => by
    rcases mem_cons.mp hs with rfl | hs
    · exact e.reads h.1
    · exact Expr.texts_reads es h.2 s hs

end

/-! ## Actions and loops -/

end Scoped

theorem apart_blank (cs : List Char) : Apart (' ' :: cs) :=
  ⟨rfl, by decide⟩

section Declared

variable {Q : List Token → Prop}

/-- A declaration begins with its type and its name; whatever the name is, the rest reads well. -/
def DeclarationReads (Q : List Token → Prop) (type x s : String) : Prop :=
  ∃ ts : List Token, Q ts ∧ ∀ rest, Apart rest →
    tokensFrom .start (s.toList ++ rest) = .name type :: .name x :: ts ++ tokensFrom .start rest

theorem DeclarationReads.of_rest (htype : isWord type = true)
    (hx : isWord x = true) (hs : Reads Q s)
    (hapart : ∀ rest, Apart rest → Apart (s.toList ++ rest)) :
    DeclarationReads Q type x (type ++ " " ++ x ++ s) := by
  obtain ⟨ts, hts, hrun⟩ := hs
  refine ⟨ts, hts, fun rest hrest => ?_⟩
  have hsplit : (type ++ " " ++ x ++ s).toList ++ rest =
      type.toList ++ ' ' :: (x.toList ++ (s.toList ++ rest)) := by simp
  have hblank (cs : List Char) : tokensFrom .start (' ' :: cs) = tokensFrom .start cs := rfl
  rw [hsplit, tokensFrom_name htype (apart_blank _), hblank,
    tokensFrom_name hx (hapart rest hrest), hrun rest hrest]
  rfl

theorem DeclarationReads.reads (hQ : Prints Q)
    (h : DeclarationReads Q type x s) (htype : Q [.name type]) (hx : Q [.name x]) :
    Reads Q s := by
  obtain ⟨ts, hts, hrun⟩ := h
  exact ⟨.name type :: .name x :: ts, hQ.append htype (hQ.append hx hts), hrun⟩

theorem Action.declare_reads (hQ : Prints Q) {x : Ident} {value : Option Expr}
    {pad : Nat} (htype : isWord type = true) (hx : isWord x.text = true)
    (hvalue : ∀ v ∈ value, Reads Q v.text) :
    DeclarationReads Q type x.text (Action.declare type x value pad).text := by
  cases value with
  | none =>
    have := DeclarationReads.of_rest htype hx (Reads.empty hQ.toJoins) fun _ h => h
    rwa [String.append_empty] at this
  | some v =>
    have hpad : ((String.ofList (List.replicate pad ' ') ++ " = ").toList.all isSign) = true := by
      rw [toList_append, toList_ofList, all_append, all_replicate]
      cases pad <;> rfl
    have hrest := (hvalue v rfl).after hQ _ hpad
    obtain ⟨cs, hcs⟩ : ∃ cs, (String.ofList (List.replicate pad ' ') ++ " = " ++ v.text).toList =
        ' ' :: cs := by
      rw [String.append_assoc, toList_append, toList_append, toList_ofList]
      cases pad with
      | zero => exact ⟨_, rfl⟩
      | succ n => exact ⟨_, rfl⟩
    have hdeclares := DeclarationReads.of_rest htype hx hrest fun rest _ => by
      rw [hcs]
      exact apart_blank _
    rw [Action.text]
    simpa only [String.append_assoc] using hdeclares

theorem Action.declareArray_reads (hbrackets : Q [.mark '[', .mark ']'])
    {x : Ident} (htype : isWord type = true) (hx : isWord x.text = true) :
    DeclarationReads Q type x.text (Action.declareArray type x).text :=
  DeclarationReads.of_rest htype hx ⟨_, hbrackets, fun _ _ => rfl⟩ fun _ _ => ⟨rfl, by decide⟩

theorem Action.declareStatic_reads (hQ : Prints Q) {x : Ident} {v : Expr}
    (htype : Reads Q type) (hx : Reads Q x.text) (hv : Reads Q v.text) :
    Reads Q (Action.declareStatic type x v).text := by
  have hstatic : Reads Q "static" := Reads.plain hQ (by decide)
  have hhead := (hstatic.between hQ " " htype (by decide)).between hQ " " hx (by decide)
  exact hhead.between hQ " = " hv (by decide)

end Declared

section Scoped

variable {σ : Scope}

theorem Scope.HasWord.inner (h : σ.HasWord w) : σ.Inner [.name w] :=
  Scope.inner_singleton rfl rfl h.2

theorem Scope.inner_brackets (hσ : σ.elements = none) : σ.Inner [.mark '[', .mark ']'] :=
  σ.inner_joins.append (Scope.inner_bracket hσ (t := .mark '[') rfl)
    (Scope.inner_bracket hσ (t := .mark ']') rfl)

theorem Scope.hasWord_return (h : "return" ∈ σ.reserved) : σ.HasWord "return" :=
  ⟨by decide, fun hw => absurd hw (by decide), fun hw => absurd hw (by decide), fun _ => h⟩

theorem Action.reads : ∀ a : Action, a.Closed σ → Reads σ.Inner a.text
  | .declare _ _ none _, h =>
    (Action.declare_reads σ.inner_prints h.1.1 h.2.1 (by simp)).reads σ.inner_prints h.1.inner
      h.2.inner
  | .declare _ _ (some v) _, h =>
    (Action.declare_reads σ.inner_prints h.1.1 h.2.1.1 (by simpa using v.reads h.2.2)).reads
      σ.inner_prints h.1.inner h.2.1.inner
  | .declareStatic _ _ v, h =>
    Action.declareStatic_reads σ.inner_prints (Reads.word h.1) (Reads.word h.2.1) (v.reads h.2.2)
  | .declareArray _ _, h =>
    (Action.declareArray_reads (Scope.inner_brackets h.2.2) h.1.1 h.2.1.1).reads σ.inner_prints
      h.1.inner h.2.1.inner
  | .assign t v, h => (t.reads h.1).between σ.inner_prints " = " (v.reads h.2) (by decide)
  | .add t v, h => (t.reads h.1).between σ.inner_prints " += " (v.reads h.2) (by decide)
  | .subtract t v, h => (t.reads h.1).between σ.inner_prints " -= " (v.reads h.2) (by decide)
  | .increment e, h => (e.reads h).before σ.inner_prints "++" (by decide)
  | .decrement e, h => (e.reads h).before σ.inner_prints "--" (by decide)
  | .run e, h => e.reads h
  | .ret, h => Reads.word (Scope.hasWord_return h)
  | .retWith e, h =>
    (e.reads h.2).call σ.inner_joins (f := "return") (by decide)
      (Scope.inner_singleton rfl rfl ⟨(Scope.hasWord_return h.1).2, .inl (by decide)⟩)
  | .skip, _ => Reads.plain σ.inner_prints (by decide)
  | .stop, _ => Reads.plain σ.inner_prints (by decide)

theorem Loop.reads : ∀ l : Loop, l.Closed σ → Reads σ.Inner l.text
  | .count _ first test _, h =>
    Loop.count_reads σ.inner_prints (Reads.word h.1) (first.reads h.2.1) (test.reads h.2.2)
  | .during c, h => (c.reads h).keyword σ.inner_prints "while" (by decide)

end Scoped

end TradeGraph.Mql

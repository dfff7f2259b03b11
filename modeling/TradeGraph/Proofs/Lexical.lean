import TradeGraph.Proofs.Definitions

/-!
# Lexical shape of emitted code

A file is read character by character: double-quoted literals with escapes, comments to the end of
the line, and brackets of three kinds. Reading fails at a literal that reaches the end of its line
and at a bracket that does not answer the innermost open one.
-/

namespace TradeGraph.Mql

open List

/-! ## Reading a file -/

/-- Where a reader is: in code, after a slash, in a literal, after a backslash in a literal, or in a
comment. -/
inductive Place where
  | code
  | slash
  | quoted
  | escaped
  | comment
deriving DecidableEq, Repr

/-- A reader: where it is, and the brackets that are open, the innermost first. -/
structure Lexer where
  place : Place
  opened : List Char
deriving DecidableEq, Repr

namespace Lexer

/-- The bracket that a closing bracket answers. -/
def answered? (c : Char) : Option Char :=
  if c == ')' then some '('
  else if c == ']' then some '['
  else if c == '\x7d' then some '\x7b'
  else none

def readCode (opened : List Char) (c : Char) : Option Lexer :=
  if c == '"' then some ⟨.quoted, opened⟩
  else if c == '/' then some ⟨.slash, opened⟩
  else if c == '(' || c == '[' || c == '\x7b' then some ⟨.code, c :: opened⟩
  else match answered? c with
    | none => some ⟨.code, opened⟩
    | some b => if opened.head? == some b then some ⟨.code, opened.tail⟩ else none

def read (l : Lexer) (c : Char) : Option Lexer :=
  match l.place with
  | .code => readCode l.opened c
  | .slash => if c == '/' then some ⟨.comment, l.opened⟩ else readCode l.opened c
  | .quoted =>
    if c == '\n' || c == '\r' then none
    else if c == '"' then some ⟨.code, l.opened⟩
    else some ⟨if c == '\\' then .escaped else .quoted, l.opened⟩
  | .escaped => if c == '\n' || c == '\r' then none else some ⟨.quoted, l.opened⟩
  | .comment => some ⟨if c == '\n' then .code else .comment, l.opened⟩

/-- Read characters, as long as nothing fails. -/
def run : Lexer → List Char → Option Lexer
  | l, [] => some l
  | l, c :: cs => (l.read c).bind fun m => m.run cs

theorem run_append (l : Lexer) (cs ds : List Char) :
    l.run (cs ++ ds) = (l.run cs).bind fun m => m.run ds := by
  induction cs generalizing l with
  | nil => rfl
  | cons c cs ih =>
    rw [cons_append, run, run]
    cases l.read c with
    | none => rfl
    | some m => exact ih m

end Lexer

/-- **Lexical well-formedness**: every literal ends on the line on which it starts, and the brackets
outside of literals and comments are nested and all closed. -/
def WellFormed (s : String) : Prop :=
  Lexer.run ⟨.code, []⟩ s.toList = some ⟨.code, []⟩

/-! ## Pieces of code -/

/-- Read as code, the characters turn one list of innermost open brackets into another. -/
def Moves (a : List Char) (cs : List Char) (b : List Char) : Prop :=
  ∀ o, Lexer.run ⟨.code, a ++ o⟩ cs = some ⟨.code, b ++ o⟩

namespace Moves

variable {a b c cs ds : List Char}

theorem trans (h : Moves a cs b) (h' : Moves b ds c) : Moves a (cs ++ ds) c := fun o => by
  rw [Lexer.run_append, h o]
  exact h' o

theorem within (h : Moves a cs b) (c : List Char) : Moves (a ++ c) cs (b ++ c) := fun o => by
  rw [append_assoc, append_assoc]
  exact h (c ++ o)

end Moves

/-- A piece of code that leaves the open brackets as they are. -/
def Passes (s : String) : Prop :=
  Moves [] s.toList []

/-- Is the character read as code without effect? -/
def isQuiet (c : Char) : Bool :=
  !(['"', '/', '(', ')', '[', ']', '\x7b', '\x7d'].contains c)

namespace Passes

variable {s t : String}

theorem empty : Passes "" := fun _ => rfl

theorem append (hs : Passes s) (ht : Passes t) : Passes (s ++ t) := by
  rw [Passes, String.toList_append]
  exact hs.trans ht

theorem of_quiet (h : ∀ c ∈ s.toList, isQuiet c = true) : Passes s := by
  intro o
  generalize s.toList = cs at h
  induction cs with
  | nil => rfl
  | cons c cs ih =>
    rw [forall_mem_cons] at h
    have hread : Lexer.read ⟨.code, [] ++ o⟩ c = some ⟨.code, [] ++ o⟩ := by
      have hc := h.1
      simp [isQuiet] at hc
      simp [Lexer.read, Lexer.readCode, Lexer.answered?, hc]
    rw [Lexer.run, hread]
    exact ih h.2

theorem of_all (h : s.toList.all isQuiet = true) : Passes s :=
  of_quiet (all_eq_true.mp h)

theorem literal (s : String) : Passes (literal s) := by
  have hquoted (cs : List Char) (o : List Char) :
      Lexer.run ⟨.quoted, o⟩ (cs.flatMap escapeChar ++ ['"']) = some ⟨.code, o⟩ := by
    induction cs with
    | nil => rfl
    | cons c cs ih =>
      rw [flatMap_cons, append_assoc, Lexer.run_append]
      suffices hone : Lexer.run ⟨.quoted, o⟩ (escapeChar c) = some ⟨.quoted, o⟩ by
        rw [hone]
        exact ih
      rcases escapeChar_cases c with ⟨hc, hesc⟩ | ⟨hc, hesc⟩ <;> rw [hesc]
      · rcases hc with rfl | rfl <;> rfl
      · have hquote : blanked c ≠ '"' := blanked_ne hc.2 (by decide)
        have hback : blanked c ≠ '\\' := blanked_ne hc.1 (by decide)
        have hend := isLineEnd_blanked c
        simp only [isLineEnd, Bool.or_eq_false_iff, beq_eq_false_iff_ne] at hend
        simp [Lexer.run, Lexer.read, hquote, hback, hend]
  intro o
  rw [toList_literal]
  exact hquoted s.toList o

theorem enclosed (opening closing : String) (b : List Char) (hopen : Moves [] opening.toList b)
    (hclose : Moves b closing.toList []) (hs : Passes s) : Passes (opening ++ s ++ closing) := by
  rw [Passes, String.toList_append, String.toList_append]
  exact (hopen.trans (hs.within b)).trans hclose

theorem round (hs : Passes s) : Passes ("(" ++ s ++ ")") :=
  enclosed _ _ ['('] (fun _ => rfl) (fun _ => rfl) hs

theorem square (hs : Passes s) : Passes ("[" ++ s ++ "]") :=
  enclosed _ _ ['['] (fun _ => rfl) (fun _ => rfl) hs

end Passes

/-! ## Trees -/

mutual

def Expr.isQuoteless : Expr → Bool
  | .lit (.text _) => false
  | .lit _ | .name _ => true
  | .call _ es | .send _ _ es | .all es | .any es => Expr.allQuoteless es
  | .member e _ | .not e | .neg e | .increased e | .increasing e | .cast _ e | .group e =>
    e.isQuoteless
  | .index a b | .binary _ a b => a.isQuoteless && b.isQuoteless
  | .choice a b c => a.isQuoteless && b.isQuoteless && c.isQuoteless

def Expr.allQuoteless : List Expr → Bool
  | [] => true
  | e :: es => e.isQuoteless && Expr.allQuoteless es

end

theorem isQuiet_of_class {p : Char → Bool}
    (hp : ['"', '/', '(', ')', '[', ']', '\x7b', '\x7d'].any p = false) {c : Char}
    (h : p c = true) : isQuiet c = true := by
  rw [isQuiet, Bool.not_eq_true', ← Bool.not_eq_true, contains_iff_mem]
  exact fun hc => any_eq_false.mp hp c hc h

/-- A property of texts that is kept when they are put together and put in brackets. -/
structure Composes (P : String → Prop) : Prop where
  append {s t : String} : P s → P t → P (s ++ t)
  quiet {s : String} : (∀ c ∈ s.toList, isQuiet c = true) → P s
  slash : P " / "
  round {s : String} : P s → P ("(" ++ s ++ ")")
  square {s : String} : P s → P ("[" ++ s ++ "]")

theorem Passes.composes : Composes Passes :=
  ⟨append, of_quiet, fun _ => rfl, round, square⟩

namespace Composes

variable {P : String → Prop} (hP : Composes P) {s t : String}

include hP

theorem signs (h : s.toList.all isQuiet = true) : P s :=
  hP.quiet (all_eq_true.mp h)

theorem word (h : isWord s = true) : P s := by
  rw [isWord, Bool.and_eq_true] at h
  exact hP.quiet fun c hc => isQuiet_of_class (by decide) (all_eq_true.mp h.2 c hc)

theorem numeral (h : ∀ c ∈ s.toList, isNumeralChar c = true) : P s :=
  hP.quiet fun c hc => isQuiet_of_class (by decide) (h c hc)

theorem between (hs : P s) (g : String) (hg : g.toList.all isQuiet = true) (ht : P t) :
    P (s ++ g ++ t) :=
  hP.append (hP.append hs (hP.signs hg)) ht

theorem intercalate (hs : s.toList.all isQuiet = true) : ∀ {ts : List String}, (∀ t ∈ ts, P t) →
    P (s.intercalate ts)
  | [], _ => hP.signs rfl
  | [t], h => by
    rw [String.intercalate_singleton]
    exact h t mem_cons_self
  | t :: u :: ts, h => by
    rw [String.intercalate_cons_cons]
    rw [forall_mem_cons] at h
    exact hP.between h.1 s hs (intercalate hs h.2)

theorem call (hs : P s) (ht : P t) : P (s ++ "(" ++ t ++ ")") := by
  have := hP.append hs (hP.round ht)
  simpa only [String.append_assoc] using this

theorem literal (l : Literal) (hquote : ∀ t, l = .text t → P (Mql.literal t)) : P l.written := by
  cases l with
  | int n => exact hP.numeral int_numeral
  | real x => exact hP.numeral (plainText_numeral x)
  | decimal digits places => exact hP.numeral (decimal_numeral digits places)
  | power m e => exact hP.numeral (power_numeral m e)
  | flag b => cases b <;> exact hP.signs (by decide)
  | text t => exact hquote t rfl

theorem binary (op : BinaryOp) (hs : P s) (ht : P t) : P (s ++ " " ++ op.sign ++ " " ++ t) := by
  have hsign : P (" " ++ op.sign ++ " ") := by
    cases op
    case div => exact hP.slash
    all_goals exact hP.signs (by decide)
  have := hP.append (hP.append hs hsign) ht
  simpa only [String.append_assoc] using this

end Composes

section Scoped

variable {σ : Scope}

section Composed

variable {P : String → Prop} (hP : Composes P) {q : Bool} (hquotes : q = true → ∀ t, P (literal t))

theorem and_of_or_and {q a b : Bool} (h : (q || (a && b)) = true) :
    (q || a) = true ∧ (q || b) = true := by
  cases q
  · exact Bool.and_eq_true_iff.mp h
  · exact ⟨rfl, rfl⟩

include hP hquotes

set_option linter.unusedSectionVars false in
mutual

/-- The text of a closed expression has the property, if quotes have it or there are none. -/
theorem Expr.composed : ∀ e : Expr, e.Closed σ → (q || e.isQuoteless) = true → P e.text
  | .lit l, _, hq => hP.literal l fun t ht => hquotes (by simpa [ht, Expr.isQuoteless] using hq) t
  | .name _, h, _ => hP.word h.1
  | .call _ args, h, hq =>
    hP.call (hP.word h.1.1.1) (hP.intercalate (by decide) (Expr.texts_composed args h.2 hq))
  | .send _ _ args, h, hq =>
    hP.call (hP.between (hP.word h.1.1) "." (by decide) (hP.word h.2.1.1))
      (hP.intercalate (by decide) (Expr.texts_composed args h.2.2 hq))
  | .member e _, h, hq => hP.between (e.composed h.1 hq) "." (by decide) (hP.word h.2.1)
  | .index e k, h, hq => by
    obtain ⟨he, hk⟩ := and_of_or_and hq
    have := hP.append (e.composed h.1 he) (hP.square (k.composed h.2.1 hk))
    simpa only [Expr.text, String.append_assoc] using this
  | .not e, h, hq | .neg e, h, hq | .increased e, h, hq =>
    hP.append (hP.signs (by decide)) (e.composed h hq)
  | .increasing e, h, hq => hP.append (e.composed h hq) (hP.signs (by decide))
  | .group e, h, hq => hP.round (e.composed h hq)
  | .cast _ e, h, hq => hP.append (hP.round (hP.word h.1.1)) (e.composed h.2 hq)
  | .binary op a b, h, hq =>
    have hq := and_of_or_and hq
    hP.binary op (a.composed h.1 hq.1) (b.composed h.2 hq.2)
  | .all parts, h, hq | .any parts, h, hq =>
    hP.intercalate (by decide) (Expr.texts_composed parts h hq)
  | .choice c yes no, h, hq => by
    obtain ⟨hq, hno⟩ := and_of_or_and hq
    obtain ⟨hc, hyes⟩ := and_of_or_and hq
    exact hP.between (hP.between (c.composed h.1 hc) " ? " (by decide) (yes.composed h.2.1 hyes))
      " : " (by decide) (no.composed h.2.2 hno)

theorem Expr.texts_composed : ∀ es : List Expr, Expr.AllClosed σ es →
    (q || Expr.allQuoteless es) = true → ∀ t ∈ Expr.texts es, P t
  | [], _, _ => by simp [Expr.texts]
  | e :: es, h, hq => by
    obtain ⟨he, hes⟩ := and_of_or_and hq
    rw [Expr.texts, forall_mem_cons]
    exact ⟨e.composed h.1 he, Expr.texts_composed es h.2 hes⟩

end

end Composed

theorem Expr.passes (e : Expr) (h : e.Closed σ) : Passes e.text :=
  e.composed (q := true) Passes.composes (fun _ => .literal) h rfl

theorem Passes.between {s t : String} (hs : Passes s) (g : String)
    (hg : g.toList.all isQuiet = true) (ht : Passes t) : Passes (s ++ g ++ t) :=
  composes.between hs g hg ht

theorem Scope.HasWord.passes {w : String} (h : σ.HasWord w) : Passes w :=
  Passes.composes.word h.1

theorem Scope.Has.passes {x : Ident} (h : σ.Has x) : Passes x.text :=
  Passes.composes.word h.1

theorem Action.passes : ∀ a : Action, a.Closed σ → Passes a.text
  | .declare _ _ none _, h => h.1.passes.between " " (by decide) h.2.passes
  | .declare _ _ (some v) pad, h => by
    have hpad : Passes (String.ofList (List.replicate pad ' ')) :=
      .of_quiet fun c hc => by
        rw [String.toList_ofList] at hc
        rw [eq_of_mem_replicate hc]
        decide
    exact ((h.1.passes.between " " (by decide) h.2.1.passes).append hpad).between " = " (by decide)
      (v.passes h.2.2)
  | .declareStatic _ _ v, h =>
    (((Passes.of_all (by decide)).append h.1.passes).between " " (by decide) h.2.1.passes).between
      " = " (by decide) (v.passes h.2.2)
  | .declareArray _ _, h => (h.1.passes.between " " (by decide) h.2.1.passes).append fun _ => rfl
  | .assign t v, h | .add t v, h | .subtract t v, h =>
    (t.passes h.1).between _ (by decide) (v.passes h.2)
  | .increment e, h | .decrement e, h => (e.passes h).append (.of_all (by decide))
  | .run e, h => e.passes h
  | .retWith e, h => Passes.enclosed _ _ ['('] (fun _ => rfl) (fun _ => rfl) (e.passes h.2)
  | .ret, _ | .skip, _ | .stop, _ => .of_all (by decide)

theorem ifHead_passes {c : Expr} (h : c.Closed σ) : Passes (ifHead c) :=
  Passes.enclosed _ _ ['('] (fun _ => rfl) (fun _ => rfl) (c.passes h)

theorem Loop.passes : ∀ l : Loop, l.Closed σ → Passes l.text
  | .count i first test up, h => by
    have hstep : Passes (if up then "++" else "--") := by
      cases up <;> exact .of_all (by decide)
    have := (((h.1.passes.between " = " (by decide) (first.passes h.2.1)).between "; " (by decide)
      (test.passes h.2.2)).between "; " (by decide) h.1.passes).append hstep
    have := Passes.enclosed "for(int " ")" ['('] (fun _ => rfl) (fun _ => rfl) this
    simpa only [Loop.text_count, String.append_assoc] using this
  | .during c, h => Passes.enclosed _ _ ['('] (fun _ => rfl) (fun _ => rfl) (c.passes h)

end Scoped

/-! ## Lines -/

/-- The characters of lines, each with its end. -/
def terminated (ls : List String) : List Char :=
  ls.flatMap fun l => l.toList ++ ['\n']

/-- Lines that leave the open brackets as they are. -/
def Settles (ls : List String) : Prop :=
  Moves [] (terminated ls) []

theorem terminated_append (ls ms : List String) :
    terminated (ls ++ ms) = terminated ls ++ terminated ms :=
  flatMap_append

theorem terminated_cons (l : String) (ls : List String) :
    terminated (l :: ls) = l.toList ++ '\n' :: terminated ls := by
  simp [terminated]

theorem lines_toList {ls : List String} (h : ls ≠ []) :
    (Text.lines ls).toList ++ ['\n'] = terminated ls := by
  induction ls with
  | nil => exact absurd rfl h
  | cons l ls ih =>
    cases ls with
    | nil => simp [Text.lines, terminated]
    | cons m ls =>
      rw [Text.lines, String.intercalate_cons_cons, terminated_cons, ← ih (cons_ne_nil m ls)]
      simp [Text.lines]

theorem Lexer.run_terminated (m : Lexer) (l : String) (ls : List String) :
    m.run (terminated (l :: ls)) = (m.run (l.toList ++ ['\n'])).bind fun m =>
      m.run (terminated ls) := by
  rw [← Lexer.run_append, terminated_cons, append_assoc]
  rfl

theorem Lexer.run_line (o : List Char) (l : String) :
    Lexer.run ⟨.code, o⟩ (l.toList ++ ['\n']) = none ∨
      ∃ o', Lexer.run ⟨.code, o⟩ (l.toList ++ ['\n']) = some ⟨.code, o'⟩ := by
  rw [Lexer.run_append]
  cases Lexer.run ⟨.code, o⟩ l.toList with
  | none => exact .inl rfl
  | some m =>
    obtain ⟨place, opened⟩ := m
    cases place with
    | code => exact .inr ⟨opened, rfl⟩
    | slash => exact .inr ⟨opened, rfl⟩
    | quoted => exact .inl rfl
    | escaped => exact .inl rfl
    | comment => exact .inr ⟨opened, rfl⟩

namespace Settles

variable {ls ms : List String} {s t : String}

theorem nil : Settles [] := fun _ => rfl

theorem append (hl : Settles ls) (hm : Settles ms) : Settles (ls ++ ms) := by
  rw [Settles, terminated_append]
  exact hl.trans hm

theorem line (h : Passes s) : Settles [s] := by
  rw [Settles, terminated_cons]
  exact h.trans fun _ => rfl

theorem cons (h : Passes s) (hl : Settles ls) : Settles (s :: ls) :=
  (line h).append hl

theorem of_all (h : ∀ l ∈ ls, Passes l) : Settles ls := by
  induction ls with
  | nil => exact nil
  | cons l ls ih =>
    rw [forall_mem_cons] at h
    exact cons h.1 (ih h.2)

theorem after (h : Passes s) (ht : Settles [t]) : Settles [s ++ t] := by
  have := h.trans ht
  simpa [Settles, terminated] using this

theorem comment (ht : OneLine t) : Settles ["//" ++ t] := by
  have hcomment (cs o : List Char) (hcs : '\n' ∉ cs) :
      Lexer.run ⟨.comment, o⟩ (cs ++ ['\n']) = some ⟨.code, o⟩ := by
    induction cs with
    | nil => rfl
    | cons c cs ih =>
      rw [mem_cons, not_or] at hcs
      simpa [Lexer.run, Lexer.read, Ne.symm hcs.1] using ih hcs.2
  have : Moves [] ("//".toList ++ (t.toList ++ ['\n'])) [] := fun o => hcomment t.toList _ ht
  simpa [Settles, terminated] using this

theorem note {u : String} (ht : OneLine t) (hu : OneLine u) : Settles ["//" ++ u ++ t] := by
  rw [String.append_assoc]
  exact comment (by simpa [OneLine] using ⟨hu, ht⟩)

theorem remark (h : Passes s) (ht : OneLine t) : Settles [s ++ (" // " ++ t)] := by
  have hsplit : " // " ++ t = " " ++ ("//" ++ (" " ++ t)) := by
    rw [← String.append_assoc, ← String.append_assoc]
    rfl
  have hline : OneLine (" " ++ t) := by simpa [OneLine] using ht
  rw [hsplit]
  exact after h (after (.of_all (by decide)) (comment hline))

theorem indent (level : Nat) (h : Settles ls) : Settles (Mql.indent level ls) := by
  have hpad (o : List Char) : Lexer.run ⟨.code, o⟩ (List.replicate (3 * level) ' ') =
      some ⟨.code, o⟩ := by
    generalize 3 * level = n
    induction n with
    | zero => rfl
    | succ n ih => exact ih
  suffices hsame : ∀ (ls : List String) (o : List Char),
      Lexer.run ⟨.code, o⟩ (terminated (Mql.indent level ls)) =
        Lexer.run ⟨.code, o⟩ (terminated ls) from fun o => (hsame ls o).trans (h o)
  intro ls
  induction ls with
  | nil => exact fun _ => rfl
  | cons l ls ih =>
    intro o
    have hline : Lexer.run ⟨.code, o⟩ ((if l.isEmpty then "" else
        String.ofList (List.replicate (3 * level) ' ') ++ l).toList ++ ['\n']) =
          Lexer.run ⟨.code, o⟩ (l.toList ++ ['\n']) := by
      cases hl : l.isEmpty with
      | true => rw [String.isEmpty_iff.mp hl]; rfl
      | false =>
        rw [if_neg Bool.false_ne_true, String.toList_append, String.toList_ofList,
          append_assoc, Lexer.run_append, hpad]
        rfl
    rw [Mql.indent, map_cons, Lexer.run_terminated, hline, Lexer.run_terminated]
    rcases Lexer.run_line o l with hnone | ⟨o', hsome⟩
    · rw [hnone]
      rfl
    · rw [hsome]
      exact ih o'

theorem braces (h : Settles ls) : Settles (Mql.braces ls) := by
  have hopen : Moves [] (terminated ["\x7b"]) ['\x7b'] := fun _ => rfl
  have hclose : Moves ['\x7b'] (terminated ["\x7d"]) [] := fun _ => rfl
  have := (hopen.trans ((h.indent 1).within ['\x7b'])).trans hclose
  rwa [← terminated_append, ← terminated_append] at this

end Settles

/-! ## Statements -/

section Scoped

variable {σ : Scope}

theorem addToLast_moves : ∀ {ls : List String}, ls ≠ [] → (∀ l ∈ ls, Passes l) →
    Moves ['('] (terminated (addToLast ")" ls)) []
  | [], hne, _ => absurd rfl hne
  | [l], _, h => by
    have hclose : Moves ['('] (")".toList ++ ['\n']) [] := fun _ => rfl
    have := ((h l mem_cons_self).within ['(']).trans hclose
    simpa [addToLast, terminated] using this
  | l :: m :: ls, _, h => by
    rw [forall_mem_cons] at h
    have ih := addToLast_moves (cons_ne_nil m ls) h.2
    have hline := (Settles.line h.1).within ['(']
    have := hline.trans ih
    rwa [← terminated_append] at this

theorem tallHead_settles {c : Expr} {more : List Expr} (hc : c.Closed σ)
    (hmore : Expr.AllClosed σ more) : Settles (tallHead c more) := by
  cases more with
  | nil => exact .line (ifHead_passes hc)
  | cons d more =>
    have hfirst : Moves [] (terminated ["if(" ++ c.text]) ['('] := by
      have hopen : Moves [] "if(".toList ['('] := fun _ => rfl
      have hend : Moves ['('] ['\n'] ['('] := fun _ => rfl
      have := (hopen.trans ((c.passes hc).within ['('])).trans hend
      simpa [terminated] using this
    have hparts : ∀ l ∈ (d :: more).map fun d => "   && " ++ d.text, Passes l := by
      intro l hl
      obtain ⟨e, he, rfl⟩ := mem_map.mp hl
      exact .append (.of_all (by decide)) (e.passes (Expr.closed_of_mem hmore he))
    have hrest := addToLast_moves (by simp) hparts
    have := hfirst.trans hrest
    rwa [← terminated_append] at this

theorem actionBelow_passes {a : Action} (h : a.Closed σ) : Passes (actionBelow a) :=
  ((Passes.of_all (by decide)).append (a.passes h)).append (.of_all (by decide))

theorem guard_passes {c : Expr} {a : Action} (hc : c.Closed σ) (ha : a.Closed σ) :
    Passes (ifHead c ++ " " ++ a.text ++ ";") :=
  ((ifHead_passes hc).between " " (by decide) (a.passes ha)).append (.of_all (by decide))

theorem Stmt.line_passes {s : Stmt} (hs : s.isSimple = true) (h : s.Closed σ) :
    ∃ l, s.lines = [l] ∧ Passes l := by
  cases s with
  | act a => exact ⟨_, rfl, (a.passes h).append (.of_all (by decide))⟩
  | guard c a => exact ⟨_, rfl, guard_passes h.1 h.2⟩
  | _ => cases hs

theorem guardAll_settles {c : Expr} {as : List Action} (hc : c.Closed σ)
    (has : ∀ a ∈ as, a.Closed σ) : Settles (Stmt.guardAll c as).lines := by
  have hactions : Passes (" ".intercalate (as.map fun a => a.text ++ ";")) := by
    refine Passes.composes.intercalate (by decide) fun t ht => ?_
    obtain ⟨a, ha, rfl⟩ := mem_map.mp ht
    exact (a.passes (has a ha)).append (.of_all (by decide))
  have hbody := Passes.enclosed " \x7b " " \x7d" ['\x7b'] (fun _ => rfl) (fun _ => rfl) hactions
  have := (ifHead_passes hc).append hbody
  rw [Stmt.lines]
  exact .line (by simpa only [String.append_assoc] using this)

mutual

theorem Stmt.lines_settle : ∀ s : Stmt, s.Closed σ → Settles s.lines
  | .blank, _ => .line .empty
  | .note _, h => .note (u := " ") h (by simp [OneLine])
  | .heading _, h => .note (u := "--- ") h (by simp [OneLine])
  | .act a, h => .line ((a.passes h).append (.of_all (by decide)))
  | .remarked s t, h => by
    obtain ⟨l, hl, hpasses⟩ := s.line_passes h.1 h.2.1
    rw [Stmt.lines, hl, addToLast]
    exact .remark hpasses h.2.2
  | .guard c a, h => .line (guard_passes h.1 h.2)
  | .guardAll c as, h => guardAll_settles h.1 h.2
  | .guardBelow c a, h => .cons (ifHead_passes h.1) (.line (actionBelow_passes h.2))
  | .eitherBelow c a b, h =>
    .cons (ifHead_passes h.1) (.cons (actionBelow_passes h.2.1)
      (.cons (.of_all (by decide)) (.line (actionBelow_passes h.2.2))))
  | .elseIfBelow c a d b, h =>
    .cons (ifHead_passes h.1) (.cons (actionBelow_passes h.2.1)
      (.cons (.append (.of_all (by decide)) (ifHead_passes h.2.2.1))
        (.line (actionBelow_passes h.2.2.2))))
  | .guardTall c more a, h => (tallHead_settles h.1 h.2.1).append (.line (actionBelow_passes h.2.2))
  | .declareTall type x c yes no, h =>
    .cons ((h.1.passes.between " " (by decide) h.2.1.passes).between " = " (by decide)
        (c.passes h.2.2.1))
      (.cons (.append (.of_all (by decide)) (yes.passes h.2.2.2.1))
        (.line ((Passes.append (.of_all (by decide)) (no.passes h.2.2.2.2)).append
          (.of_all (by decide)))))
  | .branch c body, h => .cons (ifHead_passes h.1) (Stmt.block_settles body h.2).braces
  | .branchElse c yes no, h =>
    (Settles.cons (ifHead_passes h.1) (Stmt.block_settles yes h.2.1).braces).append
      (.cons (.of_all (by decide)) (Stmt.block_settles no h.2.2).braces)
  | .scope body, h => (Stmt.block_settles body h).braces
  | .loop head body, h => .cons (head.passes h.1) (Stmt.block_settles body h.2).braces
  | .loopBelow head s, h => .cons (head.passes h.1) ((s.lines_settle h.2).indent 1)
  | .deeper s, h => (s.lines_settle h).indent 1

theorem Stmt.block_settles : ∀ ss : List Stmt, Stmt.AllClosed σ ss → Settles (Stmt.block ss)
  | [], _ => .nil
  | s :: ss, h => (s.lines_settle h.1).append (Stmt.block_settles ss h.2)

end

/-! ## Functions and globals -/

theorem Param.passes {p : Param} (htype : σ.HasWord p.type) (hname : σ.Has p.name)
    (hvalue : ∀ v ∈ p.value, ∃ b, v = .lit (.flag b)) : Passes p.text := by
  have hreference : Passes (if p.byReference then "&" else "") := by
    cases p.byReference <;> exact .of_all (by decide)
  refine ((htype.passes.between " " (by decide) hreference).append hname.passes).append ?_
  cases hv : p.value with
  | none => exact .empty
  | some v =>
    obtain ⟨b, rfl⟩ := hvalue v hv
    exact .append (.of_all (by decide)) (Passes.composes.literal (.flag b) fun _ h => by cases h)

namespace Function

variable {f : Function}

theorem signature_passes (h : f.Closed σ) : Passes f.signature := by
  have hparams : Passes ("(" ++ ", ".intercalate (f.params.map Param.text) ++ ")") := by
    refine Passes.round (Passes.composes.intercalate (by decide) fun t ht => ?_)
    obtain ⟨p, hp, rfl⟩ := mem_map.mp ht
    obtain ⟨htype, hname, hvalue⟩ := h.params p hp
    exact Param.passes htype hname hvalue
  have := (h.result.passes.between " " (by decide) h.name.1.passes).append hparams
  simpa only [signature, String.append_assoc] using this

theorem titleLine_settles {t : String} (ht : OneLine t) : Settles [titleLine t] := by
  have hline : OneLine ("| " ++ Text.padRight 65 t ++ "|") := by
    simpa [OneLine, Text.padRight] using ht
  simpa [titleLine, ← String.append_assoc] using Settles.comment hline

theorem banner_settles {t : String} (ht : OneLine t) : Settles (banner t) := by
  have hbar : Settles [bar] := fun _ => rfl
  rw [banner]
  split
  · exact hbar
  · exact hbar.append ((titleLine_settles ht).append hbar)

theorem lines_settle (h : f.Closed σ) : Settles f.lines := by
  refine (Settles.append ?_ ?_).append
    (.cons (signature_passes h) (Stmt.block_settles f.body h.body).braces)
  · split
    · exact .line .empty
    · exact .nil
  · cases ht : f.title with
    | none => exact .nil
    | some t => exact banner_settles (h.title t ht)

theorem oneLine_passes (h : f.Closed σ) (hsimple : ∀ s ∈ f.body, s.isSimple = true) :
    Passes f.oneLine := by
  have hlines (ss : List Stmt) (hss : Stmt.AllClosed σ ss) (hs : ∀ s ∈ ss, s.isSimple = true) :
      ∀ l ∈ Stmt.block ss, Passes l := by
    induction ss with
    | nil => simp [Stmt.block]
    | cons s ss ih =>
      rw [forall_mem_cons] at hs
      obtain ⟨l, hl, hpasses⟩ := s.line_passes hs.1 hss.1
      rw [Stmt.block, hl, singleton_append, forall_mem_cons]
      exact ⟨hpasses, ih hss.2 hs.2⟩
  have hbody := Passes.enclosed " \x7b " " \x7d" ['\x7b'] (fun _ => rfl) (fun _ => rfl)
    (Passes.composes.intercalate (s := " ") (by decide) (hlines f.body h.body hsimple))
  have := (signature_passes h).append hbody
  simpa only [oneLine, String.append_assoc] using this

end Function

theorem Global.settles {g : Global} (h : g.Closed σ) : Settles [g.text] := by
  have hremark {s : String} (hs : Passes s) {remark : Option String}
      (ht : ∀ t ∈ remark, OneLine t) : Settles [s ++ Global.remarkText remark] := by
    cases remark with
    | none => exact .line (hs.append .empty)
    | some t => exact .remark hs (ht t rfl)
  cases g with
  | scalar type x value remark =>
    obtain ⟨htype, hx, hvalue, ht⟩ := h
    have hpasses : Passes (Action.declare type x value 0).text := by
      have hhead := (Passes.composes.word (isWord_of_mem_typeNames type htype)).between
        " " (by decide) (Passes.composes.word hx)
      cases value with
      | none => exact hhead
      | some v =>
        exact (hhead.append .empty).between " = " (by decide) (v.passes (hvalue v rfl))
    exact hremark (hpasses.append (.of_all (by decide))) ht
  | array type x remark =>
    obtain ⟨htype, hx, ht⟩ := h
    have hpasses : Passes (Action.declareArray type x).text :=
      ((Passes.composes.word (isWord_of_mem_typeNames type htype)).between " " (by decide)
        (Passes.composes.word hx)).append fun _ => rfl
    exact hremark (hpasses.append (.of_all (by decide))) ht
  | record name fields =>
    obtain ⟨hname, hfields⟩ := h
    have hrecord {body : String} (hbody : Passes body) :
        Passes ("struct " ++ name.text ++ " \x7b " ++ body ++ "\x7d;") := by
      have henclosed := Passes.enclosed " \x7b " "\x7d;" ['\x7b'] (fun _ => rfl)
        (fun _ => rfl) hbody
      simpa only [String.append_assoc] using
        ((Passes.of_all (s := "struct ") (by decide)).append
        (Passes.composes.word hname)).append henclosed
    refine .line (hrecord ?_)
    induction fields with
    | nil => exact .empty
    | cons f fields ih =>
      rw [forall_mem_cons] at hfields
      rw [map_cons, String.join_cons]
      exact ((Passes.composes.word hfields.1.1).between " " (by decide)
        (Passes.composes.word hfields.1.2)).between "; " (by decide) (ih hfields.2)

end Scoped

end TradeGraph.Mql

import TradeGraph.Proofs.Printing

/-!
# Printed lines

The lines of closed statements hold only tokens that may occur, and their braces are balanced.
-/

namespace TradeGraph.Mql

open List

variable {s t : String} {ts : List Token} {ls : List String} {Q : List Token → Prop}
variable {c : Expr} {as : List Action} {l : String}

section Scoped

variable {σ : Scope}

/-! ## Texts on lines of their own -/

theorem Ends.apart {rest : List Char} (h : Ends rest) : Apart rest := by
  cases rest with
  | nil => trivial
  | cons c cs =>
    obtain rfl : c = '\n' := h
    exact ⟨rfl, by decide⟩

/-- A text that can stand on lines of its own: its tokens may occur, and they are the same whatever
lines come next. -/
structure Stands (σ : Scope) (s : String) : Prop where
  permits : σ.Permits (tokens s)
  run : ∀ rest, Ends rest → tokensFrom .start (s.toList ++ rest) = tokens s ++
    tokensFrom .start rest

theorem Stands.of_run (hts : σ.Permits ts) (hrun : ∀ rest, Ends rest →
      tokensFrom .start (s.toList ++ rest) = ts ++ tokensFrom .start rest) :
    Stands σ s ∧ tokens s = ts := by
  have heq : tokens s = ts := by
    have := hrun [] trivial
    simpa [tokens, tokensFrom, Mode.finish] using this
  rw [← heq] at hts hrun
  exact ⟨⟨hts, hrun⟩, heq⟩

theorem Stands.of_reads (h : Reads σ.Inner s) :
    Stands σ s ∧ ∀ t ∈ tokens s, t.isBrace = false := by
  obtain ⟨ts, hts, hrun⟩ := h
  obtain ⟨hstands, heq⟩ := Stands.of_run hts.permits fun rest hrest => hrun rest hrest.apart
  exact ⟨hstands, fun t ht => hts.noBrace t (heq ▸ ht)⟩

theorem Stands.empty : Stands σ "" :=
  ⟨σ.inner_joins.nil.permits, fun _ _ => rfl⟩

theorem Stands.comment (ht : OneLine t) :
    Stands σ ("//" ++ t) ∧ tokens ("//" ++ t) = [] := by
  refine Stands.of_run σ.inner_joins.nil.permits fun rest hrest => ?_
  have hopen : tokensFrom .start (("//" ++ t).toList ++ rest) =
      tokensFrom .comment (t.toList ++ rest) := by
    rw [String.toList_append, append_assoc]
    rfl
  rw [hopen, tokensFrom_comment ht hrest]
  rfl

theorem Stands.note {u : String} (ht : OneLine t) (hu : OneLine u) :
    Stands σ ("//" ++ u ++ t) ∧ tokens ("//" ++ u ++ t) = [] := by
  rw [String.append_assoc]
  exact Stands.comment (by simpa [OneLine] using ⟨hu, ht⟩)

theorem Stands.remark (hs : Reads σ.Inner s) (ht : OneLine t) :
    Stands σ (s ++ " // " ++ t) ∧ tokens (s ++ " // " ++ t) = tokens s := by
  obtain ⟨ts, hts, hrun⟩ := hs
  rw [Reads.tokens_eq hrun]
  refine Stands.of_run hts.permits fun rest hrest => ?_
  have hsplit : (s ++ " // " ++ t).toList ++ rest =
      s.toList ++ ' ' :: '/' :: '/' :: ' ' :: (t.toList ++ rest) := by simp
  have hopen (cs : List Char) : tokensFrom .start (' ' :: '/' :: '/' :: ' ' :: cs) =
      tokensFrom .comment cs := rfl
  rw [hsplit, hrun _ (apart_blank _), hopen, tokensFrom_comment ht hrest]

theorem Stands.indented (n : Nat) (h : Stands σ s) :
    Stands σ (String.ofList (List.replicate n ' ') ++ s) ∧
      tokens (String.ofList (List.replicate n ' ') ++ s) = tokens s := by
  refine Stands.of_run h.permits fun rest hrest => ?_
  have hblanks (cs : List Char) :
      tokensFrom .start (List.replicate n ' ' ++ cs) = tokensFrom .start cs := by
    induction n with
    | zero => rfl
    | succ n ih => exact ih
  rw [String.toList_append, String.toList_ofList, append_assoc, hblanks, h.run rest hrest]

theorem Stands.intercalate {sep : String} (hsep : ∃ n, sep.toList = List.replicate (n + 1) '\n') :
    ∀ {ss : List String}, (∀ s ∈ ss, Stands σ s) →
      Stands σ (sep.intercalate ss) ∧ tokens (sep.intercalate ss) = ss.flatMap tokens
  | [], _ => ⟨Stands.empty, rfl⟩
  | [s], h => by
    rw [String.intercalate_singleton, flatMap_singleton]
    exact ⟨h s mem_cons_self, rfl⟩
  | s :: t :: ss, h => by
    obtain ⟨n, hn⟩ := hsep
    have hs := h s mem_cons_self
    obtain ⟨hrest, heq⟩ :=
      Stands.intercalate ⟨n, hn⟩ fun u (hu : u ∈ t :: ss) => h u (mem_cons_of_mem _ hu)
    have hbreaks (k : Nat) (cs : List Char) :
        tokensFrom .start (List.replicate k '\n' ++ cs) = tokensFrom .start cs := by
      induction k with
      | zero => rfl
      | succ k ih => exact ih
    rw [String.intercalate_cons_cons, flatMap_cons, ← heq]
    refine Stands.of_run (hs.permits.append hrest.permits) fun rest hends => ?_
    rw [String.toList_append, String.toList_append, append_assoc, append_assoc, hn,
      hs.run _ (by rw [replicate_succ]; rfl), hbreaks, hrest.run rest hends,
      append_assoc]

theorem Stands.lines (h : ∀ l ∈ ls, Stands σ l) :
    Stands σ (Text.lines ls) ∧ tokens (Text.lines ls) = ls.flatMap tokens :=
  Stands.intercalate ⟨0, rfl⟩ h

/-! ## Balanced braces -/

/-- Tokens that leave the number of open braces as it is, and inside of braces define nothing. -/
structure Level (ts : List Token) : Prop where
  braces : ∀ depth us, openBraces depth (ts ++ us) = openBraces depth us
  quiet : ∀ depth us, definitions (depth + 1) (ts ++ us) = definitions (depth + 1) us

theorem Level.nil : Level [] := ⟨fun _ _ => rfl, fun _ _ => rfl⟩

theorem Level.append {us : List Token} (hts : Level ts) (hus : Level us) : Level (ts ++ us) := by
  refine ⟨fun depth vs => ?_, fun depth vs => ?_⟩
  · rw [append_assoc, hts.braces, hus.braces]
  · rw [append_assoc, hts.quiet, hus.quiet]

theorem Level.of_not_brace {t : Token} (h : t.isBrace = false) : Level [t] := by
  cases t with
  | mark c =>
    rw [Token.isBrace, Bool.or_eq_false_iff, beq_eq_false_iff_ne, beq_eq_false_iff_ne] at h
    exact ⟨fun depth us => by simp [openBraces, h], fun depth us => by simp [definitions, h]⟩
  | _ => exact ⟨fun _ _ => rfl, fun _ _ => rfl⟩

theorem Level.of_no_brace : ∀ {ts : List Token}, (∀ t ∈ ts, t.isBrace = false) → Level ts
  | [], _ => Level.nil
  | t :: _, h =>
    (Level.of_not_brace (h t mem_cons_self)).append
      (Level.of_no_brace fun u hu => h u (mem_cons_of_mem t hu))

theorem definitions_braced (h : Level ts) (depth : Nat) (us : List Token) :
    definitions depth (.mark '\x7b' :: ts ++ .mark '\x7d' :: us) = definitions depth us := by
  have hopen : definitions depth (.mark '\x7b' :: ts ++ .mark '\x7d' :: us) =
      definitions (depth + 1) (ts ++ .mark '\x7d' :: us) := rfl
  rw [hopen, h.quiet]
  rfl

theorem Level.braced (h : Level ts) :
    Level (.mark '\x7b' :: ts ++ [.mark '\x7d']) := by
  refine ⟨fun depth us => ?_, fun depth us => ?_⟩
  · have hopen : openBraces depth (.mark '\x7b' :: ts ++ .mark '\x7d' :: us) =
        openBraces (depth + 1) (ts ++ .mark '\x7d' :: us) := rfl
    rw [append_assoc, singleton_append, hopen, h.braces]
    rfl
  · rw [append_assoc]
    exact definitions_braced h (depth + 1) us

/-! ## Lines of statements -/

/-- Lines that can stand on their own, with balanced braces. -/
structure BlockStands (σ : Scope) (ls : List String) : Prop where
  stands : ∀ l ∈ ls, Stands σ l
  level : Level (ls.flatMap tokens)

theorem BlockStands.nil : BlockStands σ [] :=
  ⟨by simp, Level.nil⟩

theorem BlockStands.append {ms : List String} (hl : BlockStands σ ls) (hm : BlockStands σ ms) :
    BlockStands σ (ls ++ ms) := by
  refine ⟨fun l h => ?_, ?_⟩
  · rcases mem_append.mp h with h | h
    · exact hl.stands l h
    · exact hm.stands l h
  · rw [flatMap_append]
    exact hl.level.append hm.level

theorem BlockStands.of_reads (h : Reads σ.Inner s) : BlockStands σ [s] := by
  obtain ⟨hstands, hbraces⟩ := Stands.of_reads h
  refine ⟨by simpa using hstands, ?_⟩
  rw [flatMap_singleton]
  exact Level.of_no_brace hbraces

theorem BlockStands.cons (h : Reads σ.Inner s) (hls : BlockStands σ ls) : BlockStands σ (s :: ls) :=
  (BlockStands.of_reads h).append hls

theorem BlockStands.of_silent (h : Stands σ s ∧ tokens s = []) :
    BlockStands σ [s] := by
  refine ⟨by simpa using h.1, ?_⟩
  rw [flatMap_singleton, h.2]
  exact Level.nil

theorem flatMap_tokens_indent (level : Nat) (h : ∀ l ∈ ls, Stands σ l) :
    (∀ l ∈ indent level ls, Stands σ l) ∧ (indent level ls).flatMap tokens = ls.flatMap tokens := by
  have hline (l : String) (hl : Stands σ l) :
      Stands σ (if l.isEmpty then "" else String.ofList (List.replicate (3 * level) ' ') ++ l) ∧
        tokens (if l.isEmpty then "" else String.ofList (List.replicate (3 * level) ' ') ++ l) =
          tokens l := by
    by_cases hempty : l.isEmpty = true
    · rw [if_pos hempty, String.isEmpty_iff.mp hempty]
      exact ⟨Stands.empty, rfl⟩
    · rw [if_neg hempty]
      exact hl.indented _
  refine ⟨fun l hl => ?_, ?_⟩
  · obtain ⟨k, hk, rfl⟩ := mem_map.mp hl
    exact (hline k (h k hk)).1
  · rw [indent, flatMap_map]
    exact flatMap_congr fun l hl => (hline l (h l hl)).2

theorem BlockStands.indent (level : Nat) (h : BlockStands σ ls) :
    BlockStands σ (indent level ls) := by
  obtain ⟨hstands, htokens⟩ := flatMap_tokens_indent level h.stands
  exact ⟨hstands, by rw [htokens]; exact h.level⟩

theorem Stands.brace {c : Char} (hc : c = '\x7b' ∨ c = '\x7d') :
    Stands σ (String.ofList [c]) ∧ tokens (String.ofList [c]) = [.mark c] := by
  refine Stands.of_run (σ.permits_brace hc) fun rest _ => ?_
  rcases hc with rfl | rfl <;> rfl

theorem braces_stands (h : BlockStands σ ls) :
    (∀ l ∈ braces ls, Stands σ l) ∧
      (braces ls).flatMap tokens = .mark '\x7b' :: ls.flatMap tokens ++ [.mark '\x7d'] := by
  obtain ⟨hstands, htokens⟩ := flatMap_tokens_indent 1 h.stands
  refine ⟨fun l hl => ?_, ?_⟩
  · simp only [braces, cons_append, mem_cons, mem_append, not_mem_nil,
      or_false] at hl
    rcases hl with rfl | hl | rfl
    · exact (Stands.brace (.inl rfl)).1
    · exact hstands l hl
    · exact (Stands.brace (.inr rfl)).1
  · rw [braces, cons_append, flatMap_cons, flatMap_append, htokens]
    rfl

theorem BlockStands.braces (h : BlockStands σ ls) : BlockStands σ (braces ls) := by
  obtain ⟨hstands, htokens⟩ := braces_stands h
  exact ⟨hstands, by rw [htokens]; exact h.level.braced⟩

/-! ## Statements -/

theorem BlockStands.of_all (h : ∀ l ∈ ls, Reads σ.Inner l) :
    BlockStands σ ls := by
  induction ls with
  | nil => exact BlockStands.nil
  | cons l ls ih =>
    exact BlockStands.cons (h l mem_cons_self) (ih fun m hm => h m (mem_cons_of_mem _ hm))

theorem Stands.beside {head body : String} (hhead : Reads σ.Inner head)
    (hbody : Reads σ.Inner body) :
    Stands σ (head ++ " \x7b " ++ body ++ " \x7d") ∧
      tokens (head ++ " \x7b " ++ body ++ " \x7d") =
        tokens head ++ (.mark '\x7b' :: tokens body ++ [.mark '\x7d']) := by
  obtain ⟨hh, -⟩ := Stands.of_reads hhead
  obtain ⟨hb, -⟩ := Stands.of_reads hbody
  obtain ⟨ts, -, hrun⟩ := hhead
  obtain ⟨us, -, hrun'⟩ := hbody
  have hts : tokens head = ts := Reads.tokens_eq hrun
  have hus : tokens body = us := Reads.tokens_eq hrun'
  have hhead := hh.permits
  have hbody := hb.permits
  rw [hts] at hhead ⊢
  rw [hus] at hbody ⊢
  have hbraced := ((σ.permits_brace (.inl rfl)).append hbody).append (σ.permits_brace (.inr rfl))
  refine Stands.of_run (hhead.append hbraced) fun rest _ => ?_
  have hsplit : (head ++ " \x7b " ++ body ++ " \x7d").toList ++ rest =
      head.toList ++ ' ' :: '\x7b' :: ' ' :: (body.toList ++ ' ' :: '\x7d' :: rest) := by simp
  have hopen (cs : List Char) : tokensFrom .start (' ' :: '\x7b' :: ' ' :: cs) =
      .mark '\x7b' :: tokensFrom .start cs := rfl
  have hclose : tokensFrom .start (' ' :: '\x7d' :: rest) =
      .mark '\x7d' :: tokensFrom .start rest := rfl
  rw [hsplit, hrun _ (apart_blank _), hopen, hrun' _ (apart_blank _), hclose]
  simp

theorem addToLast_reads (ht : ∀ l, Reads Q l → Reads Q (l ++ t)) :
    ∀ {ls : List String}, (∀ l ∈ ls, Reads Q l) → ∀ l ∈ addToLast t ls, Reads Q l
  | [], _ => by simp [addToLast]
  | [l], h => by
    simpa [addToLast] using ht l (h l mem_cons_self)
  | l :: m :: ls, h => by
    have ih := addToLast_reads ht fun k (hk : k ∈ m :: ls) => h k (mem_cons_of_mem _ hk)
    intro k hk
    rcases mem_cons.mp hk with rfl | hk
    · exact h k mem_cons_self
    · exact ih k hk

theorem tallHead_reads (hQ : Prints Q) {more : List Expr}
    (hc : Reads Q c.text) (hmore : ∀ d ∈ more, Reads Q d.text) :
    ∀ l ∈ tallHead c more, Reads Q l := by
  refine addToLast_reads (fun l hl => hl.before hQ ")" (by decide)) fun l hl => ?_
  rcases mem_cons.mp hl with rfl | hl
  · exact if_reads hQ hc
  · obtain ⟨d, hd, rfl⟩ := mem_map.mp hl
    exact (hmore d hd).after hQ "   && " (by decide)

theorem guard_reads (hQ : Prints Q) {a : Action}
    (hc : Reads Q c.text) (ha : Reads Q a.text) : Reads Q (ifHead c ++ " " ++ a.text ++ ";") :=
  ((ifHead_reads hQ hc).between hQ " " ha (by decide)).before hQ ";" (by decide)

theorem actions_read (hQ : Prints Q)
    (h : ∀ a ∈ as, Reads Q a.text) : Reads Q (" ".intercalate (as.map fun a => a.text ++ ";")) := by
  refine Reads.joined hQ " " (fun s hs => ?_) (by decide)
  obtain ⟨a, ha, rfl⟩ := mem_map.mp hs
  exact (h a ha).before hQ ";" (by decide)

theorem Stmt.line_of_isSimple {s : Stmt} (hs : s.isSimple = true) (h : s.Closed σ) :
    ∃ l, s.lines = [l] ∧ Reads σ.Inner l := by
  cases s with
  | act a => exact ⟨_, rfl, (a.reads h).before σ.inner_prints ";" (by decide)⟩
  | guard c a => exact ⟨_, rfl, guard_reads σ.inner_prints (c.reads h.1) (a.reads h.2)⟩
  | _ => cases hs

theorem guardAll_stands (hc : c.Closed σ)
    (has : ∀ a ∈ as, a.Closed σ) : BlockStands σ (Stmt.guardAll c as).lines := by
  have hhead := ifHead_reads σ.inner_prints (c.reads hc)
  have hactions := actions_read σ.inner_prints fun a ha => a.reads (has a ha)
  obtain ⟨hstands, htokens⟩ := Stands.beside hhead hactions
  refine ⟨by simpa [Stmt.lines] using hstands, ?_⟩
  rw [Stmt.lines, flatMap_singleton, htokens]
  exact (Level.of_no_brace (Stands.of_reads hhead).2).append
    (Level.of_no_brace (Stands.of_reads hactions).2).braced

mutual

theorem Stmt.lines_stand : ∀ s : Stmt, s.Closed σ → BlockStands σ s.lines
  | .blank, _ => BlockStands.of_silent ⟨Stands.empty, rfl⟩
  | .note _, h => BlockStands.of_silent (Stands.note (u := " ") h (by simp [OneLine]))
  | .heading _, h => BlockStands.of_silent (Stands.note (u := "--- ") h (by simp [OneLine]))
  | .act a, h => BlockStands.of_reads ((a.reads h).before σ.inner_prints ";" (by decide))
  | .remarked s t, h => by
    obtain ⟨l, hl, hreads⟩ := s.line_of_isSimple h.1 h.2.1
    obtain ⟨hstands, htokens⟩ := Stands.remark hreads h.2.2
    rw [Stmt.lines, hl, addToLast, ← String.append_assoc]
    refine ⟨by simpa using hstands, ?_⟩
    rw [flatMap_singleton, htokens]
    exact Level.of_no_brace (Stands.of_reads hreads).2
  | .guard c a, h =>
    BlockStands.of_reads (guard_reads σ.inner_prints (c.reads h.1) (a.reads h.2))
  | .guardAll c as, h => guardAll_stands h.1 h.2
  | .guardBelow c a, h => BlockStands.of_all (by
      have hhead := ifHead_reads σ.inner_prints (c.reads h.1)
      have ha := actionBelow_reads σ.inner_prints (a.reads h.2)
      simpa [Stmt.lines] using ⟨hhead, ha⟩)
  | .eitherBelow c a b, h => BlockStands.of_all (by
      have hhead := ifHead_reads σ.inner_prints (c.reads h.1)
      have ha := actionBelow_reads σ.inner_prints (a.reads h.2.1)
      have helse : Reads σ.Inner "else" := Reads.plain σ.inner_prints (by decide)
      have hb := actionBelow_reads σ.inner_prints (b.reads h.2.2)
      simpa [Stmt.lines] using ⟨hhead, ha, helse, hb⟩)
  | .elseIfBelow c a d b, h => BlockStands.of_all (by
      have hhead := ifHead_reads σ.inner_prints (c.reads h.1)
      have ha := actionBelow_reads σ.inner_prints (a.reads h.2.1)
      have helse := (Reads.plain σ.inner_prints (w := "else") (by decide)).between σ.inner_prints
        " " (ifHead_reads σ.inner_prints (d.reads h.2.2.1)) (by decide)
      have hb := actionBelow_reads σ.inner_prints (b.reads h.2.2.2)
      simpa [Stmt.lines] using ⟨hhead, ha, helse, hb⟩)
  | .guardTall c more a, h =>
    (BlockStands.of_all (tallHead_reads σ.inner_prints (c.reads h.1) fun d hd =>
      d.reads (Expr.closed_of_mem h.2.1 hd))).append
        (BlockStands.of_reads (actionBelow_reads σ.inner_prints (a.reads h.2.2)))
  | .declareTall type x c yes no, h => BlockStands.of_all (by
      have hhead := (Reads.word h.1).between σ.inner_prints " " (Reads.word h.2.1) (by decide)
      have hfirst := hhead.between σ.inner_prints " = " (c.reads h.2.2.1) (by decide)
      have hyes := (yes.reads h.2.2.2.1).after σ.inner_prints "   ? " (by decide)
      have hno := ((no.reads h.2.2.2.2).after σ.inner_prints "   : " (by decide)).before
        σ.inner_prints ";" (by decide)
      simpa [Stmt.lines] using ⟨hfirst, hyes, hno⟩)
  | .branch c body, h =>
    BlockStands.cons (ifHead_reads σ.inner_prints (c.reads h.1)) (Stmt.block_stands body h.2).braces
  | .branchElse c yes no, h =>
    (BlockStands.cons (ifHead_reads σ.inner_prints (c.reads h.1))
      (Stmt.block_stands yes h.2.1).braces).append
      (BlockStands.cons (Reads.plain σ.inner_prints (by decide))
        (Stmt.block_stands no h.2.2).braces)
  | .scope body, h => (Stmt.block_stands body h).braces
  | .loop head body, h => BlockStands.cons (head.reads h.1) (Stmt.block_stands body h.2).braces
  | .loopBelow head s, h => BlockStands.cons (head.reads h.1) ((s.lines_stand h.2).indent 1)
  | .deeper s, h => (s.lines_stand h).indent 1

theorem Stmt.block_stands : ∀ ss : List Stmt, Stmt.AllClosed σ ss → BlockStands σ (Stmt.block ss)
  | [], _ => BlockStands.nil
  | s :: ss, h => (s.lines_stand h.1).append (Stmt.block_stands ss h.2)

end

end Scoped

theorem indent_cons (h : l ≠ "") (ls : List String) :
    indent 1 (l :: ls) = ("   " ++ l) :: indent 1 ls := by
  rw [indent, map_cons, if_neg (by simpa using h)]
  rfl

theorem mem_braces {ls : List String} (hl : l ∈ ls) (h : l ≠ "") :
    "   " ++ l ∈ braces ls := by
  refine mem_append_left _ (mem_cons_of_mem _ (mem_map.mpr ⟨l, hl, ?_⟩))
  exact if_neg (by simpa using h)

theorem Stmt.block_eq_flatMap : ∀ ss : List Stmt, Stmt.block ss = ss.flatMap Stmt.lines
  | [] => rfl
  | s :: ss => congrArg (s.lines ++ ·) (Stmt.block_eq_flatMap ss)

theorem Stmt.mem_block {ss : List Stmt} {s : Stmt} (hs : s ∈ ss) (hl : l ∈ s.lines) :
    l ∈ Stmt.block ss :=
  Stmt.block_eq_flatMap ss ▸ mem_flatMap.mpr ⟨s, hs, hl⟩

theorem Stmt.block_append (ss ts : List Stmt) :
    Stmt.block (ss ++ ts) = Stmt.block ss ++ Stmt.block ts := by
  simp only [Stmt.block_eq_flatMap, flatMap_append]

end TradeGraph.Mql

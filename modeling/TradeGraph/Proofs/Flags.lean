import TradeGraph.Proofs.Lines

/-!
# Truth values that code declares

The printed lines of code are searched for declarations of truth values. What is found are the
declarations that stand in the tree, in order, if no other line begins like one.
-/

namespace TradeGraph.Mql

open List
open String (toList_append)

variable {l w type : String} {ts : List Token}

/-! ## Lines and trees -/

/-- The name of the truth value that a line declares. -/
def flagName? (line : String) : Option String :=
  match tokens line with
  | .name type :: .name x :: _ => if type = "bool" then some x else none
  | _ => none

/-- The truth value that an action declares, with its value. -/
def Action.flags : Action → List (Ident × Expr)
  | .declare type x (some e) _ => if type = "bool" then [(x, e)] else []
  | _ => []

mutual

/-- The truth values that a statement declares on lines of their own, in and out of braces. -/
def Stmt.flags : Stmt → List (Ident × Expr)
  | .act a | .guardBelow _ a | .guardTall _ _ a => a.flags
  | .eitherBelow _ a b | .elseIfBelow _ a _ b => a.flags ++ b.flags
  | .remarked s _ | .deeper s | .loopBelow _ s => s.flags
  | .branch _ body | .scope body | .loop _ body => Stmt.allFlags body
  | .branchElse _ yes no => Stmt.allFlags yes ++ Stmt.allFlags no
  | .blank | .note _ | .heading _ | .guard _ _ | .guardAll _ _ | .declareTall _ _ _ _ _ => []

/-- The truth values that statements declare, in order. -/
def Stmt.allFlags : List Stmt → List (Ident × Expr)
  | [] => []
  | s :: ss => s.flags ++ Stmt.allFlags ss

end

def Stmt.valuesOf (x : Ident) (ss : List Stmt) : List Expr :=
  (Stmt.allFlags ss).filterMap fun (y, e) => if y.text = x.text then some e else none

/-- The action begins like a declaration of a truth value only if it is one with a value. -/
def Action.isTidy : Action → Bool
  | .declare type _ value _ => value.isSome || type != "bool"
  | .declareArray type _ => type != "bool"
  | .assign (.name _) _ | .increment (.name _) | .run (.call _ _) | .run (.send _ _ _) => true
  | .declareStatic _ _ _ | .ret | .retWith _ | .skip | .stop => true
  | _ => false

mutual

/-- No line of the statement begins like a declaration of a truth value, but those that are one. -/
def Stmt.isTidy : Stmt → Bool
  | .act a | .guardBelow _ a | .guardTall _ _ a => a.isTidy
  | .eitherBelow _ a b | .elseIfBelow _ a _ b => a.isTidy && b.isTidy
  | .remarked s _ | .deeper s | .loopBelow _ s => s.isTidy
  | .branch _ body | .scope body | .loop _ body => Stmt.allTidy body
  | .branchElse _ yes no => Stmt.allTidy yes && Stmt.allTidy no
  | .blank | .note _ | .heading _ | .guard _ _ | .guardAll _ _ => true
  | .declareTall type _ _ _ _ => type != "bool"

def Stmt.allTidy : List Stmt → Bool
  | [] => true
  | s :: ss => s.isTidy && Stmt.allTidy ss

end

theorem Stmt.allFlags_append : ∀ ss ts : List Stmt,
    Stmt.allFlags (ss ++ ts) = Stmt.allFlags ss ++ Stmt.allFlags ts
  | [], _ => rfl
  | s :: ss, ts => by
    rw [cons_append, allFlags, allFlags, allFlags_append ss ts, append_assoc]

theorem Stmt.allTidy_append : ∀ ss ts : List Stmt,
    Stmt.allTidy (ss ++ ts) = (Stmt.allTidy ss && Stmt.allTidy ts)
  | [], _ => rfl
  | s :: ss, ts => by
    rw [cons_append, allTidy, allTidy, allTidy_append ss ts, Bool.and_assoc]

/-! ## Reading -/

theorem flagName?_of_tokens {m : String} (h : tokens l = tokens m) : flagName? l = flagName? m := by
  rw [flagName?, flagName?, h]

theorem flagName?_of_call (h : tokens l = .call w :: ts) : flagName? l = none := by
  rw [flagName?, h]

theorem flagName?_of_name_mark {c : Char}
    (h : tokens l = .name w :: .mark c :: ts) : flagName? l = none := by
  rw [flagName?, h]

theorem flagName?_of_ne (hw : w ≠ "bool") (h : tokens l = .name w :: ts) : flagName? l = none := by
  rw [flagName?, h]
  split
  · rename_i heq
    cases heq
    exact if_neg hw
  · rfl

theorem flagName?_of_declaration {x : String}
    (h : tokens l = .name "bool" :: .name x :: ts) : flagName? l = some x := by
  rw [flagName?, h]
  exact if_pos rfl

theorem tokens_call (hw : isWord w = true) (s : String) :
    tokens (w ++ "(" ++ s) = .call w :: .mark '(' :: tokens s := by
  have hsplit : (w ++ "(" ++ s).toList = w.toList ++ '(' :: s.toList := by simp
  rw [tokens, hsplit, tokensFrom_call hw]
  rfl

theorem tokens_name (hw : isWord w = true) {s : String} (hs : Apart s.toList) :
    tokens (w ++ s) = .name w :: tokens s := by
  rw [tokens, toList_append, tokensFrom_name hw hs]
  rfl

section Scoped

variable {σ : Scope}

theorem flagName?_ifHead (c : Expr) (s : String) : flagName? (ifHead c ++ s) = none := by
  simp only [flagName?, tokens, ifHead, toList_append, append_assoc]
  rfl

theorem flagName?_if (c : Expr) : flagName? (ifHead c) = none := by
  simpa using flagName?_ifHead c ""

theorem flagName?_else : flagName? "else" = none := by decide

theorem flagName?_elseIf (d : Expr) : flagName? ("else " ++ ifHead d) = none := by
  simp only [flagName?, tokens, ifHead, toList_append]
  rfl

theorem flagName?_loop (head : Loop) : flagName? head.text = none := by
  cases head <;> simp only [flagName?, tokens, Loop.text_count, Loop.text_during, toList_append,
    append_assoc] <;> rfl

theorem DeclarationReads.tokens_line {Q : List Token → Prop} {x s : String}
    (h : DeclarationReads Q type x s) : ∃ ts, tokens (s ++ ";") = .name type :: .name x :: ts := by
  obtain ⟨ts, -, hrun⟩ := h
  have hapart : Apart ";".toList := ⟨rfl, by decide⟩
  exact ⟨ts ++ tokensFrom .start ";".toList, by rw [tokens, toList_append, hrun _ hapart]; rfl⟩

theorem flagName?_declare {x : Ident} {value : Option Expr} {pad : ℕ}
    (h : (Action.declare type x value pad).Closed σ)
    (htidy : (Action.declare type x value pad).isTidy = true) :
    (flagName? ((Action.declare type x value pad).text ++ ";")).toList =
      (Action.declare type x value pad).flags.map fun x => x.1.text := by
  have hreads : DeclarationReads σ.Inner type x.text (Action.declare type x value pad).text := by
    cases value with
    | none => exact Action.declare_reads σ.inner_prints h.1.1 h.2.1 (by simp)
    | some e =>
      exact Action.declare_reads σ.inner_prints h.1.1 h.2.1.1 (by simpa using e.reads h.2.2)
  obtain ⟨ts, htokens⟩ := hreads.tokens_line
  by_cases htype : type = "bool"
  · subst htype
    rw [flagName?_of_declaration htokens]
    cases value with
    | none => simp [Action.isTidy] at htidy
    | some e => rfl
  · rw [flagName?_of_ne htype htokens]
    cases value with
    | none => rfl
    | some e => simp [Action.flags, htype]

theorem Action.flagName?_line {a : Action} (h : a.Closed σ) (htidy : a.isTidy = true) :
    (flagName? (a.text ++ ";")).toList = a.flags.map fun x => x.1.text := by
  have hnone {l : String} (hl : flagName? l = none) {b : Action} (hb : b.flags = []) :
      (flagName? l).toList = b.flags.map fun x => x.1.text := by rw [hl, hb]; rfl
  have hblank (s : String) : Apart (" " ++ s).toList := by
    rw [toList_append]
    exact apart_blank _
  cases a with
  | declare type x value pad => exact flagName?_declare h htidy
  | declareStatic type x e =>
    refine hnone ?_ rfl
    rw [Action.text, show "static " = "static" ++ " " from rfl]
    simp only [String.append_assoc]
    exact flagName?_of_ne (by decide) (tokens_name (by decide) (hblank _))
  | declareArray type x =>
    refine hnone ?_ rfl
    rw [Action.text]
    simp only [String.append_assoc]
    exact flagName?_of_ne (by simpa [Action.isTidy] using htidy) (tokens_name h.1.1 (hblank _))
  | assign t e =>
    cases t with
    | name x =>
      refine hnone ?_ rfl
      have hsign (s : String) : tokens (" = " ++ s) = .mark '=' :: tokens s := by
        rw [tokens, toList_append]
        rfl
      rw [Action.text, Expr.text]
      simp only [String.append_assoc]
      refine flagName?_of_name_mark ((tokens_name h.1.1 ?_).trans (congrArg _ (hsign _)))
      rw [toList_append]
      exact apart_blank _
    | _ => cases htidy
  | increment t =>
    cases t with
    | name x =>
      refine hnone ?_ rfl
      rw [Action.text, Expr.text, String.append_assoc]
      exact flagName?_of_name_mark (tokens_name h.1 ⟨rfl, by decide⟩)
    | _ => cases htidy
  | run e =>
    cases e with
    | call f args =>
      have hsplit : (Action.run (.call f args)).text ++ ";" =
          f.text ++ "(" ++ (", ".intercalate (Expr.texts args) ++ (")" ++ ";")) := by
        simp only [Action.text, Expr.text, String.append_assoc]
      exact hnone (flagName?_of_call (hsplit ▸ tokens_call h.1.1.1 _)) rfl
    | send r m args =>
      have hsplit : ∃ s, (Action.run (.send r m args)).text ++ ";" = r.text ++ ("." ++ s) :=
        ⟨m.text ++ ("(" ++ (", ".intercalate (Expr.texts args) ++ (")" ++ ";"))), by
          simp only [Action.text, Expr.text, String.append_assoc]⟩
      obtain ⟨s, hs⟩ := hsplit
      have hpoint : tokens ("." ++ s) = .mark '.' :: tokensFrom (.code true) s.toList := by
        rw [tokens, toList_append]
        rfl
      have hapart : Apart ("." ++ s).toList := by
        rw [toList_append]
        exact ⟨rfl, by decide⟩
      have htokens : tokens (r.text ++ ("." ++ s)) = _ := (tokens_name h.1.1 hapart).trans
        (congrArg _ hpoint)
      exact hnone (flagName?_of_name_mark (hs ▸ htokens)) rfl
    | _ => cases htidy
  | retWith e =>
    refine hnone ?_ rfl
    simp only [flagName?, tokens, Action.text, toList_append, append_assoc]
    rfl
  | ret | skip | stop => rfl
  | add | subtract | decrement => cases htidy

theorem flags_cons (l : String) (ls : List String) :
    (l :: ls).filterMap flagName? = (flagName? l).toList ++ ls.filterMap flagName? := by
  cases h : flagName? l <;> simp [h]

theorem flags_of_silent (h : tokens l = []) : [l].filterMap flagName? = [] := by
  rw [flags_cons, flagName?, h]
  rfl

theorem flagName?_actionBelow {a : Action} (h : a.Closed σ) (htidy : a.isTidy = true) :
    (flagName? (actionBelow a)).toList = a.flags.map fun x => x.1.text := by
  have hstands : Stands σ (a.text ++ ";") :=
    (Stands.of_reads ((a.reads h).before σ.inner_prints ";" (by decide))).1
  have hsplit : actionBelow a = String.ofList (List.replicate 3 ' ') ++ (a.text ++ ";") := by
    rw [← String.append_assoc]
    rfl
  rw [hsplit, flagName?_of_tokens (hstands.indented 3).2]
  exact Action.flagName?_line h htidy

theorem flags_indent (level : ℕ) {ls : List String} (h : ∀ l ∈ ls, Stands σ l) :
    (indent level ls).filterMap flagName? = ls.filterMap flagName? := by
  rw [indent, filterMap_map]
  refine filterMap_congr fun l hl => ?_
  by_cases hempty : l.isEmpty = true
  · rw [Function.comp_apply, if_pos hempty, String.isEmpty_iff.mp hempty]
  · rw [Function.comp_apply, if_neg hempty]
    exact flagName?_of_tokens ((h l hl).indented _).2

theorem flags_braces {ls : List String} (h : ∀ l ∈ ls, Stands σ l) :
    (braces ls).filterMap flagName? = ls.filterMap flagName? := by
  rw [braces, cons_append, flags_cons, filterMap_append, flags_indent 1 h]
  exact append_nil _

theorem flags_addToLast {t : String} : ∀ {ls : List String},
    (∀ l ∈ ls, ∀ s, flagName? (l ++ s) = none) → (addToLast t ls).filterMap flagName? = []
  | [], _ => rfl
  | [l], h => by
    rw [addToLast, flags_cons, h l mem_cons_self]
    rfl
  | l :: m :: ls, h => by
    have hl : flagName? l = none := by simpa using h l mem_cons_self ""
    have hrest : ∀ k ∈ m :: ls, ∀ s, flagName? (k ++ s) = none :=
      fun k hk => h k (mem_cons_of_mem _ hk)
    rw [addToLast, filterMap_cons_none hl, flags_addToLast hrest]
    simp

theorem flags_tallHead (c : Expr) (more : List Expr) :
    (tallHead c more).filterMap flagName? = [] := by
  refine flags_addToLast fun l hl s => ?_
  rcases mem_cons.mp hl with rfl | hl
  · simp only [flagName?, tokens, toList_append, append_assoc]
    rfl
  · obtain ⟨d, -, rfl⟩ := mem_map.mp hl
    simp only [flagName?, tokens, toList_append, append_assoc]
    rfl

theorem flags_declareTall {x : Ident} {c yes no : Expr}
    (hword : isWord type = true) (htype : type ≠ "bool") :
    (Stmt.declareTall type x c yes no).lines.filterMap flagName? = [] := by
  have hfirst : flagName? (type ++ " " ++ x.text ++ " = " ++ c.text) = none := by
    simp only [String.append_assoc]
    refine flagName?_of_ne htype (tokens_name hword ?_)
    rw [toList_append]
    exact apart_blank _
  rw [Stmt.lines, filterMap_cons_none hfirst]
  simp only [flags_cons, flagName?, tokens, toList_append, append_assoc]
  rfl

mutual

/-- The lines of a tidy statement declare the truth values that the statement does. -/
theorem Stmt.lines_flags : ∀ s : Stmt, s.Closed σ → s.isTidy = true →
    s.lines.filterMap flagName? = s.flags.map fun x => x.1.text
  | .blank, _, _ => rfl
  | .note _, h, _ => flags_of_silent (Stands.note (σ := σ) (u := " ") h (by simp [OneLine])).2
  | .heading _, h, _ => flags_of_silent (Stands.note (σ := σ) (u := "--- ") h (by simp [OneLine])).2
  | .act a, h, ht => by
    rw [Stmt.lines, flags_cons, Action.flagName?_line h ht]
    exact append_nil _
  | .remarked s t, h, ht => by
    obtain ⟨l, hl, hreads⟩ := s.line_of_isSimple h.1 h.2.1
    have hsame := s.lines_flags h.2.1 ht
    rw [hl, flags_cons] at hsame
    rw [Stmt.lines, hl, addToLast, ← String.append_assoc, flags_cons,
      flagName?_of_tokens (Stands.remark hreads h.2.2).2]
    exact hsame
  | .guard c a, _, _ => by
    rw [Stmt.lines, String.append_assoc, String.append_assoc, flags_cons, flagName?_ifHead]
    rfl
  | .guardAll c as, _, _ => by
    simp only [Stmt.lines, String.append_assoc]
    rw [flags_cons, flagName?_ifHead]
    rfl
  | .guardBelow c a, h, ht => by
    simp [Stmt.lines, flags_cons, flagName?_if, flagName?_actionBelow h.2 ht, Stmt.flags]
  | .eitherBelow c a b, h, ht => by
    obtain ⟨ha, hb⟩ := Bool.and_eq_true_iff.mp ht
    simp [Stmt.lines, flags_cons, flagName?_if, flagName?_else, flagName?_actionBelow h.2.1 ha,
      flagName?_actionBelow h.2.2 hb, Stmt.flags]
  | .elseIfBelow c a d b, h, ht => by
    obtain ⟨ha, hb⟩ := Bool.and_eq_true_iff.mp ht
    simp [Stmt.lines, flags_cons, flagName?_if, flagName?_elseIf, flagName?_actionBelow h.2.1 ha,
      flagName?_actionBelow h.2.2.2 hb, Stmt.flags]
  | .guardTall c more a, h, ht => by
    rw [Stmt.lines, filterMap_append, flags_tallHead, flags_cons, flagName?_actionBelow h.2.2 ht]
    exact append_nil _
  | .declareTall type x c yes no, h, ht => by
    rw [flags_declareTall h.1.1 (by simpa [Stmt.isTidy] using ht)]
    rfl
  | .branch c body, h, ht => by
    rw [Stmt.lines, filterMap_cons_none (flagName?_if c),
      flags_braces (Stmt.block_stands body h.2).stands]
    exact Stmt.block_flags body h.2 ht
  | .branchElse c yes no, h, ht => by
    obtain ⟨hyes, hno⟩ := Bool.and_eq_true_iff.mp ht
    rw [Stmt.lines, cons_append, filterMap_cons_none (flagName?_if c),
      filterMap_append, filterMap_cons_none flagName?_else,
      flags_braces (Stmt.block_stands yes h.2.1).stands,
      flags_braces (Stmt.block_stands no h.2.2).stands, Stmt.block_flags yes h.2.1 hyes,
      Stmt.block_flags no h.2.2 hno, ← map_append]
    rfl
  | .scope body, h, ht => by
    rw [Stmt.lines, flags_braces (Stmt.block_stands body h).stands]
    exact Stmt.block_flags body h ht
  | .loop head body, h, ht => by
    rw [Stmt.lines, filterMap_cons_none (flagName?_loop head),
      flags_braces (Stmt.block_stands body h.2).stands]
    exact Stmt.block_flags body h.2 ht
  | .loopBelow head s, h, ht => by
    rw [Stmt.lines, filterMap_cons_none (flagName?_loop head),
      flags_indent 1 (s.lines_stand h.2).stands]
    exact s.lines_flags h.2 ht
  | .deeper s, h, ht => by
    rw [Stmt.lines, flags_indent 1 (s.lines_stand h).stands]
    exact s.lines_flags h ht

/-- **The lines of tidy statements** declare the truth values that the statements do, in order. -/
theorem Stmt.block_flags : ∀ ss : List Stmt, Stmt.AllClosed σ ss → Stmt.allTidy ss = true →
    (Stmt.block ss).filterMap flagName? = (Stmt.allFlags ss).map fun x => x.1.text
  | [], _, _ => rfl
  | s :: ss, h, ht => by
    obtain ⟨hs, hss⟩ := Bool.and_eq_true_iff.mp ht
    rw [Stmt.block, filterMap_append, s.lines_flags h.1 hs, Stmt.block_flags ss h.2 hss,
      ← map_append]
    rfl

end

end Scoped

end TradeGraph.Mql

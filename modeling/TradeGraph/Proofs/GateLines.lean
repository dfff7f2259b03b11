import TradeGraph.Proofs.Raised
import TradeGraph.Proofs.Ticks

/-!
# Reading a gate from lines

A gate is read from the lines of a program: the heading of the orders says where it is, its
condition is cut at the signs that join its parts, and the flags that it tests are sought among the
lines that declare truth values. Each of the three finds what the statements have and nothing else.
-/

namespace TradeGraph

open List Mql Mql.Platform

variable {ls : List String} {s : Stmt} {x : String}

/-! ## Parts of a condition -/

/-- Cut characters at every `&&` between blanks. -/
def andPartsFrom : List Char → List (List Char)
  | [] => [[]]
  | ' ' :: '&' :: '&' :: ' ' :: cs => [] :: andPartsFrom cs
  | c :: cs => (andPartsFrom cs).modifyHead (c :: ·)

/-- The parts of a condition between its signs. -/
def andParts (s : String) : List String :=
  (andPartsFrom s.toList).map String.ofList

theorem andPartsFrom_cons {c : Char} {cs : List Char} (h : ∀ ds, cs ≠ '&' :: ds) :
    andPartsFrom (c :: cs) = (andPartsFrom cs).modifyHead (c :: ·) := by
  rw [andPartsFrom]
  rintro ds - rfl
  exact h _ rfl

theorem andPartsFrom_append {cs ds : List Char} (hds : ∀ es, ds ≠ '&' :: es) (h : '&' ∉ cs) :
    andPartsFrom (cs ++ ds) = (andPartsFrom ds).modifyHead (cs ++ ·) := by
  induction cs with
  | nil => cases hparts : andPartsFrom ds <;> simp [hparts]
  | cons c cs ih =>
    obtain ⟨-, hcs⟩ := ne_and_not_mem_of_not_mem_cons h
    have hnext : ∀ es, cs ++ ds ≠ '&' :: es := by
      intro es heq
      cases cs with
      | nil => exact hds es heq
      | cons b bs => exact hcs ((List.cons.inj heq).1 ▸ mem_cons_self)
    rw [cons_append, andPartsFrom_cons hnext, ih hcs, modifyHead_modifyHead]
    rfl

theorem andPartsFrom_intercalate : ∀ (s : String) (ss : List String),
    (∀ t ∈ s :: ss, '&' ∉ t.toList) →
      andPartsFrom (" && ".intercalate (s :: ss)).toList = (s :: ss).map String.toList
  | s, [], h => by
    have hend : ∀ es, ([] : List Char) ≠ '&' :: es := by simp
    have hs := andPartsFrom_append hend (h s mem_cons_self)
    rw [String.intercalate_singleton]
    simpa [andPartsFrom] using hs
  | s, t :: ss, h => by
    obtain ⟨hs, hrest⟩ := forall_mem_cons.mp h
    let rest := (" && ".intercalate (t :: ss)).toList
    have hsplit : (" && ".intercalate (s :: t :: ss)).toList =
        s.toList ++ ' ' :: '&' :: '&' :: ' ' :: rest := by
      simp [rest, String.intercalate_cons_cons]
    have hsign : andPartsFrom (' ' :: '&' :: '&' :: ' ' :: rest) = [] :: andPartsFrom rest := by
      rw [andPartsFrom]
    have hnext : ∀ es, ' ' :: '&' :: '&' :: ' ' :: rest ≠ '&' :: es := by simp
    rw [hsplit, andPartsFrom_append hnext hs, hsign, andPartsFrom_intercalate t ss hrest]
    simp

theorem andParts_intercalate {ss : List String} (hne : ss ≠ []) (h : ∀ t ∈ ss, '&' ∉ t.toList) :
    andParts (" && ".intercalate ss) = ss := by
  obtain ⟨s, rest, rfl⟩ := exists_cons_of_ne_nil hne
  rw [andParts, andPartsFrom_intercalate s rest h, map_map]
  exact map_id'' (fun t => String.ofList_toList) _

/-! ## Headings among lines -/

/-- Does the line begin like a comment? -/
def isComment (line : String) : Bool :=
  line.toList.head? == some '/'

section Headings

variable {σ : Scope}

theorem isComment_word {w : String} (hw : isWord w = true) (t : String) :
    isComment (w ++ t) = false := by
  rw [isWord, Bool.and_eq_true, all_eq_true] at hw
  obtain ⟨hne, hchars⟩ := hw
  obtain ⟨c, cs, hs⟩ := exists_cons_of_ne_nil (l := w.toList) (by simpa using hne)
  have hc : c ≠ '/' := by
    rintro rfl
    exact absurd (hchars _ (hs ▸ mem_cons_self)) (by decide)
  rw [isComment, String.toList_append, hs]
  simpa using hc

theorem isComment_if (c : Expr) (t : String) : isComment (ifHead c ++ t) = false := by
  simp [isComment, ifHead]

theorem isComment_indent : ∀ l ∈ indent 1 ls, isComment l = false := by
  intro l hl
  rw [indent, mem_map] at hl
  obtain ⟨k, -, rfl⟩ := hl
  split <;> simp [isComment]

theorem isComment_braces : ∀ l ∈ braces ls, isComment l = false := by
  intro l hl
  rw [braces, cons_append] at hl
  rcases mem_cons.mp hl with rfl | hl
  · rfl
  · rcases mem_append.mp hl with hl | hl
    · exact isComment_indent l hl
    · rw [mem_singleton.mp hl]
      rfl

theorem isComment_actionBelow (a : Action) : isComment (actionBelow a) = false := by
  simp [isComment, actionBelow]

theorem isComment_loop (head : Loop) : isComment head.text = false := by
  cases head <;> simp [isComment, Loop.text_count, Loop.text_during]

theorem Mql.Action.isComment_line {a : Action} (h : a.Closed σ) (htidy : a.isTidy = true)
    (t : String) :
    isComment (a.text ++ t) = false := by
  cases a with
  | declare type x value pad =>
    cases value <;> simp only [Action.text, String.append_assoc] <;> exact isComment_word h.1.1 _
  | declareArray type x =>
    simp only [Action.text, String.append_assoc]
    exact isComment_word h.1.1 _
  | assign target e =>
    cases target with
    | name x =>
      simp only [Action.text, Expr.text, String.append_assoc]
      exact isComment_word h.1.1 _
    | _ => cases htidy
  | increment target =>
    cases target with
    | name x =>
      simp only [Action.text, Expr.text, String.append_assoc]
      exact isComment_word h.1 _
    | _ => cases htidy
  | run e =>
    cases e with
    | call f args =>
      simp only [Action.text, Expr.text, String.append_assoc]
      exact isComment_word h.1.1.1 _
    | send r m args =>
      simp only [Action.text, Expr.text, String.append_assoc]
      exact isComment_word h.1.1 _
    | _ => cases htidy
  | add | subtract | decrement => cases htidy
  | _ => simp [isComment, Action.text]

theorem isComment_addToLast {t : String} : ∀ {ls : List String},
    (∀ l ∈ ls, ∀ u, isComment (l ++ u) = false) → ∀ l ∈ addToLast t ls, isComment l = false
  | [], _, l, hl => by cases hl
  | [k], h, l, hl => by
    rw [mem_singleton.mp hl, h k mem_cons_self]
  | k :: m :: ls, h, l, hl => by
    rw [addToLast] at hl
    · rcases mem_cons.mp hl with rfl | hl
      · simpa using h l mem_cons_self ""
      · exact isComment_addToLast (fun x hx => h x (mem_cons_of_mem _ hx)) l hl
    · simp

theorem isComment_tallHead (c : Expr) (more : List Expr) :
    ∀ l ∈ tallHead c more, isComment l = false := by
  refine isComment_addToLast fun l hl u => ?_
  rcases mem_cons.mp hl with rfl | hl
  · simp [isComment]
  · obtain ⟨d, -, rfl⟩ := mem_map.mp hl
    simp [isComment]

theorem Mql.Stmt.isComment_lines (h : s.Closed σ) (htidy : s.isTidy = true)
    (hnote : ∀ t, s ≠ .note t) (hheading : ∀ t, s ≠ .heading t) :
    ∀ l ∈ s.lines, isComment l = false := by
  have hif (c : Expr) : isComment (ifHead c) = false := by simpa using isComment_if c ""
  cases s with
  | note t => exact absurd rfl (hnote t)
  | heading t => exact absurd rfl (hheading t)
  | act a => exact forall_mem_singleton.mpr (Action.isComment_line h htidy _)
  | remarked s t =>
    obtain ⟨hsimple, hs, -⟩ := h
    cases s with
    | act a =>
      refine forall_mem_singleton.mpr ?_
      rw [String.append_assoc]
      exact Action.isComment_line hs htidy _
    | guard c a => simp [Stmt.lines, addToLast, isComment, ifHead]
    | _ => cases hsimple
  | guardTall c more a =>
    refine forall_mem_append.mpr ⟨isComment_tallHead c more, ?_⟩
    exact forall_mem_singleton.mpr (isComment_actionBelow a)
  | declareTall type x c yes no =>
    have hfirst : isComment (type ++ " " ++ x.text ++ " = " ++ c.text) = false := by
      simp only [String.append_assoc]
      exact isComment_word h.1.1 _
    simpa [Stmt.lines] using ⟨hfirst, by simp [isComment], by simp [isComment]⟩
  | branch c body => exact forall_mem_cons.mpr ⟨hif c, isComment_braces⟩
  | branchElse c yes no =>
    refine forall_mem_append.mpr ⟨forall_mem_cons.mpr ⟨hif c, isComment_braces⟩, ?_⟩
    exact forall_mem_cons.mpr ⟨rfl, isComment_braces⟩
  | scope body => exact isComment_braces
  | loop head body => exact forall_mem_cons.mpr ⟨isComment_loop head, isComment_braces⟩
  | loopBelow head s => exact forall_mem_cons.mpr ⟨isComment_loop head, isComment_indent⟩
  | deeper s => exact isComment_indent
  | _ => simp [Stmt.lines, isComment, ifHead, actionBelow]

def ordersHeading : String := "//--- Execute Entry"

/-- Without that heading among the statements, it is not among the lines. -/
theorem ordersHeading_notMem : ∀ {ss : List Stmt}, Stmt.AllClosed σ ss → Stmt.allTidy ss = true →
    ss.any Stmt.opensOrders = false → ordersHeading ∉ Stmt.block ss
  | [], _, _, _ => by simp [Stmt.block]
  | s :: ss, h, htidy, hquiet => by
    obtain ⟨htidy, htidies⟩ := Bool.and_eq_true_iff.mp htidy
    rw [any_cons, Bool.or_eq_false_iff] at hquiet
    have hline : ordersHeading ∉ s.lines := by
      intro hl
      by_cases hnote : ∃ t, s = .note t
      · obtain ⟨t, rfl⟩ := hnote
        have hsplit : "//" ++ "--- Execute Entry" = "//" ++ (" " ++ t) :=
          (mem_singleton.mp hl).trans (by rw [← String.append_assoc]; rfl)
        rw [String.append_right_inj] at hsplit
        have hblank : (" " ++ t).toList.head? = some ' ' := by
          rw [String.toList_append]
          rfl
        have hhead : some '-' = (" " ++ t).toList.head? := congrArg (fun u => u.toList.head?) hsplit
        rw [hblank] at hhead
        exact absurd hhead (by decide)
      by_cases hheading : ∃ t, s = .heading t
      · obtain ⟨t, rfl⟩ := hheading
        have hsplit : "//--- " ++ "Execute Entry" = "//--- " ++ t := List.mem_singleton.mp hl
        rw [String.append_right_inj] at hsplit
        rw [← hsplit] at hquiet
        cases hquiet.1
      have hcode := s.isComment_lines h.1 htidy (not_exists.mp hnote) (not_exists.mp hheading) _ hl
      exact absurd hcode (by decide)
    rw [Stmt.block, List.mem_append]
    exact not_or.mpr ⟨hline, ordersHeading_notMem h.2 htidies hquiet.2⟩

end Headings

/-! ## Declared flags among lines -/

/-- The lines that declare a truth value. -/
def declarations (x : String) (ls : List String) : List String :=
  ls.filter fun l => flagName? l == some x

theorem length_declarations (x : String) (ls : List String) :
    (declarations x ls).length = (ls.filterMap flagName?).count x := by
  induction ls with
  | nil => rfl
  | cons l ls ih =>
    rw [declarations] at ih ⊢
    cases hl : flagName? l with
    | none => simp [hl, ih]
    | some y => by_cases hy : y = x <;> simp [hl, hy, ih]

theorem declarations_eq_singleton {l : String} (hl : l ∈ ls) (hname : flagName? l = some x)
    (hcount : (ls.filterMap flagName?).count x = 1) : declarations x ls = [l] := by
  have hmem : l ∈ declarations x ls := mem_filter.mpr ⟨hl, beq_iff_eq.mpr hname⟩
  obtain ⟨k, hk⟩ := length_eq_one_iff.mp ((length_declarations x ls).trans hcount)
  rw [hk, mem_singleton] at hmem
  rw [hk, hmem]

theorem Mql.Stmt.eq_of_flag? (h : s.flag? = some x) :
    ∃ y e pad, s = .act (.declare "bool" y (some e) pad) ∧ y.text = x := by
  unfold Stmt.flag? at h
  split at h
  · rename_i type y e pad
    split at h
    · rename_i htype
      exact ⟨y, e, pad, by rw [htype], Option.some.inj h⟩
    · cases h
  · cases h

theorem topLevel_flag {σ : Scope} {ss : List Stmt} (hclosed : Stmt.AllClosed σ ss) (hs : s ∈ ss)
    (hflag : s.flag? = some x) :
    ∃ l, TopLevel [l] (Stmt.block ss) ∧ l ∈ Stmt.block ss ∧ flagName? l = some x := by
  obtain ⟨y, e, pad, rfl, rfl⟩ := Stmt.eq_of_flag? hflag
  let a : Action := .declare "bool" y (some e) pad
  have hline : (flagName? (a.text ++ ";")).toList = [y.text] :=
    flagName?_declare (Stmt.allClosed_iff.mp hclosed _ hs) rfl
  obtain ⟨before, after, rfl⟩ := append_of_mem hs
  have hsplit : before ++ .act a :: after = before ++ [.act a] ++ after := by simp
  refine ⟨a.text ++ ";", ?_, Stmt.mem_block hs mem_cons_self, ?_⟩
  · have htop : TopLevel (Stmt.block [.act a]) (Stmt.block (before ++ [.act a] ++ after)) :=
      topLevel_block (hsplit ▸ hclosed)
    rw [← hsplit] at htop
    exact htop
  · cases hname : flagName? (a.text ++ ";") with
    | none =>
      rw [hname] at hline
      cases hline
    | some z =>
      rw [hname] at hline
      rw [(List.cons.inj hline).1]

theorem exists_declaration {σ : Scope} {ss more : List Stmt}
    (hclosed : Stmt.AllClosed σ (ss ++ more)) (htidy : Stmt.allTidy (ss ++ more) = true)
    (hnodup : (gateFlags (ss ++ more)).Nodup) (hx : x ∈ gateFlags (ss ++ more)) (hs : s ∈ ss)
    (hflag : s.flag? = some x) :
    ∃ l, TopLevel [l] (Stmt.block ss) ∧ flagName? l = some x ∧
      declarations x (Stmt.block (ss ++ more)) = [l] := by
  obtain ⟨l, htop, hl, hname⟩ := topLevel_flag (Stmt.allClosed_append.mp hclosed).1 hs hflag
  refine ⟨l, htop, hname, declarations_eq_singleton ?_ hname ?_⟩
  · rw [Stmt.block_append]
    exact mem_append_left _ hl
  · rw [Stmt.block_flags _ hclosed htidy, ← count_filter (mem_filter.mp hx).2]
    exact count_eq_one_of_mem hnodup hx

end TradeGraph

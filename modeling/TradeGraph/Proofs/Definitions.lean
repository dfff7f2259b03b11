import TradeGraph.Program.Source
import TradeGraph.Proofs.Lines

/-!
# What printed code defines and declares

A printed function defines its own name and nothing else, and a printed global declares its name. So
the names that a reader finds in the text are the names of the trees.
-/

namespace TradeGraph.Mql

open List

variable {f : Function} {s type l w : String} {ss : List Stmt}

section Scoped

variable {σ : Scope}

/-- A text that stands well and defines the names. -/
def Defines (σ : Scope) (s : String) (names : List String) : Prop :=
  Stands σ s ∧ ∀ us, definitions 0 (tokens s ++ us) = names ++ definitions 0 us

/-! ## Functions -/

/-- Tokens of the parameters of a function: no braces, and nothing that looks like a function. -/
def Scope.Quiet (σ : Scope) (ts : List Token) : Prop :=
  σ.Inner ts ∧ ∀ t ∈ ts, t.call? = none

theorem Scope.quiet_joins (σ : Scope) : Joins σ.Quiet where
  nil := ⟨σ.inner_joins.nil, by simp⟩
  append hts hus := ⟨σ.inner_joins.append hts.1 hus.1, fun t ht =>
    (mem_append.mp ht).elim (hts.2 t) (hus.2 t)⟩
  mark c hbrace hbracket := ⟨σ.inner_joins.mark c hbrace hbracket, by simp [Token.call?]⟩

theorem definitions_quiet {ts : List Token} (hbraces : ∀ t ∈ ts, t.isBrace = false)
    (hcalls : ∀ t ∈ ts, t.call? = none) (depth : Nat) (us : List Token) :
    definitions depth (ts ++ us) = definitions depth us := by
  induction ts with
  | nil => rfl
  | cons t ts ih =>
    obtain ⟨hbrace, hbraces⟩ := forall_mem_cons.mp hbraces
    obtain ⟨hcall, hcalls⟩ := forall_mem_cons.mp hcalls
    have ih := ih hbraces hcalls
    cases t with
    | name w => exact ih
    | field w => exact ih
    | call w => cases hcall
    | mark c =>
      rw [Token.isBrace, Bool.or_eq_false_iff, beq_eq_false_iff_ne, beq_eq_false_iff_ne] at hbrace
      simpa [definitions, hbrace] using ih

theorem Param.reads {p : Param} (htype : σ.HasWord p.type) (hname : σ.Has p.name)
    (hvalue : ∀ v ∈ p.value, ∃ b, v = .lit (.flag b)) : Reads σ.Quiet p.text := by
  have hword {w : String} (h : σ.HasWord w) : Reads σ.Quiet w :=
    Reads.name h.1 ⟨h.inner, by simp [Token.call?]⟩
  have hglue : Glue σ.Quiet (" " ++ (if p.byReference then "&" else "")) :=
    Glue.of_all σ.quiet_joins (by cases p.byReference <;> decide)
  have hhead := (hword htype).glue σ.quiet_joins hglue (hword hname)
  rw [← String.append_assoc] at hhead
  cases hv : p.value with
  | none =>
    have : p.text = p.type ++ " " ++ (if p.byReference then "&" else "") ++ p.name.text := by
      simp [Param.text, hv]
    rw [this]
    exact hhead
  | some v =>
    obtain ⟨b, rfl⟩ := hvalue v hv
    have hflag : Reads σ.Quiet (Expr.lit (.flag b)).text := by
      cases b <;> exact hword (σ.hasWord_of_isPlain (by decide))
    have := hhead.glue σ.quiet_joins (Glue.of_all (s := " = ") σ.quiet_joins (by decide)) hflag
    simpa [Param.text, hv, String.append_assoc] using this

namespace Function

/-- The signature of a function reads well, and is where its name is defined. -/
theorem signature_reads (h : f.Closed σ) :
    Reads σ.Inner f.signature ∧
      ∀ us, definitions 0 (tokens f.signature ++ us) = f.name.text :: definitions 0 us := by
  have hparams : Reads σ.Quiet (", ".intercalate (f.params.map Param.text) ++ ")") := by
    refine Reads.closed σ.quiet_joins (Reads.intercalate σ.quiet_joins
      (Glue.of_all σ.quiet_joins (by decide)) fun s hs => ?_)
      (Glue.of_all σ.quiet_joins (by decide))
    obtain ⟨p, hp, rfl⟩ := mem_map.mp hs
    obtain ⟨htype, hname, hvalue⟩ := h.params p hp
    exact Param.reads htype hname hvalue
  obtain ⟨ts, hts, hrun⟩ := hparams
  have hall (rest : List Char) (hrest : Apart rest) :
      tokensFrom .start (f.signature.toList ++ rest) =
        (.name f.result :: .call f.name.text :: .mark '(' :: ts) ++ tokensFrom .start rest := by
    have hsplit : f.signature.toList ++ rest = f.result.toList ++ ' ' :: (f.name.text.toList ++
        '(' :: ((", ".intercalate (f.params.map Param.text) ++ ")").toList ++ rest)) := by
      simp [signature]
    have hblank (cs : List Char) : tokensFrom .start (' ' :: cs) = tokensFrom .start cs := rfl
    rw [hsplit, tokensFrom_name h.result.1 (apart_blank _), hblank, tokensFrom_call h.name.1.1,
      hrun rest hrest]
    rfl
  refine ⟨⟨_, ?_, hall⟩, fun us => ?_⟩
  · have hname : σ.Inner [.call f.name.text] :=
      Scope.inner_singleton rfl rfl ⟨h.name.1.2, h.name.2⟩
    exact σ.inner_joins.append h.result.inner (σ.inner_joins.append hname
      (σ.inner_joins.append (σ.inner_joins.mark '(' rfl rfl) hts.1))
  · have htokens : tokens f.signature = .name f.result :: .call f.name.text :: .mark '(' :: ts :=
      Reads.tokens_eq hall
    have hopen : definitions 0 ((.name f.result :: .call f.name.text :: .mark '(' :: ts) ++ us) =
        f.name.text :: definitions 0 (ts ++ us) := rfl
    rw [htokens, hopen, definitions_quiet hts.1.noBrace hts.2]

theorem banner_silent {t : String} (ht : OneLine t) :
    ∀ l ∈ banner t, Stands σ l ∧ tokens l = [] := by
  have hbar : Stands σ bar ∧ tokens bar = [] := by
    have hsplit : bar = "//" ++ ("+" ++ String.ofList (List.replicate 66 '-') ++ "+") := by
      simp [bar]
    rw [hsplit]
    exact Stands.comment (by simp [OneLine])
  have htitle : Stands σ (titleLine t) ∧ tokens (titleLine t) = [] := by
    have hsplit : titleLine t = "//" ++ ("| " ++ Text.padRight 65 t ++ "|") := by
      simp [titleLine, ← String.append_assoc]
    rw [hsplit]
    refine Stands.comment ?_
    simpa [OneLine, Text.padRight] using ht
  intro l hl
  rw [banner] at hl
  split at hl
  · rw [mem_singleton.mp hl]
    exact hbar
  · simp only [mem_cons, not_mem_nil, or_false] at hl
    rcases hl with rfl | rfl | rfl
    · exact hbar
    · exact htitle
    · exact hbar

theorem body_level (h : f.Closed σ) (us : List Token) :
    definitions 0 ((braces (Stmt.block f.body)).flatMap tokens ++ us) = definitions 0 us := by
  have hblock := Stmt.block_stands f.body h.body
  rw [(braces_stands hblock).2, append_assoc]
  exact definitions_braced hblock.level 0 us

theorem lines_eq (h : f.Closed σ) :
    ∃ above, f.lines = above ++ f.signature :: braces (Stmt.block f.body) ∧
      ∀ l ∈ above, Stands σ l ∧ tokens l = [] := by
  refine ⟨_, rfl, fun l hl => ?_⟩
  rcases mem_append.mp hl with hl | hl
  · split at hl
    · rw [mem_singleton.mp hl]
      exact ⟨Stands.empty, rfl⟩
    · cases hl
  · cases ht : f.title with
    | none => simp [ht] at hl
    | some t =>
      rw [ht] at hl
      exact banner_silent (h.title t ht) l hl

theorem text_defines (h : f.Closed σ) : Defines σ f.text [f.name.text] := by
  obtain ⟨hsignature, hdefines⟩ := signature_reads h
  obtain ⟨above, hlines, habove⟩ := lines_eq h
  have hstands : ∀ l ∈ f.lines, Stands σ l := by
    intro l hl
    rw [hlines] at hl
    rcases mem_append.mp hl with hl | hl
    · exact (habove l hl).1
    rcases mem_cons.mp hl with rfl | hl
    · exact (Stands.of_reads hsignature).1
    · exact (braces_stands (Stmt.block_stands f.body h.body)).1 l hl
  obtain ⟨htext, htokens⟩ := Stands.lines hstands
  refine ⟨htext, fun us => ?_⟩
  have hflat : f.lines.flatMap tokens =
      tokens f.signature ++ (braces (Stmt.block f.body)).flatMap tokens := by
    rw [hlines, flatMap_append, flatMap_eq_nil_iff.mpr fun l hl => (habove l hl).2,
      flatMap_cons]
    rfl
  rw [text, htokens, hflat, append_assoc, hdefines, body_level h]
  rfl

theorem oneLine_defines (h : f.Closed σ)
    (hsimple : ∀ s ∈ f.body, s.isSimple = true) : Defines σ f.oneLine [f.name.text] := by
  obtain ⟨hsignature, hdefines⟩ := signature_reads h
  have hlines (ss : List Stmt) (hss : Stmt.AllClosed σ ss) (hs : ∀ s ∈ ss, s.isSimple = true) :
      ∀ l ∈ Stmt.block ss, Reads σ.Inner l := by
    induction ss with
    | nil => simp [Stmt.block]
    | cons s ss ih =>
      obtain ⟨l, hl, hreads⟩ := s.line_of_isSimple (hs s mem_cons_self) hss.1
      have ih := ih hss.2 fun t ht => hs t (mem_cons_of_mem _ ht)
      rw [Stmt.block, hl]
      intro k hk
      rcases mem_cons.mp hk with rfl | hk
      · exact hreads
      · exact ih k hk
  have hbody : Reads σ.Inner (" ".intercalate (Stmt.block f.body)) :=
    Reads.joined σ.inner_prints " " (hlines f.body h.body hsimple) (by decide)
  obtain ⟨hstands, htokens⟩ := Stands.beside hsignature hbody
  refine ⟨hstands, fun us => ?_⟩
  rw [oneLine, htokens, append_assoc, hdefines, append_assoc]
  refine congrArg _ ?_
  exact definitions_braced (Level.of_no_brace (Stands.of_reads hbody).2) 0 us

end Function

/-! ## Sequences of definitions -/

theorem Defines.of_silent (h : Stands σ s ∧ tokens s = []) : Defines σ s [] :=
  ⟨h.1, fun us => by rw [h.2]; rfl⟩

theorem Defines.intercalate {sep : String} (hsep : ∃ n, sep.toList = List.replicate (n + 1) '\n')
    {parts : List (String × List String)} (h : ∀ p ∈ parts, Defines σ p.1 p.2) :
    Defines σ (sep.intercalate (parts.map Prod.fst)) (parts.flatMap Prod.snd) := by
  have hall : ∀ s ∈ parts.map Prod.fst, Stands σ s := by
    intro s hs
    obtain ⟨p, hp, rfl⟩ := mem_map.mp hs
    exact (h p hp).1
  obtain ⟨hstands, htokens⟩ := Stands.intercalate hsep hall
  refine ⟨hstands, fun us => ?_⟩
  rw [htokens, flatMap_map]
  clear hstands htokens hall
  induction parts with
  | nil => rfl
  | cons p parts ih =>
    rw [flatMap_cons, flatMap_cons, append_assoc, append_assoc,
      (h p mem_cons_self).2, ih fun q hq => h q (mem_cons_of_mem _ hq)]

theorem Defines.functions {sep : String} (hsep : ∃ n, sep.toList = List.replicate (n + 1) '\n')
    {fs : List Function} {printed : Function → String}
    (h : ∀ f ∈ fs, Defines σ (printed f) [f.name.text]) :
    Defines σ (sep.intercalate (fs.map printed)) (fs.map fun f => f.name.text) := by
  have hall : ∀ p ∈ fs.map (fun f => (printed f, [f.name.text])), Defines σ p.1 p.2 := by
    intro p hp
    obtain ⟨f, hf, rfl⟩ := mem_map.mp hp
    exact h f hf
  have hjoined := Defines.intercalate hsep hall
  rw [map_map, flatMap_map] at hjoined
  have hnames : fs.flatMap (fun f => [f.name.text]) = fs.map fun f => f.name.text :=
    map_eq_flatMap.symm
  rw [hnames] at hjoined
  exact hjoined

theorem Defines.definedFunctions {names : List String} (h : Defines σ s names) :
    definedFunctions s = names := by
  have := h.2 []
  simpa [Mql.definedFunctions, definitions] using this

/-! ## Declarations -/

theorem isWord_of_mem_typeNames : ∀ type ∈ typeNames, isWord type = true := by
  decide

theorem declaration_of_tokens {x : String} {ts : List Token}
    (htype : type ∈ typeNames) (htokens : tokens (type ++ s) = .name type :: .name x :: ts) :
    declaration? (type ++ s) = some (x, ts) := by
  have hword := isWord_of_mem_typeNames type htype
  have hhead : (type ++ s).toList.head? ≠ some ' ' := by
    rw [String.toList_append]
    rw [isWord, Bool.and_eq_true] at hword
    cases hcs : type.toList with
    | nil => simp [hcs] at hword
    | cons c cs =>
      simp only [hcs, all_cons, Bool.and_eq_true] at hword
      rintro hc
      obtain rfl : c = ' ' := by simpa using hc
      exact absurd hword.2.1 (by decide)
  have hbegins : (typeNames.contains type && (type ++ s).toList.head? != some ' ') = true := by
    rw [Bool.and_eq_true, contains_iff_mem, bne_iff_ne]
    exact ⟨htype, hhead⟩
  rw [declaration?, htokens]
  exact if_pos hbegins

theorem DeclarationReads.declaration {x : String}
    (h : DeclarationReads σ.Inner type x (type ++ s)) (htype : type ∈ typeNames)
    {remark : Option String} (hremark : ∀ t ∈ remark, OneLine t) :
    ∃ ts, σ.Inner ts ∧
      declaration? (type ++ s ++ ";" ++ Global.remarkText remark) = some (x, ts) := by
  obtain ⟨ts, hts, hrun⟩ := h
  refine ⟨ts ++ [.mark ';'], ?_, ?_⟩
  · exact σ.inner_joins.append hts (σ.inner_joins.mark ';' rfl rfl)
  · rw [String.append_assoc, String.append_assoc]
    refine declaration_of_tokens htype ?_
    have hclose : ∀ cs, tokensFrom .start (';' :: cs) = .mark ';' :: tokensFrom .start cs :=
      fun _ => rfl
    have hcomment : tokensFrom .start (Global.remarkText remark).toList = [] := by
      cases remark with
      | none => rfl
      | some t =>
        have hopen : tokensFrom .start (Global.remarkText (some t)).toList =
            tokensFrom .comment (t.toList ++ []) := by
          rw [Global.remarkText, String.toList_append, append_nil]
          rfl
        rw [hopen, tokensFrom_comment (hremark t rfl) (show Ends [] from trivial)]
        rfl
    have hsplit : (type ++ (s ++ (";" ++ Global.remarkText remark))).toList =
        (type ++ s).toList ++ ';' :: (Global.remarkText remark).toList := by simp
    rw [tokens, hsplit, hrun _ (show Apart (';' :: _) from ⟨rfl, by decide⟩), hclose, hcomment]
    simp

theorem Global.declaredName_text {g : Global} (h : g.Closed σ) :
    declaredName? g.text = some g.name.text := by
  cases g with
  | scalar type x value remark =>
    obtain ⟨htype, hx, hvalue, hremark⟩ := h
    have hreads : DeclarationReads σ.Inner type x.text (Action.declare type x value 0).text :=
      Action.declare_reads σ.inner_prints (isWord_of_mem_typeNames type htype) hx
        fun v hv => v.reads (hvalue v hv)
    obtain ⟨s, hs⟩ : ∃ s, (Action.declare type x value 0).text = type ++ s := by
      cases value with
      | none => exact ⟨" " ++ x.text, by simp [Action.text, String.append_assoc]⟩
      | some v =>
        exact ⟨" " ++ x.text ++ String.ofList [] ++ " = " ++ v.text,
          by simp [Action.text, String.append_assoc]⟩
    rw [hs] at hreads
    obtain ⟨ts, -, hdeclares⟩ := hreads.declaration htype hremark
    rw [Global.text, hs, declaredName?, hdeclares]
    rfl
  | array type x remark =>
    obtain ⟨htype, hx, hremark⟩ := h
    have hreads := Action.declareArray_reads (Scope.inner_brackets (σ := σ.loose) rfl)
      (isWord_of_mem_typeNames type htype) hx
    have hs : (Action.declareArray type x).text = type ++ (" " ++ x.text ++ "[]") := by
      simp [Action.text, String.append_assoc]
    rw [hs] at hreads
    obtain ⟨ts, -, hdeclares⟩ := hreads.declaration htype hremark
    rw [Global.text, hs, declaredName?, hdeclares]
    rfl
  | record name fields =>
    have hname : isWord name.text = true := h.1
    have hassoc (s t : String) : "struct " ++ name.text ++ " \x7b " ++ s ++ t =
        "struct" ++ (" " ++ name.text ++ (" \x7b " ++ (s ++ t))) := by
      simp only [← String.append_assoc]
      rfl
    obtain ⟨body, hsplit⟩ : ∃ body, (Global.record name fields).text =
        "struct" ++ (" " ++ name.text ++ (" \x7b " ++ body)) := ⟨_, hassoc _ _⟩
    obtain ⟨rest, hrest⟩ : ∃ rest, (" \x7b " ++ body).toList = ' ' :: rest :=
      ⟨_, by rw [String.toList_append]; rfl⟩
    have htokens : tokens (Global.record name fields).text =
        .name "struct" :: .name name.text :: tokensFrom .start (' ' :: rest) := by
      have hblank (cs : List Char) : tokensFrom .start (' ' :: cs) = tokensFrom .start cs := rfl
      rw [hsplit, tokens, String.toList_append, String.toList_append, String.toList_append, hrest]
      show tokensFrom .start ("struct".toList ++ ' ' :: (name.text.toList ++ ' ' :: rest)) = _
      rw [tokensFrom_name (by decide) (apart_blank _), hblank,
        tokensFrom_name hname (apart_blank _)]
    rw [hsplit] at htokens ⊢
    rw [declaredName?, declaration_of_tokens (by decide) htokens]
    rfl

/-! ## Statements in turn -/

def Scope.free (σ : Scope) : Scope :=
  { σ with vars := Set.univ }

theorem Scope.le_free (σ : Scope) : σ ≤ σ.free :=
  { le_refl σ with vars := fun _ _ => trivial }

theorem Scope.afterAll_le_free (σ : Scope) (ss : List Stmt) : σ.afterAll ss ≤ σ.free := by
  induction ss generalizing σ with
  | nil => exact σ.le_free
  | cons s ss ih =>
    refine (ih (σ.after s)).trans ?_
    rcases s.declares_or_keeps with ⟨type, x, v, pad, rfl⟩ | hkeeps
    · exact le_rfl
    · rw [(hkeeps σ).1]

theorem hasWord_of_mem_typeNames (σ : Scope) (h : type ∈ typeNames) :
    σ.HasWord type := by
  have hplain : ∀ type ∈ typeNames, isPlain type = true := by decide
  exact σ.hasWord_of_isPlain (hplain type h)

theorem Stmt.Follows.closed_after {s : Stmt} (h : s.Follows σ) : s.Closed (σ.after s) := by
  rcases s.declares_or_keeps with ⟨type, x, v, pad, rfl⟩ | hkeeps
  · exact ⟨hasWord_of_mem_typeNames _ h.1, h.2.1,
      Expr.Closed.mono (σ.le_after (.act (.declare type x (some v) pad))) v h.2.2⟩
  · rw [(hkeeps σ).1]
    rwa [(hkeeps σ).2] at h

theorem InTurn.allClosed : ∀ {σ : Scope}, InTurn σ ss →
    Stmt.AllClosed (σ.afterAll ss) ss := by
  induction ss with
  | nil => intros; trivial
  | cons s ss ih =>
    exact fun {σ} h => ⟨Stmt.Closed.mono ((σ.after s).le_afterAll ss) s h.1.closed_after, ih h.2⟩

theorem InTurn.closed_free (h : InTurn σ ss) : Stmt.AllClosed σ.free ss :=
  Stmt.AllClosed.mono (σ.afterAll_le_free ss) ss h.allClosed

theorem words_of_stands (h : Stands σ l) (hw : w ∈ words l) : σ.Knows w := by
  obtain ⟨t, ht, htw⟩ := mem_filterMap.mp hw
  have hfine := h.permits.fine t ht
  cases t with
  | mark c => cases htw
  | call v => cases htw; exact hfine.1
  | _ => cases htw; exact hfine

theorem calls_of_stands {f : String} (h : Stands σ l) (hf : f ∈ calls l) : σ.Offers f := by
  obtain ⟨t, ht, htf⟩ := mem_filterMap.mp hf
  have hfine := h.permits.fine t ht
  cases t with
  | call v => cases htf; exact hfine.2
  | _ => cases htf

theorem usedWords_subset (h : w ∈ usedWords l) : w ∈ words l := by
  rw [usedWords] at h
  split at h
  · next hdeclaration =>
    rw [declaration?] at hdeclaration
    split at hdeclaration
    · next htokens =>
      split at hdeclaration
      · cases hdeclaration
        rw [words, htokens]
        exact mem_cons_of_mem _ (mem_cons_of_mem _ h)
      · cases hdeclaration
    · cases hdeclaration
  · exact h

/-- The line of a declaration declares its name and uses only what was known before. -/
theorem declare_line {x : Ident} {v : Expr} {pad : Nat}
    (h : (Stmt.act (.declare type x (some v) pad)).Follows σ) :
    ∃ line, (Stmt.act (.declare type x (some v) pad)).lines = [line] ∧
      declaredName? line = some x.text ∧ ∀ w ∈ usedWords line, σ.Knows w := by
  obtain ⟨htype, hx, hv⟩ := h
  have hreads : DeclarationReads σ.Inner type x.text (Action.declare type x (some v) pad).text :=
    Action.declare_reads σ.inner_prints (isWord_of_mem_typeNames type htype) hx.1
      (by simpa using v.reads hv)
  obtain ⟨s, hs⟩ : ∃ s, (Action.declare type x (some v) pad).text = type ++ s :=
    ⟨" " ++ x.text ++ String.ofList (List.replicate pad ' ') ++ " = " ++ v.text,
      by simp [Action.text, String.append_assoc]⟩
  rw [hs] at hreads
  have hnone : ∀ t ∈ (none : Option String), OneLine t := by simp
  obtain ⟨ts, hts, hdeclares⟩ := hreads.declaration htype hnone
  rw [Global.remarkText, String.append_empty] at hdeclares
  refine ⟨type ++ s ++ ";", by rw [Stmt.lines, hs], by rw [declaredName?, hdeclares]; rfl, ?_⟩
  intro w hw
  rw [usedWords, hdeclares] at hw
  obtain ⟨t, ht, htw⟩ := mem_filterMap.mp hw
  have hfine := hts.permits.fine t ht
  cases t with
  | name v => cases htw; exact hfine
  | call v => cases htw; exact hfine.1
  | field v => cases htw; exact hfine
  | mark c => cases htw

/-- A line of one statement uses only variables that are known before it. -/
theorem usedWords_follows {s : Stmt} (h : s.Follows σ) {line : String} (hline : line ∈ s.lines) :
    ∀ w ∈ usedWords line, σ.Knows w := by
  rcases s.declares_or_keeps with ⟨type, x, v, pad, rfl⟩ | hkeeps
  · obtain ⟨l, hl, -, hused⟩ := declare_line h
    rw [hl, mem_singleton] at hline
    rw [hline]
    exact hused
  · rw [(hkeeps σ).2] at h
    exact fun w hw => words_of_stands ((s.lines_stand h).stands line hline) (usedWords_subset hw)

theorem declared_after {s : Stmt} (h : s.Follows σ) (hw : w ∈ (σ.after s).vars) :
    w ∈ σ.vars ∨ ∃ l ∈ s.lines, declaredName? l = some w := by
  rcases s.declares_or_keeps with ⟨type, x, v, pad, rfl⟩ | hkeeps
  · obtain ⟨l, hl, hname, -⟩ := declare_line h
    rcases hw with rfl | hw
    · exact .inr ⟨l, by rw [hl]; exact mem_singleton_self l, hname⟩
    · exact .inl hw
  · rw [(hkeeps σ).1] at hw
    exact .inl hw

/-- A line of statements in turn uses variables that are known, or that a line before it declares.
-/
theorem usedWords_inTurn : ∀ {σ : Scope}, InTurn σ ss →
    ∀ {before rest : List String} {line : String}, Stmt.block ss = before ++ line :: rest →
      ∀ w ∈ usedWords line, isSignalName w = true →
        w ∈ σ.vars ∨ ∃ l ∈ before, declaredName? l = some w := by
  induction ss with
  | nil =>
    intro σ _ before rest line hsplit
    simp [Stmt.block] at hsplit
  | cons s ss ih =>
    intro σ h before rest line hsplit w hw hsignal
    rw [Stmt.block] at hsplit
    -- the line belongs to a later statement, or to this one
    rcases append_eq_append_iff.mp hsplit with ⟨mid, hbefore, hlater⟩ | ⟨mid, hlines, hlater⟩
    · rcases ih h.2 hlater w hw hsignal with hvars | ⟨l, hl, hname⟩
      · refine (declared_after h.1 hvars).imp id ?_
        rintro ⟨l, hl, hname⟩
        exact ⟨l, by rw [hbefore]; exact mem_append_left _ hl, hname⟩
      · exact .inr ⟨l, by rw [hbefore]; exact mem_append_right _ hl, hname⟩
    · cases mid with
      | nil =>
        rw [append_nil] at hlines
        have hlater : Stmt.block ss = [] ++ line :: rest := hlater.symm
        rcases ih h.2 hlater w hw hsignal with hvars | ⟨l, hl, -⟩
        · exact (declared_after h.1 hvars).imp id (by rw [hlines]; exact id)
        · cases hl
      | cons l mid =>
        obtain ⟨rfl, -⟩ : line = l ∧ _ := List.cons.inj hlater
        have hmem : line ∈ s.lines := by rw [hlines]; simp
        exact .inl ((usedWords_follows h.1 hmem w hw).2.1 hsignal)

end Scoped

end TradeGraph.Mql

namespace TradeGraph

open List Mql

/-! ## The helper section -/

def Helper.functions (h : Helper) : List Function :=
  match h.body with
  | .functions fs => fs
  | .text _ => []

def Helper.names (h : Helper) : List String :=
  h.functions.map fun f => f.name.text

/-- The functions that every program has. -/
def Library.standardFunctions : List Function :=
  Library.countPositions :: Library.comparisons

structure Helper.Closed (σ : Scope) (h : Helper) : Prop where
  body : h.body = .functions h.functions
  functions : ∀ f ∈ h.functions, f.Closed σ

variable {σ : Scope}

theorem Helper.written_defines {h : Helper} (hclosed : h.Closed σ) :
    Defines σ h.body.written h.names := by
  rw [hclosed.body]
  exact Defines.functions ⟨1, rfl⟩ fun f hf => Function.text_defines (hclosed.functions f hf)

theorem Library.comparisons_defines (h : ∀ f ∈ Library.comparisons, f.Closed σ) :
    Defines σ (Text.lines (Library.comparisons.map Function.oneLine))
      (Library.comparisons.map fun f => f.name.text) := by
  refine Defines.functions ⟨0, rfl⟩ fun f hf => Function.oneLine_defines (h f hf) ?_
  simp only [Library.comparisons, mem_cons, not_mem_nil, or_false] at hf
  rcases hf with rfl | rfl | rfl | rfl <;> simp [Library.comparison, Stmt.isSimple]

/-- A section defines what its text defines: the banner and the last line are silent. -/
theorem Source.titled_defines {title s : String} {names : List String} (htitle : OneLine title)
    (h : Defines σ s names) : Defines σ (Source.titled title [s]) names := by
  let parts : List (String × List String) :=
    (banner title).map (fun l => (l, [])) ++ [(s, names), ("", [])]
  have hparts : ∀ p ∈ parts, Defines σ p.1 p.2 := by
    intro p hp
    rcases mem_append.mp hp with hp | hp
    · obtain ⟨l, hl, rfl⟩ := mem_map.mp hp
      exact Defines.of_silent (Function.banner_silent htitle l hl)
    · simp only [mem_cons, not_mem_nil, or_false] at hp
      rcases hp with rfl | rfl
      · exact h
      · exact Defines.of_silent ⟨Stands.empty, rfl⟩
  have hlines : Defines σ (Text.lines (parts.map Prod.fst)) (parts.flatMap Prod.snd) :=
    Defines.intercalate ⟨0, rfl⟩ hparts
  have hbanner : (banner title).flatMap (fun _ => ([] : List String)) = [] :=
    flatMap_eq_nil_iff.mpr fun _ _ => rfl
  simpa [parts, Source.titled, Function.comp_def, flatMap_map, hbanner] using hlines

/-- **The helper section** defines the functions that every program has and those of the helper
blocks, in order. -/
theorem Source.helpers_defines (hstandard : ∀ f ∈ Library.standardFunctions, f.Closed σ)
    {hs : List Helper} (hhelpers : ∀ h ∈ hs, h.Closed σ) :
    Defines σ (Source.helpers (hs.map fun h => h.body.written))
      (Library.standardFunctions.map (fun f => f.name.text) ++ hs.flatMap Helper.names) := by
  have hcount : Defines σ Library.countPositions.text [Library.countPositions.name.text] :=
    Function.text_defines (hstandard _ mem_cons_self)
  have hcomparisons :=
    Library.comparisons_defines fun f hf => hstandard f (mem_cons_of_mem _ hf)
  let blocks : List (String × List String) :=
    (Library.countPositions.text, [Library.countPositions.name.text]) ::
      (Text.lines (Library.comparisons.map Function.oneLine),
        Library.comparisons.map fun f => f.name.text) ::
      hs.map fun h => (h.body.written, h.names)
  have hblocks : ∀ p ∈ blocks, Defines σ p.1 p.2 := by
    intro p hp
    rcases mem_cons.mp hp with rfl | hp
    · exact hcount
    rcases mem_cons.mp hp with rfl | hp
    · exact hcomparisons
    · obtain ⟨h, hh, rfl⟩ := mem_map.mp hp
      exact Helper.written_defines (hhelpers h hh)
  have hjoined : Defines σ ("\n\n".intercalate (blocks.map Prod.fst)) (blocks.flatMap Prod.snd) :=
    Defines.intercalate ⟨1, rfl⟩ hblocks
  have htexts : blocks.map Prod.fst =
      Library.standard ++ hs.map fun h => h.body.written := by
    simp [blocks, Library.standard, Function.comp_def]
  have hnames : blocks.flatMap Prod.snd =
      Library.standardFunctions.map (fun f => f.name.text) ++ hs.flatMap Helper.names := by
    simp [blocks, Library.standardFunctions, flatMap_map]
  rw [htexts, hnames] at hjoined
  exact Source.titled_defines (by simp [OneLine]) hjoined

end TradeGraph

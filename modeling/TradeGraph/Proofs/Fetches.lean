import TradeGraph.Proofs.ClosedPriceAction

/-!
# What candle patterns fetch

The code of a candle pattern node declares the prices that its patterns read and no others. Code
that stands in turn mentions no more variables than it declares, so both directions are read off the
list of its declarations.
-/

namespace TradeGraph

open List Mql Mql.Platform

variable {x : Ident} {w line : String}

/-! ## Declarations of code in turn -/

namespace Mql

variable {σ : Scope} {ss : List Stmt}

/-- The variable that a statement declares and gives a value. -/
def Stmt.declared? : Stmt → Option Ident
  | .act (.declare _ x (some _) _) => some x
  | _ => none

theorem Stmt.eq_of_declared? {s : Stmt} (h : s.declared? = some x) :
    ∃ type v pad, s = .act (.declare type x (some v) pad) := by
  unfold Stmt.declared? at h
  split at h <;> cases h
  exact ⟨_, _, _, rfl⟩

theorem Scope.vars_after (σ : Scope) (s : Stmt) :
    (σ.after s).vars = {w | w ∈ σ.vars ∨ ∃ x ∈ s.declared?, x.text = w} := by
  unfold Scope.after Stmt.declared?
  split
  · ext w
    show (w = _ ∨ w ∈ σ.vars) ↔ _
    simp [eq_comm, or_comm]
  · simp

theorem Scope.mem_vars_afterAll :
    w ∈ (σ.afterAll ss).vars ↔ w ∈ σ.vars ∨ ∃ x ∈ ss.filterMap Stmt.declared?, x.text = w := by
  induction ss generalizing σ with
  | nil => simp [Scope.afterAll]
  | cons s ss ih =>
    have hstep : w ∈ (σ.afterAll (s :: ss)).vars ↔ _ := ih (σ := σ.after s)
    rw [hstep, Scope.vars_after]
    cases hs : s.declared? <;> simp [hs, or_assoc]

theorem mem_words_of_declaredName (h : declaredName? line = some w) :
    w ∈ words line := by
  rw [declaredName?, declaration?] at h
  split at h
  · next type x rest htokens =>
    split at h
    · cases h
      rw [words, htokens]
      exact mem_cons_of_mem _ mem_cons_self
    · cases h
  · cases h

theorem InTurn.declares_of_mem (h : InTurn σ ss)
    (hx : x ∈ ss.filterMap Stmt.declared?) :
    ∃ line ∈ Stmt.block ss, declaredName? line = some x.text := by
  induction ss generalizing σ with
  | nil => cases hx
  | cons s ss ih =>
    rw [filterMap_cons] at hx
    have hrest (hx : x ∈ ss.filterMap Stmt.declared?) :
        ∃ line ∈ Stmt.block (s :: ss), declaredName? line = some x.text :=
      let ⟨line, hline, hname⟩ := ih h.2 hx
      ⟨line, mem_append_right _ hline, hname⟩
    cases hs : s.declared? with
    | none => exact hrest (by simpa only [hs] using hx)
    | some y =>
      rw [hs] at hx
      rcases mem_cons.mp hx with rfl | hx
      · obtain ⟨type, v, pad, rfl⟩ := Stmt.eq_of_declared? hs
        obtain ⟨line, hlines, hname, -⟩ := declare_line h.1
        exact ⟨line, by simp [Stmt.block, hlines], hname⟩
      · exact hrest hx

/-- Of the variables of signals that are not there before, lines in turn declare and mention just
those that their statements declare. -/
theorem InTurn.declares_iff (h : InTurn σ ss) (hsignal : isSignalName w = true)
    (hnew : w ∉ σ.vars) :
    ((∃ line ∈ Stmt.block ss, declaredName? line = some w) ↔
      ∃ x ∈ ss.filterMap Stmt.declared?, x.text = w) ∧
    ((∃ line ∈ Stmt.block ss, w ∈ words line) ↔
      ∃ x ∈ ss.filterMap Stmt.declared?, x.text = w) := by
  have hdeclares : (∃ x ∈ ss.filterMap Stmt.declared?, x.text = w) →
      ∃ line ∈ Stmt.block ss, declaredName? line = some w := by
    rintro ⟨x, hx, rfl⟩
    exact h.declares_of_mem hx
  have hmentions : (∃ line ∈ Stmt.block ss, w ∈ words line) →
      ∃ x ∈ ss.filterMap Stmt.declared?, x.text = w := by
    rintro ⟨line, hline, hw⟩
    have hknows := words_of_stands ((Stmt.block_stands ss h.allClosed).stands line hline) hw
    exact (Scope.mem_vars_afterAll.mp (hknows.2.1 hsignal)).resolve_left hnew
  have hwords : (∃ line ∈ Stmt.block ss, declaredName? line = some w) →
      ∃ line ∈ Stmt.block ss, w ∈ words line :=
    fun ⟨line, hline, hname⟩ => ⟨line, hline, mem_words_of_declaredName hname⟩
  exact ⟨⟨fun hd => hmentions (hwords hd), hdeclares⟩, hmentions, fun hx => hwords (hdeclares hx)⟩

/-! ## Words of conditions -/

section Pieces

variable {Q : List Token → Prop} {a b g s : String} {ss : List String}

/-- Two texts with signs between them have all tokens of both. -/
theorem Reads.tokens_subset (ha : Reads Q a) (hg : Glue Q g) (hb : Reads Q b) :
    tokens a ⊆ tokens (a ++ g ++ b) ∧ tokens b ⊆ tokens (a ++ g ++ b) := by
  obtain ⟨ts, -, hrun⟩ := ha
  obtain ⟨us, -, hsigns⟩ := hg.signs
  obtain ⟨vs, -, hrun'⟩ := hb
  have hboth : tokens (a ++ g ++ b) = ts ++ (us ++ vs) := by
    refine Reads.tokens_eq fun rest hrest => ?_
    have hsplit : (a ++ g ++ b).toList ++ rest = a.toList ++ (g.toList ++ (b.toList ++ rest)) := by
      simp
    rw [hsplit, hrun _ (hg.apart _), hsigns, hrun' rest hrest]
    simp
  rw [hboth, Reads.tokens_eq hrun, Reads.tokens_eq hrun']
  simp

theorem Reads.subset_intercalate (hQ : Joins Q) (hg : Glue Q g) (h : ∀ s ∈ ss, Reads Q s)
    (hs : s ∈ ss) : tokens s ⊆ tokens (g.intercalate ss) := by
  induction ss with
  | nil => cases hs
  | cons t ss ih =>
    cases ss with
    | nil =>
      rw [String.intercalate_singleton, mem_singleton.mp hs]
      exact List.Subset.refl _
    | cons u ss =>
      have hrest := fun v hv => h v (mem_cons_of_mem t hv)
      obtain ⟨hfirst, hlater⟩ := Reads.tokens_subset (h t mem_cons_self) hg
        (Reads.intercalate hQ hg hrest)
      rw [String.intercalate_cons_cons]
      rcases mem_cons.mp hs with rfl | hs
      · exact hfirst
      · exact List.Subset.trans (ih hrest hs) hlater

theorem Reads.subset_if (hs : Reads Q s) : tokens s ⊆ tokens ("if(" ++ s) := by
  obtain ⟨ts, -, hrun⟩ := hs
  have hif : tokens ("if(" ++ s) = .call "if" :: .mark '(' :: ts := by
    refine Reads.tokens_eq fun rest hrest => ?_
    have hsplit : ("if(" ++ s).toList ++ rest = "if".toList ++ '(' :: (s.toList ++ rest) := by simp
    rw [hsplit, tokensFrom_call (by decide), hrun rest hrest]
    rfl
  rw [hif, Reads.tokens_eq hrun]
  simp

end Pieces

mutual

/-- The names in an expression that are compared or calculated with. -/
def Expr.operands : Expr → List Ident
  | .name x => [x]
  | .binary _ a b => a.operands ++ b.operands
  | .all parts => Expr.allOperands parts
  | _ => []

def Expr.allOperands : List Expr → List Ident
  | [] => []
  | e :: es => e.operands ++ Expr.allOperands es

end

mutual

/-- A name that is compared or calculated with is a word of the text. -/
theorem Expr.operands_read : ∀ e : Expr, e.Closed σ → ∀ x ∈ e.operands, .name x.text ∈ tokens e.text
  | .name y, h, x, hx => by
    have hword := tokensFrom_name h.1 (show Apart [] from trivial)
    rw [append_nil] at hword
    rw [mem_singleton.mp hx, Expr.text, tokens, hword]
    exact mem_cons_self
  | .binary op a b, h, x, hx => by
    obtain ⟨hleft, hright⟩ := Reads.tokens_subset (a.reads h.1)
      (op.glue σ.inner_prints) (b.reads h.2)
    have hsplit : (Expr.binary op a b).text = a.text ++ (" " ++ op.sign ++ " ") ++ b.text := by
      simp [Expr.text, String.append_assoc]
    rw [hsplit]
    exact (mem_append.mp hx).elim (fun hx => hleft (a.operands_read h.1 x hx))
      fun hx => hright (b.operands_read h.2 x hx)
  | .all parts, h, x, hx => by
    obtain ⟨s, hs, hx⟩ := Expr.allOperands_read parts h x hx
    exact Reads.subset_intercalate σ.inner_joins (Glue.of_all σ.inner_joins (by decide))
      (Expr.texts_reads parts h) hs hx
  | .lit _, _, _, hx | .call _ _, _, _, hx | .send _ _ _, _, _, hx | .member _ _, _, _, hx
  | .index _ _, _, _, hx | .not _, _, _, hx | .neg _, _, _, hx | .increased _, _, _, hx
  | .increasing _, _, _, hx | .cast _ _, _, _, hx | .any _, _, _, hx | .choice _ _ _, _, _, hx
  | .group _, _, _, hx => by cases hx

theorem Expr.allOperands_read : ∀ es : List Expr, Expr.AllClosed σ es →
    ∀ x ∈ Expr.allOperands es, ∃ s ∈ Expr.texts es, .name x.text ∈ tokens s
  | [], _, x, hx => by cases hx
  | e :: es, h, x, hx => by
    rcases mem_append.mp hx with hx | hx
    · exact ⟨_, mem_cons_self, e.operands_read h.1 x hx⟩
    · obtain ⟨s, hs, hx⟩ := Expr.allOperands_read es h.2 x hx
      exact ⟨s, mem_cons_of_mem _ hs, hx⟩

end

/-- The operands of the condition on the first line of a statement. -/
def Stmt.operands : Stmt → List Ident
  | .guard c _ | .guardTall c (_ :: _) _ => c.operands
  | _ => []

theorem Stmt.operands_used {s : Stmt} (h : s.Closed σ) (hx : x ∈ s.operands) :
    ∃ rest, "if(" ++ rest ∈ s.lines ∧ x.text ∈ words ("if(" ++ rest) := by
  suffices hline : ∃ rest, "if(" ++ rest ∈ s.lines ∧ .name x.text ∈ tokens ("if(" ++ rest) by
    obtain ⟨rest, hline, hmem⟩ := hline
    exact ⟨rest, hline, mem_filterMap.mpr ⟨_, hmem, rfl⟩⟩
  unfold Stmt.operands at hx
  split at hx
  · rename_i c a
    have hgap : Glue σ.Inner ") " := Glue.of_all σ.inner_joins (by decide)
    have hguard := ((if_reads σ.inner_prints (c.reads h.1)).tokens_subset hgap
      ((a.reads h.2).before σ.inner_prints ";" (by decide))).1
    have hline : "if(" ++ (c.text ++ ") " ++ a.text ++ ";") = ifHead c ++ " " ++ a.text ++ ";" :=
      String.toList_inj.mp (by simp [ifHead])
    have hsplit : "if(" ++ (c.text ++ ") " ++ a.text ++ ";") =
        "if(" ++ c.text ++ ") " ++ (a.text ++ ";") := by
      simp [String.append_assoc]
    refine ⟨_, mem_singleton.mpr hline, ?_⟩
    rw [hsplit]
    exact hguard ((c.reads h.1).subset_if (c.operands_read h.1 x hx))
  · rename_i c d more a
    exact ⟨c.text, mem_cons_self, (c.reads h.1).subset_if (c.operands_read h.1 x hx)⟩
  · cases hx

end Mql

/-! ## Repeated patterns -/

theorem filter_distinctPatterns (q : CandlePattern) (ps : List CandlePattern) :
    (distinctPatterns ps).filter (· != q) = distinctPatterns (ps.filter (· != q)) := by
  induction ps with
  | nil => rfl
  | cons p ps ih =>
    have hcomm : ((distinctPatterns ps).filter (· != p)).filter (· != q) =
        (distinctPatterns (ps.filter (· != q))).filter (· != p) := by
      rw [filter_comm, ih]
    by_cases hp : p = q
    · subst hp
      rw [distinctPatterns, filter_cons_of_neg (by simp), filter_cons_of_neg (by simp),
        hcomm, ← ih, filter_filter]
      simp
    · have hkeeps (rs : List CandlePattern) :
          (p :: rs).filter (· != q) = p :: rs.filter (· != q) :=
        filter_cons_of_pos (bne_iff_ne.mpr hp)
      rw [distinctPatterns, hkeeps, hkeeps, hcomm, distinctPatterns]

theorem distinctPatterns_eq_eraseDups (ps : List CandlePattern) :
    distinctPatterns ps = ps.eraseDups := by
  induction h : ps.length using Nat.strong_induction_on generalizing ps with
  | _ k ih =>
    cases ps with
    | nil => rfl
    | cons p ps =>
      have hshort : (ps.filter (· != p)).length < k := by
        have := length_filter_le (· != p) ps
        simp only [length_cons] at h
        omega
      rw [distinctPatterns, filter_distinctPatterns, ih _ hshort _ rfl, eraseDups_cons]
      rfl

theorem distinctPatterns_later {q : CandlePattern} {as : List CandlePattern} (h : q ∈ as)
    (bs : List CandlePattern) : distinctPatterns (as ++ q :: bs) = distinctPatterns (as ++ bs) := by
  simp only [distinctPatterns_eq_eraseDups, eraseDups_append, List.removeAll,
    filter_cons, elem_eq_mem, h, decide_true, Bool.not_true, Bool.false_eq_true, if_false]

/-! ## The code of a node -/

def startTails : List String :=
  ["MinBody", "O1", "C1", "H1", "L1", "O2", "C2", "H2", "L2", "Body1", "Body2", "Range1"]

def shadowTails : List String := ["UpperBody1", "LowerBody1", "UpperShadow1", "LowerShadow1"]

def thirdTails : List String := ["O3", "C3", "Body3"]

/-- The variables that the code for patterns declares. -/
def fetchedTails (ps : List CandlePattern) : List String :=
  startTails ++ (if .hammer ∈ ps ∨ .shootingStar ∈ ps then shadowTails else []) ++
    (if ∃ q ∈ ps, q.isTriple = true then thirdTails else [])

theorem mem_fetchedTails_third {t : String} (h : t ∈ thirdTails) {ps : List CandlePattern} :
    t ∈ fetchedTails ps ↔ ∃ q ∈ ps, q.isTriple = true := by
  obtain ⟨hstart, hshadow⟩ :=
    (by decide : ∀ t ∈ thirdTails, t ∉ startTails ∧ t ∉ shadowTails) t h
  have hnone : t ∉ if .hammer ∈ ps ∨ .shootingStar ∈ ps then shadowTails else [] := by
    split
    · exact hshadow
    · exact not_mem_nil
  simp only [fetchedTails, mem_append, hstart, hnone, false_or]
  split <;> simp_all

theorem mem_fetchedTails_shadow {t : String} (h : t ∈ shadowTails) {ps : List CandlePattern} :
    t ∈ fetchedTails ps ↔ .hammer ∈ ps ∨ .shootingStar ∈ ps := by
  obtain ⟨hstart, hthird⟩ :=
    (by decide : ∀ t ∈ shadowTails, t ∉ startTails ∧ t ∉ thirdTails) t h
  have hnone : t ∉ if ∃ q ∈ ps, q.isTriple = true then thirdTails else [] := by
    split
    · exact hthird
    · exact not_mem_nil
  simp only [fetchedTails, mem_append, hstart, hnone, false_or, or_false]
  split <;> simp_all

theorem text_paVar_inj {i : Nat} {s t : String} : (paVar i s).text = (paVar i t).text ↔ s = t := by
  simp [Ident.text, paVar, ← String.toList_inj]

theorem declared_patterns (i : Nat) (ps : List CandlePattern) :
    (ps.flatMap (patternBody i)).filterMap Stmt.declared? = [] := by
  rw [filterMap_flatMap, flatMap_eq_nil_iff]
  intro q _
  cases q <;> rfl

theorem isSignalName_paVar {i : Nat} {t : String} (h : isTail t = true) :
    isSignalName (paVar i t).text = true := by
  by_contra hnot
  -- a word that names no variable would be known even where there are none
  have hhas : (Scope.mk Set.univ ∅ Set.univ Set.univ none).Has (paVar i t) :=
    ⟨isWord_paVar h, fun _ => trivial, fun hsignal => absurd hsignal hnot, fun _ => trivial⟩
  exact ((Scope.has_paVar _ h).mp hhas).elim

section Tests

variable {ps : List CandlePattern} {q : CandlePattern} {i : Nat} {t : String}

theorem exists_usesShadows :
    (∃ q ∈ ps, q.usesShadows = true) ↔ .hammer ∈ ps ∨ .shootingStar ∈ ps := by
  constructor
  · rintro ⟨q, hq, huses⟩
    cases q with
    | hammer => exact .inl hq
    | shootingStar => exact .inr hq
    | _ => cases huses
  · rintro (h | h) <;> exact ⟨_, h, rfl⟩

theorem third_operands (ht : t ∈ thirdTails) (hq : q.isTriple = true) :
    paVar i t ∈ (patternBody i q).flatMap Stmt.operands := by
  simp only [thirdTails, mem_cons, not_mem_nil, or_false] at ht
  rcases ht with rfl | rfl | rfl <;> cases q <;>
    simp [patternBody, Stmt.operands, Expr.operands, Expr.allOperands, Expr.lt, Expr.gt, Expr.ge,
      CandlePattern.isTriple] at hq ⊢

theorem shadow_operands (ht : t ∈ ["UpperShadow1", "LowerShadow1"]) (hq : q.usesShadows = true) :
    paVar i t ∈ (patternBody i q).flatMap Stmt.operands := by
  simp only [mem_cons, not_mem_nil, or_false] at ht
  rcases ht with rfl | rfl <;> cases q <;>
    simp [patternBody, Stmt.operands, Expr.operands, Expr.allOperands, Expr.le, Expr.gt, Expr.ge,
      CandlePattern.usesShadows] at hq ⊢

end Tests

section Code

variable (n : Node) (i : Nat) (timeframe : Option String) (p : CandlestickPatterns)

/-- The code, with what it fetches said by the patterns as they are given. -/
theorem tick_candleCode :
    (candleCode n i timeframe p).tick =
      candleStart i (periodOf timeframe) (.name ⟨"InpCP", some i, "MinBody"⟩ * pipFactor * point) ++
        (if .hammer ∈ p.patterns ∨ .shootingStar ∈ p.patterns then barShadows i else []) ++
        (if ∃ q ∈ p.patterns, q.isTriple = true then thirdBar i (periodOf timeframe) else []) ++
        [.blank] ++ p.patterns.eraseDups.flatMap (patternBody i) ++ [.blank] := by
  have hshadows : p.patterns.eraseDups.any CandlePattern.usesShadows = true ↔
      .hammer ∈ p.patterns ∨ .shootingStar ∈ p.patterns := by
    simp only [any_eq_true, mem_eraseDups, exists_usesShadows]
  have htriple : p.patterns.eraseDups.any CandlePattern.isTriple = true ↔
      ∃ q ∈ p.patterns, q.isTriple = true := by
    simp only [any_eq_true, mem_eraseDups]
  simp only [candleCode, candleStart, distinctPatterns_eq_eraseDups, hshadows, htriple]

theorem declared_candleCode :
    (candleCode n i timeframe p).tick.filterMap Stmt.declared? =
      (fetchedTails p.patterns).map (paVar i) := by
  have hshadows : (barShadows i).filterMap Stmt.declared? = shadowTails.map (paVar i) := rfl
  have hthird : (thirdBar i (periodOf timeframe)).filterMap Stmt.declared? =
      thirdTails.map (paVar i) := rfl
  have hstart (minBody : Expr) :
      (candleStart i (periodOf timeframe) minBody).filterMap Stmt.declared? =
        startTails.map (paVar i) := rfl
  have hblank : [Stmt.blank].filterMap Stmt.declared? = [] := rfl
  rw [tick_candleCode, fetchedTails]
  simp only [filterMap_append, map_append, hstart, declared_patterns, hblank,
    append_nil]
  split <;> split <;> simp only [hshadows, hthird, filterMap_nil, map_nil]

/-- The flags of the node, and every input: all that its code reads from outside. -/
def candleScope : Scope where
  inputs := Set.univ
  vars := {w | w = (paVar i "BuySignal").text ∨ w = (paVar i "SellSignal").text}
  functions := Set.univ

theorem candleCode_closedIn :
    (candleCode n i timeframe p).ClosedIn (candleScope i) :=
  candleCode_closed
    { inputs := fun _ _ => trivial
      globals := by simp [candleCode, Scope.HasVar, candleScope]
      helpers := fun _ _ _ _ => trivial }

theorem candleCode_declares_iff {t : String} (ht : t ∈ shadowTails ++ thirdTails) :
    ((∃ line ∈ (candleCode n i timeframe p).tickLines,
        declaredName? line = some (paVar i t).text) ↔ t ∈ fetchedTails p.patterns) ∧
      ((∃ line ∈ (candleCode n i timeframe p).tickLines, (paVar i t).text ∈ words line) ↔
        t ∈ fetchedTails p.patterns) := by
  obtain ⟨htail, hbuy, hsell⟩ := (by decide : ∀ t ∈ shadowTails ++ thirdTails,
    isTail t = true ∧ t ≠ "BuySignal" ∧ t ≠ "SellSignal") t ht
  have hnew : (paVar i t).text ∉ (candleScope i).vars := by
    simp [candleScope, text_paVar_inj, hbuy, hsell]
  have hiff := (candleCode_closedIn n i timeframe p).tick.declares_iff
    (isSignalName_paVar htail) hnew
  simpa only [Program.tickLines, declared_candleCode, mem_map, exists_exists_and_eq_and,
    text_paVar_inj, exists_eq_right] using hiff

/-- What some patterns compare stands in a condition of the lines for the patterns if one of them is
looked for, given that otherwise no line mentions it. -/
theorem candleCode_tests_iff {t : String} {need : CandlePattern → Bool}
    (hmentions : (∃ line ∈ (candleCode n i timeframe p).tickLines, (paVar i t).text ∈ words line) →
      ∃ q ∈ p.patterns, need q = true)
    (hoperand : ∀ q, need q = true → paVar i t ∈ (patternBody i q).flatMap Stmt.operands) :
    (∃ rest, "if(" ++ rest ∈ Stmt.block (p.patterns.eraseDups.flatMap (patternBody i)) ∧
      (paVar i t).text ∈ words ("if(" ++ rest)) ↔ ∃ q ∈ p.patterns, need q = true := by
  constructor
  · rintro ⟨rest, hline, hword⟩
    refine hmentions ⟨_, ?_, hword⟩
    rw [Program.tickLines, tick_candleCode, Stmt.block_append, Stmt.block_append]
    exact mem_append_left _ (mem_append_right _ hline)
  · rintro ⟨q, hq, hneed⟩
    obtain ⟨s, hs, hx⟩ := mem_flatMap.mp (hoperand q hneed)
    have hclosed : InTurn (Scope.mk Set.univ Set.univ Set.univ Set.univ none) (patternBody i q) :=
      patternBody_closed trivial trivial fun _ _ => trivial
    obtain ⟨rest, hline, hword⟩ :=
      Stmt.operands_used (Stmt.allClosed_iff.mp hclosed.allClosed s hs) hx
    have hmem := mem_flatMap.mpr ⟨q, mem_eraseDups.mpr hq, hs⟩
    exact ⟨rest, Stmt.mem_block hmem hline, hword⟩

theorem candleCode_uses {before rest : List String}
    (hlines : (candleCode n i timeframe p).tickLines = before ++ line :: rest) :
    ∀ w ∈ usedWords line, isSignalName w = true →
      (∃ g ∈ (candleCode n i timeframe p).globals, declaredName? g.text = some w) ∨
        ∃ l ∈ before, declaredName? l = some w := by
  intro w hw hsignal
  have hclosed := candleCode_closedIn n i timeframe p
  refine (usedWords_inTurn hclosed.tick hlines w hw hsignal).imp ?_ id
  rintro (rfl | rfl)
  · exact ⟨_, mem_cons_self, Global.declaredName_text (hclosed.globals _ mem_cons_self)⟩
  · have hmem : Global.scalar "bool" (paVar i "SellSignal") none none ∈
        (candleCode n i timeframe p).globals := mem_cons_of_mem _ mem_cons_self
    exact ⟨_, hmem, Global.declaredName_text (hclosed.globals _ hmem)⟩

end Code

/-- **Candle code fetches exactly what it uses.** The third bar is fetched if and only if a pattern
of three candles is among the patterns, and the shadows if and only if a hammer or a shooting star
is; otherwise no line mentions them. In just those cases conditions in the lines for the patterns
test them. A line uses the flags of the node and what lines before it declare. The patterns are
looked for in the order of their first occurrence, and one that came before changes nothing. -/
theorem candle_code_fetches {n : Node} {timeframe : Option String} {p : CandlestickPatterns}
    (h : n.data.payload = .priceAction timeframe (.candlestickPattern p)) (i : Nat) :
    let code := (emitPriceAction n i).code
    let declares (t : String) := ∃ line ∈ code.tickLines, declaredName? line = some (paVar i t).text
    let mentions (t : String) := ∃ line ∈ code.tickLines, (paVar i t).text ∈ words line
    let patternLines := Stmt.block (p.patterns.eraseDups.flatMap (patternBody i))
    let tests (t : String) :=
      ∃ rest, "if(" ++ rest ∈ patternLines ∧ (paVar i t).text ∈ words ("if(" ++ rest)
    (∀ t ∈ ["O3", "C3", "Body3"], (declares t ↔ ∃ q ∈ p.patterns, q.isTriple = true) ∧
        (mentions t ↔ ∃ q ∈ p.patterns, q.isTriple = true) ∧
        (tests t ↔ ∃ q ∈ p.patterns, q.isTriple = true)) ∧
    (∀ t ∈ ["UpperBody1", "LowerBody1", "UpperShadow1", "LowerShadow1"],
      (declares t ↔ .hammer ∈ p.patterns ∨ .shootingStar ∈ p.patterns) ∧
        (mentions t ↔ .hammer ∈ p.patterns ∨ .shootingStar ∈ p.patterns)) ∧
    (∀ t ∈ ["UpperShadow1", "LowerShadow1"],
      (tests t ↔ .hammer ∈ p.patterns ∨ .shootingStar ∈ p.patterns)) ∧
    (∀ before line rest, code.tickLines = before ++ line :: rest →
      ∀ w ∈ usedWords line, isSignalName w = true →
        (∃ g ∈ code.globals, declaredName? g.text = some w) ∨
          ∃ l ∈ before, declaredName? l = some w) ∧
    (∃ minBody, code.tick = candleStart i (periodOf timeframe) minBody ++
      (if .hammer ∈ p.patterns ∨ .shootingStar ∈ p.patterns then barShadows i else []) ++
      (if ∃ q ∈ p.patterns, q.isTriple = true then thirdBar i (periodOf timeframe) else []) ++
      [.blank] ++ p.patterns.eraseDups.flatMap (patternBody i) ++ [.blank]) ∧
    ∀ as q bs, p.patterns = as ++ q :: bs → q ∈ as →
      emitPriceAction { n with
        data := { n.data with
          payload := .priceAction timeframe
            (.candlestickPattern { p with patterns := as ++ bs }) } }
        i =
      emitPriceAction n i := by
  have hcode : emitPriceAction n i =
      { code := candleCode n i timeframe p
        log := Log.debug .priceAction
          ("Price action " ++ toString i ++ ": " ++ n.kind.name ++ " '" ++ n.id ++ "'") } := by
    rw [emitPriceAction, h]
  rw [hcode]
  have hthird (t : String) (ht : t ∈ thirdTails) :=
    candleCode_declares_iff n i timeframe p (mem_append_right shadowTails ht)
  have hshadow (t : String) (ht : t ∈ shadowTails) :=
    candleCode_declares_iff n i timeframe p (mem_append_left thirdTails ht)
  refine ⟨fun t ht => ?_, fun t ht => ?_, fun t ht => ?_, fun before line rest hlines => ?_,
    ⟨_, tick_candleCode n i timeframe p⟩, fun as q bs hpatterns hq => ?_⟩
  · obtain ⟨hdeclares, hmentions⟩ := hthird t ht
    rw [mem_fetchedTails_third ht] at hdeclares hmentions
    exact ⟨hdeclares, hmentions,
      candleCode_tests_iff n i timeframe p hmentions.mp fun q => third_operands ht⟩
  · have hiff := hshadow t ht
    rwa [mem_fetchedTails_shadow ht] at hiff
  · have hmem := (by decide : ∀ t ∈ ["UpperShadow1", "LowerShadow1"], t ∈ shadowTails) t ht
    have hmentions := (hshadow t hmem).2
    rw [mem_fetchedTails_shadow hmem, ← exists_usesShadows] at hmentions
    rw [← exists_usesShadows]
    exact candleCode_tests_iff n i timeframe p hmentions.mp fun q => shadow_operands ht
  · exact candleCode_uses n i timeframe p hlines
  · have hkind : n.kind = .candlestickPattern := by rw [Node.kind, h]; rfl
    simp only [emitPriceAction, candleCode, hpatterns, distinctPatterns_later hq, hkind]
    rfl

/-- A node with a repeated pattern. -/
def starNode : Node where
  id := "star"
  type := "candlestick-pattern"
  data :=
    { common := default
      payload := .priceAction none (.candlestickPattern ⟨[.hammer, .morningStar, .hammer], 1.0⟩) }

theorem candle_code_fetches_star :
    (∃ line ∈ (emitPriceAction starNode 0).code.tickLines, declaredName? line = some "pa0O3") ∧
      emitPriceAction { starNode with data := { starNode.data with
        payload := .priceAction none (.candlestickPattern ⟨[.hammer, .morningStar], 1.0⟩) } } 0 =
      emitPriceAction starNode 0 := by
  obtain ⟨hthird, -, -, -, -, hrepeated⟩ := candle_code_fetches (n := starNode) rfl 0
  exact ⟨(hthird "O3" (by decide)).1.mpr ⟨.morningStar, by decide, rfl⟩,
    hrepeated [.hammer, .morningStar] .hammer [] rfl (by decide)⟩

end TradeGraph

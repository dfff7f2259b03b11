import TradeGraph.Proofs.Flags
import TradeGraph.Proofs.Lexical
import TradeGraph.Proofs.Refresh
import TradeGraph.Proofs.Reversals

/-!
# Joined conditions

The condition of a side is a text of parts with one sign between them. Read back with parentheses in
mind, it gives the parts and the sign again: each part is a call or stands in parentheses, so that
no sign inside it is taken for one between parts.
-/

namespace TradeGraph

open List Mql

variable {c : Conditions} {pairs : List (Expr × Expr)} {inputs : List Input}
    {indicators priceAction : List Node} {program : Program} {side : Side}
variable {mode : ConditionMode} {entries : List (Node × Signal × Indicator)} {orders : Orders}

/-! ## Cutting -/

/-- Cut a text at the signs that stand outside of parentheses, given the number of parentheses that
are open: the first part, and each further one with the sign before it. -/
def cutFrom : ℕ → List Char → List Char × List (ConditionMode × List Char)
  | _, [] => ([], [])
  | 0, ' ' :: '&' :: '&' :: ' ' :: cs => ([], (.all, (cutFrom 0 cs).1) :: (cutFrom 0 cs).2)
  | 0, ' ' :: '|' :: '|' :: ' ' :: cs => ([], (.any, (cutFrom 0 cs).1) :: (cutFrom 0 cs).2)
  | depth, c :: cs =>
    let rest := cutFrom (if c = '(' then depth + 1 else if c = ')' then depth - 1 else depth) cs
    (c :: rest.1, rest.2)

/-- The parts of a text between the signs outside of parentheses. -/
def topParts (s : String) : List String :=
  String.ofList (cutFrom 0 s.toList).1 :: (cutFrom 0 s.toList).2.map fun x => String.ofList x.2

/-- The signs of a text outside of parentheses. -/
def topSigns (s : String) : List ConditionMode :=
  (cutFrom 0 s.toList).2.map Prod.fst

/-- Parts row by row: a sign `||` ends a row, and a sign `&&` goes on with it. -/
def rowsFrom (first : List Char) : List (ConditionMode × List Char) → List (List String)
  | [] => [[String.ofList first]]
  | (.any, p) :: rest => [String.ofList first] :: rowsFrom p rest
  | (.all, p) :: rest => (rowsFrom p rest).modifyHead (String.ofList first :: ·)

/-- A text as a disjunction of conjunctions, since `||` binds less than `&&`. -/
def disjuncts (s : String) : List (List String) :=
  rowsFrom (cutFrom 0 s.toList).1 (cutFrom 0 s.toList).2

/-! ## Passing over text -/

/-- Inside of parentheses the text is passed over, and opens and closes as many of them. -/
def Nested (cs : List Char) : Prop :=
  ∀ depth rest, cutFrom (depth + 1) (cs ++ rest) =
    (cs ++ (cutFrom (depth + 1) rest).1, (cutFrom (depth + 1) rest).2)

/-- Outside of parentheses the text is passed over. -/
def Sealed (cs : List Char) : Prop :=
  ∀ rest, cutFrom 0 (cs ++ rest) = (cs ++ (cutFrom 0 rest).1, (cutFrom 0 rest).2)

/-- The text is a call or stands in parentheses. -/
def IsPrimary (s : String) : Prop :=
  ∃ f inner : String, s = f ++ "(" ++ inner ++ ")" ∧ (∀ c ∈ f.toList, isIdentChar c = true) ∧
    Nested inner.toList

def isPlainChar (c : Char) : Bool :=
  c != '(' && c != ')'

theorem cutFrom_succ (depth : ℕ) (c : Char) (cs : List Char) :
    cutFrom (depth + 1) (c :: cs) =
      (c :: (cutFrom (if c = '(' then depth + 2 else if c = ')' then depth else depth + 1) cs).1,
        (cutFrom (if c = '(' then depth + 2 else if c = ')' then depth else depth + 1) cs).2) := by
  rw [cutFrom]
  · rfl
  all_goals simp

theorem cutFrom_zero {c : Char} (hc : c ≠ ' ') (cs : List Char) :
    cutFrom 0 (c :: cs) = (c :: (cutFrom (if c = '(' then 1 else 0) cs).1,
      (cutFrom (if c = '(' then 1 else 0) cs).2) := by
  rw [cutFrom]
  · split <;> simp
  all_goals
    intros
    simp_all

namespace Nested

variable {cs ds : List Char}

theorem append (hc : Nested cs) (hd : Nested ds) : Nested (cs ++ ds) := by
  intro depth rest
  rw [append_assoc, hc, hd, append_assoc]

theorem text {s t : String} (hs : Nested s.toList) (ht : Nested t.toList) :
    Nested (s ++ t).toList := by
  rw [String.toList_append]
  exact hs.append ht

theorem of_plain (h : cs.all isPlainChar = true) : Nested cs := by
  intro depth rest
  induction cs with
  | nil => rfl
  | cons c cs ih =>
    rw [all_cons, Bool.and_eq_true, isPlainChar, Bool.and_eq_true, bne_iff_ne, bne_iff_ne] at h
    rw [cons_append, cutFrom_succ, if_neg h.1.1, if_neg h.1.2, ih h.2]
    rfl

theorem parens (h : Nested cs) : Nested ('(' :: (cs ++ [')'])) := by
  intro depth rest
  have hclose : cutFrom (depth + 2) (')' :: rest) =
      (')' :: (cutFrom (depth + 1) rest).1, (cutFrom (depth + 1) rest).2) := cutFrom_succ _ _ _
  show cutFrom (depth + 1) ('(' :: (cs ++ [')'] ++ rest)) = _
  rw [cutFrom_succ, if_pos rfl, append_assoc, h (depth + 1), singleton_append, hclose]
  simp

end Nested

theorem IsPrimary.sealed {s : String} (h : IsPrimary s) : Sealed s.toList := by
  obtain ⟨f, inner, rfl, hf, hinner⟩ := h
  intro rest
  have hclose : cutFrom 1 (')' :: rest) = (')' :: (cutFrom 0 rest).1, (cutFrom 0 rest).2) :=
    cutFrom_succ 0 _ _
  have hopen : cutFrom 0 ('(' :: (inner.toList ++ ')' :: rest)) =
      ('(' :: (inner.toList ++ ')' :: (cutFrom 0 rest).1), (cutFrom 0 rest).2) := by
    rw [cutFrom_zero (by decide), if_pos rfl, hinner 0, hclose]
  have hname : ∀ cs : List Char, (∀ c ∈ cs, isIdentChar c = true) → ∀ ds,
      cutFrom 0 (cs ++ ds) = (cs ++ (cutFrom 0 ds).1, (cutFrom 0 ds).2) := by
    intro cs hcs ds
    induction cs with
    | nil => rfl
    | cons c cs ih =>
      obtain ⟨hc, hcs⟩ := forall_mem_cons.mp hcs
      have hblank : c ≠ ' ' := by
        rintro rfl
        exact absurd hc (by decide)
      have hparen : c ≠ '(' := by
        rintro rfl
        exact absurd hc (by decide)
      rw [cons_append, cutFrom_zero hblank, if_neg hparen, ih hcs]
      rfl
  have hsplit : (f ++ "(" ++ inner ++ ")").toList ++ rest =
      f.toList ++ ('(' :: (inner.toList ++ ')' :: rest)) := by simp
  rw [hsplit, hname _ hf, hopen]
  simp

/-! ## Expressions -/

/-- Is the expression a call, or does it stand in parentheses? -/
def Mql.Expr.isPrimary : Expr → Bool
  | .call _ _ | .group _ => true
  | _ => false

section Expressions

variable {σ : Scope}

/-- Text that is put together opens and closes as many parentheses as its parts. -/
theorem nested_composes : Composes fun s => Nested s.toList where
  append := Nested.text
  quiet h := .of_plain (all_eq_true.mpr fun c hc => by
    have hquiet := h c hc
    simp [isQuiet] at hquiet
    simp [isPlainChar, hquiet])
  slash := .of_plain (by decide)
  round h := by simpa using h.parens
  square h := by
    have hopen : Nested ['['] := .of_plain rfl
    simpa using (hopen.append h).append (.of_plain (by rfl : [']'].all isPlainChar = true))

theorem Mql.Expr.isPrimary_text {e : Expr} (h : e.Closed σ) (hq : e.isQuoteless = true)
    (hp : e.isPrimary = true) : IsPrimary e.text := by
  cases e with
  | call f args =>
    have hword := h.1.1.1
    rw [isWord, Bool.and_eq_true, all_eq_true] at hword
    exact ⟨f.text, _, rfl, hword.2, nested_composes.intercalate (by decide)
      (Expr.texts_composed (q := false) nested_composes (absurd · Bool.false_ne_true) args h.2 hq)⟩
  | group e =>
    exact ⟨"", e.text, rfl, by simp,
      e.composed (q := false) nested_composes (absurd · Bool.false_ne_true) h hq⟩
  | _ => cases hp

end Expressions

/-! ## Joined texts -/

def ConditionMode.sign : ConditionMode → String
  | .all => " && "
  | .any => " || "

/-- Parts as one conjunction, or as one disjunction. -/
def ConditionMode.rows (ps : List String) : ConditionMode → List (List String)
  | .all => [ps]
  | .any => ps.map fun p => [p]

/-- The text gives parts back when it is cut: between them stands the sign of a mode and no other,
so that it is one conjunction or one disjunction of them, and each is a call or stands in
parentheses. -/
structure SplitsInto (mode : ConditionMode) (ps : List String) (s : String) : Prop where
  parts : topParts s = ps
  signs : ∀ sign ∈ topSigns s, sign = mode
  rows : disjuncts s = mode.rows ps
  primary : ∀ p ∈ ps, IsPrimary p

/-- The text gives the conditions back when it is cut; for none it says that they do not hold. -/
def ReadsAs (mode : ConditionMode) (es : List Expr) (s : String) : Prop :=
  (es = [] → s = "false") ∧ (es ≠ [] → SplitsInto mode (es.map Expr.text) s)

theorem cutFrom_sign (mode : ConditionMode) (cs : List Char) :
    cutFrom 0 (mode.sign.toList ++ cs) = ([], (mode, (cutFrom 0 cs).1) :: (cutFrom 0 cs).2) := by
  cases mode
  · show cutFrom 0 (' ' :: '&' :: '&' :: ' ' :: cs) = _
    rw [cutFrom]
  · show cutFrom 0 (' ' :: '|' :: '|' :: ' ' :: cs) = _
    rw [cutFrom]

theorem cutFrom_intercalate (mode : ConditionMode) : ∀ (s : String) (ss : List String),
    (∀ t ∈ s :: ss, Sealed t.toList) →
      cutFrom 0 (mode.sign.intercalate (s :: ss)).toList =
        (s.toList, ss.map fun t => (mode, t.toList))
  | s, [], h => by
    have hs := h s mem_cons_self []
    rw [String.intercalate_singleton]
    simpa [cutFrom] using hs
  | s, t :: ss, h => by
    obtain ⟨hs, hrest⟩ := forall_mem_cons.mp h
    rw [String.intercalate_cons_cons, String.toList_append, String.toList_append, append_assoc,
      hs, cutFrom_sign, cutFrom_intercalate mode t ss hrest]
    simp

theorem rowsFrom_all (s : String) (ss : List String) :
    rowsFrom s.toList (ss.map fun t => (.all, t.toList)) = [s :: ss] := by
  induction ss generalizing s with
  | nil => simp [rowsFrom]
  | cons t ss ih => simp [rowsFrom, ih]

theorem rowsFrom_any (s : String) (ss : List String) :
    rowsFrom s.toList (ss.map fun t => (.any, t.toList)) = (s :: ss).map fun p => [p] := by
  induction ss generalizing s with
  | nil => simp [rowsFrom]
  | cons t ss ih => simp [rowsFrom, ih]

theorem splitsInto_intercalate {ps : List String} (hne : ps ≠ [])
    (hps : ∀ p ∈ ps, IsPrimary p) : SplitsInto mode ps (mode.sign.intercalate ps) := by
  obtain ⟨s, ss, rfl⟩ := exists_cons_of_ne_nil hne
  have hcut := cutFrom_intercalate mode s ss fun p hp => (hps p hp).sealed
  refine ⟨?_, ?_, ?_, hps⟩
  · rw [topParts, hcut, map_map]
    simp [Function.comp_def]
  · rw [topSigns, hcut]
    simp
  · rw [disjuncts, hcut]
    cases mode
    · exact rowsFrom_all s ss
    · exact rowsFrom_any s ss

theorem Mql.Expr.texts_eq_map : ∀ es : List Expr, Expr.texts es = es.map Expr.text
  | [] => rfl
  | e :: es => by rw [Expr.texts, map_cons, Expr.texts_eq_map es]

theorem readsAs_joined {es : List Expr}
    (h : ∀ e ∈ es, IsPrimary e.text) : ReadsAs mode es (joined mode es).text := by
  refine ⟨fun hnil => ?_, fun hne => ?_⟩
  · subst hnil
    rfl
  · have htext : (joined mode es).text = mode.sign.intercalate (es.map Expr.text) := by
      unfold joined
      rw [← Expr.texts_eq_map, if_neg (by simpa using hne)]
      cases mode <;> rfl
    rw [htext]
    exact splitsInto_intercalate (by simpa using hne) (by simpa using h)

/-! ## Contributed conditions -/

/-- Is the expression a call or in parentheses, without text in quotes? -/
def Mql.Expr.isPart (e : Expr) : Bool :=
  e.isQuoteless && e.isPrimary

/-- All conditions are calls or in parentheses. -/
def Conditions.IsParts (c : Conditions) : Prop :=
  ∀ side, (c.of side).all Expr.isPart = true

theorem Conditions.isParts_append {d : Conditions} (hc : c.IsParts) (hd : d.IsParts) :
    (c ++ d).IsParts := by
  intro side
  have hof : (c ++ d).of side = c.of side ++ d.of side := by cases side <;> rfl
  rw [hof, all_append, hc, hd]
  rfl

theorem Conditions.isParts_empty : ({} : Conditions).IsParts := by
  intro side
  cases side <;> rfl

theorem ownConditions_isParts (i : ℕ) (signal : Signal) (indicator : Indicator) (limit : Ident) :
    (ownConditions i signal indicator limit).IsParts := by
  intro side
  cases hrole : signal.filterRole with
  | some role =>
    simp only [ownConditions, hrole]
    cases role <;> cases side <;> rfl
  | none =>
    cases indicator with
    | movingAverage p =>
      simp only [ownConditions, hrole]
      split <;> cases side <;> rfl
    | _ =>
      simp only [ownConditions, hrole]
      cases side <;> rfl

theorem crossoverConditions_isParts (fast slow : ℕ) (signal : Signal) (limit : Ident) :
    (crossoverConditions fast slow signal limit).IsParts := by
  intro side
  by_cases hapart : 0.0 < signal.minEmaSeparation
  · simp only [crossoverConditions, if_pos hapart]
    cases side <;> rfl
  · simp only [crossoverConditions, if_neg hapart]
    cases side <;> rfl

theorem PriceAction.conditions_isParts (action : PriceAction) (i : ℕ) :
    (action.conditions i).IsParts := by
  intro side
  cases action <;> cases side <;> rfl

theorem Indicator.reversal_isParts (indicator : Indicator) (i : ℕ) (signal : Signal) :
    (indicator.reversal i signal).IsParts := by
  intro side
  cases indicator <;> cases side <;> rfl

theorem PriceAction.reversal_isParts (action : PriceAction) (i : ℕ) :
    (action.reversal i).IsParts := by
  intro side
  cases action with
  | rangeBreakout p =>
    cases side
    · show (if p.breakoutDirection = .buyOnHigh then [] else _).all Expr.isPart = true
      split <;> rfl
    · show (if p.breakoutDirection = .sellOnLow then [] else _).all Expr.isPart = true
      split <;> rfl
  | _ => cases side <;> rfl

theorem exists_of_forall₂ {α β : Type} {R : α → β → Prop} {as : List α} {bs : List β}
    (h : Forall₂ R as bs) {b : β} (hb : b ∈ bs) : ∃ a ∈ as, R a b := by
  induction h with
  | nil => cases hb
  | cons hab _ ih =>
    rcases mem_cons.mp hb with rfl | hb
    · exact ⟨_, mem_cons_self, hab⟩
    · obtain ⟨a, ha, hab⟩ := ih hb
      exact ⟨a, mem_cons_of_mem _ ha, hab⟩

theorem Conditions.isParts_ofPairs (h : ∀ pair ∈ pairs, (Conditions.ofPairs [pair]).IsParts) :
    (Conditions.ofPairs pairs).IsParts := by
  intro side
  rw [all_eq_true]
  intro e he
  cases side
  · obtain ⟨pair, hpair, rfl⟩ := mem_map.mp he
    simpa [Conditions.of, Conditions.ofPairs] using h pair hpair .buy
  · obtain ⟨pair, hpair, rfl⟩ := mem_map.mp he
    simpa [Conditions.of, Conditions.ofPairs] using h pair hpair .sell

theorem isParts_of_gives {cs : List Contributor}
    (h : Forall₂ (Contributor.Gives entries) cs pairs) :
    (Conditions.ofPairs pairs).IsParts := by
  refine Conditions.isParts_ofPairs fun pair hpair => ?_
  obtain ⟨c, -, hgives⟩ := exists_of_forall₂ h hpair
  cases c with
  | single i =>
    obtain ⟨n, signal, indicator, limit, -, hown⟩ := hgives
    exact hown ▸ ownConditions_isParts i signal indicator limit
  | crossover fast slow =>
    obtain ⟨n, signal, indicator, limit, -, hboth⟩ := hgives
    exact hboth ▸ crossoverConditions_isParts fast slow signal limit

theorem isParts_of_actionGives {nodes : List (Node × ℕ)}
    (h : Forall₂ ActionGives nodes pairs) : (Conditions.ofPairs pairs).IsParts := by
  refine Conditions.isParts_ofPairs fun pair hpair => ?_
  obtain ⟨x, -, timeframe, action, -, hgives⟩ := exists_of_forall₂ h hpair
  exact hgives ▸ action.conditions_isParts x.2

theorem exitSignal_isParts {id : String} (h : exitSignal indicators priceAction id = .ok c) :
    c.IsParts := by
  rw [exitSignal] at h
  split at h
  · split at h
    · cases h
      exact Indicator.reversal_isParts _ _ _
    · cases h
  · split at h
    · cases h
      exact Conditions.isParts_empty
    · split at h
      · cases h
        exact Conditions.isParts_empty
      · split at h
        · cases h
          exact PriceAction.reversal_isParts _ _
        · cases h

theorem exitSignals_isParts :
    ∀ {ids : List String} {c : Conditions}, exitSignals indicators priceAction ids = .ok c →
      c.IsParts
  | [], c, h => by
    cases h
    exact Conditions.isParts_empty
  | id :: ids, c, h => by
    rw [exitSignals] at h
    obtain ⟨first, rest, hfirst, hrest, rfl⟩ := of_bind₂_eq_ok h
    exact Conditions.isParts_append (exitSignal_isParts hfirst) (exitSignals_isParts hrest)

theorem Conditions.Closed.readsAs {σ : Scope} (hclosed : c.Closed σ) (hparts : c.IsParts)
    (mode : ConditionMode) (side : Side) :
    ReadsAs mode (c.of side) (joined mode (c.of side)).text := by
  refine readsAs_joined fun e he => ?_
  have hes : Expr.AllClosed σ (c.of side) := by
    cases side
    · exact hclosed.1
    · exact hclosed.2
  obtain ⟨hq, hp⟩ := Bool.and_eq_true_iff.mp (all_eq_true.mp (hparts side) e he)
  exact Expr.isPrimary_text (Expr.allClosed_iff.mp hes e he) hq hp

section Lists

variable {indicators priceAction : List Node}

theorem Mql.Scope.all_serves_signals (indicators priceAction : List Node) :
    Scope.all.Serves ⟨[], [], indicators, priceAction, [], [], [], [], [], [], []⟩ :=
  Scope.all_serves _

theorem readsAs_allConditions {own actions : List (Expr × Expr)} {cs : List Contributor}
    (h : allConditions indicators priceAction program = (inputs, .ok (.ofPairs (own ++ actions))))
    (hown : Forall₂ (Contributor.Gives entries) cs own)
    (hactions : Forall₂ ActionGives priceAction.zipIdx actions) (mode : ConditionMode)
    (side : Side) :
    ReadsAs mode ((Conditions.ofPairs (own ++ actions)).of side)
      (joined mode ((Conditions.ofPairs (own ++ actions)).of side)).text := by
  have hserves := Scope.all_serves_signals indicators priceAction
  have hclosed : (Conditions.ofPairs (own ++ actions)).Closed Scope.all :=
    allConditions_closed hserves.compares hserves.signals hserves.actions h fun _ _ => trivial
  have hparts : (Conditions.ofPairs (own ++ actions)).IsParts := by
    rw [Conditions.ofPairs_append]
    exact Conditions.isParts_append (isParts_of_gives hown) (isParts_of_actionGives hactions)
  exact hclosed.readsAs hparts mode side

theorem readsAs_exitSignals {ids : List String}
    (h : exitSignals indicators priceAction ids = .ok c) (side : Side) :
    ReadsAs .any (c.of side) (joined .any (c.of side)).text := by
  have hserves := Scope.all_serves_signals indicators priceAction
  have hclosed : c.Closed Scope.all :=
    exitSignals_closed hserves.compares hserves.indicators hserves.actions h
  exact hclosed.readsAs (exitSignals_isParts h) .any side

end Lists

/-! ## Declared conditions -/

/-- Statements declare a truth value once, on a line of its own, with a text as its value. -/
structure DeclaresAs (ss : List Stmt) (x : Ident) (s : String) : Prop where
  once : ∃ e, Stmt.valuesOf x ss = [e] ∧ e.text = s
  line : ∃ pad, String.ofList (List.replicate pad ' ') ++ ("bool " ++ x.text ++ " = " ++ s ++ ";") ∈
    Stmt.block ss

/-- What an entry declares: the conditions of the sides, whether it is the first of its bar, and
whether a limit of the day is hit. -/
def entryFlags (ctx : Context) (orders : Orders) (c : Conditions) : List (Ident × Expr) :=
  let isFirst : Expr := .group ((Expr.var "currentBarTime").ne "lastEntryBar")
  let ofBar : List (Ident × Expr) := [("newBar", isFirst)]
  let ofDay : List (Ident × Expr) := [("dailyLimitHit", false)]
  (orders.sides.map fun side =>
    (conditionVar side, joined ctx.settings.conditionMode (c.of side))) ++ ofBar ++
    (if ctx.settings.limitsResult then ofDay else [])

theorem entryOpening_flags (ctx : Context) (orders : Orders) (pairs : List (Expr × Expr)) :
    Stmt.allFlags (entryOpening ctx orders (.ofPairs pairs)).tick =
      entryFlags ctx orders (.ofPairs pairs) := by
  have hcounter : Stmt.allFlags
    (if ctx.settings.limitsTrades then dailyCounter else {}).tick = [] := by
    split <;> rfl
  have hsides : Stmt.allFlags (orders.sides.map fun side => .declare "bool" (conditionVar side)
      (joined ctx.settings.conditionMode ((Conditions.ofPairs pairs).of side))) =
      orders.sides.map fun side => (conditionVar side,
        joined ctx.settings.conditionMode ((Conditions.ofPairs pairs).of side)) := by
    obtain ⟨buy, sell⟩ := orders
    cases buy <;> cases sell <;> rfl
  simp only [entryOpening, Program.append_tick, Stmt.allFlags_append,
    conditionStmts_ofPairs, hcounter, hsides, entryFlags, append_nil]
  congr 1
  split
  · simp only [dailyLimits, Stmt.allFlags_append]
    split <;> split <;> rfl
  · rfl

theorem sideBlocks_flags (ctx : Context) (program : Program) : ∀ sizes : List (Side × Sizing),
    Stmt.allFlags (sizes.map fun (side, s) => sideBlock ctx program side s) = []
  | [] => rfl
  | (side, s) :: sizes => by
    have hside : (sideBlock ctx program side s).flags = [] := by
      rw [sideBlock, afterOrder]
      split <;> rfl
    rw [map_cons, Stmt.allFlags, hside, sideBlocks_flags ctx program sizes]
    rfl

theorem entryOrders_flags (ctx : Context) (program : Program) (inputs : List Input)
    (sizes : List (Side × Sizing)) (priceAction : List Node) :
    Stmt.allFlags (entryOrders ctx program inputs sizes priceAction).code.tick = [] := by
  have hexecute : (executeBlock ctx program sizes).flags = [] := by
    rw [executeBlock, Stmt.flags, Stmt.allFlags_append, sideBlocks_flags]
    split <;> rfl
  simp only [entryOrders, Program.append_tick, Stmt.allFlags_append]
  split <;> split <;> simp [Stmt.allFlags, Stmt.flags, pendingNeeds, hexecute]

/-- An entry begins with its conditions, and declares nothing after them. -/
theorem emitEntry_tick
    (h : allConditions indicators priceAction program = (inputs, .ok (.ofPairs pairs)))
    (horders : orders.sides ≠ []) (ctx : Context) :
    ∃ rest, (emitEntry indicators priceAction orders ctx program).code.tick =
      (entryOpening ctx orders (.ofPairs pairs)).tick ++ rest ∧ Stmt.allFlags rest = [] := by
  have hsome : (orders.buy.isNone && orders.sell.isNone) = false := by
    obtain ⟨buy, sell⟩ := orders
    cases buy <;> cases sell <;> first | rfl | exact absurd rfl horders
  simp only [emitEntry, hsome, h]
  cases orderSizes orders with
  | error f => exact ⟨[], (append_nil _).symm, rfl⟩
  | ok sizes =>
    exact ⟨(entryOrders ctx program inputs sizes priceAction).code.tick, rfl,
      entryOrders_flags ctx program inputs sizes priceAction⟩

theorem values_of_side {name : Side → Ident} (hne : (name .buy).text ≠ (name .sell).text)
    (value : Side → Expr) {sides : List Side} (hnodup : sides.Nodup) (hside : side ∈ sides) :
    (sides.map fun s => (name s, value s)).filterMap
      (fun (y, e) => if y.text = (name side).text then some e else none) = [value side] := by
  have hname : ∀ s, (name s).text = (name side).text ↔ s = side := by
    intro s
    cases s <;> cases side <;> simp [hne, hne.symm]
  induction sides with
  | nil => cases hside
  | cons s sides ih =>
    obtain ⟨hs, hnodup⟩ := nodup_cons.mp hnodup
    rcases mem_cons.mp hside with rfl | hside
    · have hrest : ∀ t ∈ sides, t ≠ side := fun t ht heq => hs (heq ▸ ht)
      simpa [hname, filterMap_map, Function.comp_def] using hrest
    · have hfirst : s ≠ side := fun heq => hs (heq ▸ hside)
      simpa [hname, hfirst] using ih hnodup hside

theorem lines_declare (x : Ident) (e : Expr) :
    (Stmt.declare "bool" x e).lines = ["bool " ++ x.text ++ " = " ++ e.text ++ ";"] := by
  simp [Stmt.declare, Stmt.lines, Action.text]

theorem declaresAs_emitEntry
    (h : allConditions indicators priceAction program = (inputs, .ok (.ofPairs pairs)))
    (hside : side ∈ orders.sides) (ctx : Context) :
    DeclaresAs (emitEntry indicators priceAction orders ctx program).code.tick (conditionVar side)
      (joined ctx.settings.conditionMode ((Conditions.ofPairs pairs).of side)).text := by
  obtain ⟨rest, htick, hrest⟩ := emitEntry_tick h (ne_nil_of_mem hside) ctx
  rw [htick]
  refine ⟨⟨_, ?_, rfl⟩, 0, ?_⟩
  · have hnodup : orders.sides.Nodup := by
      obtain ⟨buy, sell⟩ := orders
      cases buy <;> cases sell <;> simp [Orders.sides]
    have hne : (conditionVar .buy).text ≠ (conditionVar .sell).text := by decide
    have hbar : ("newBar" : Ident).text ≠ (conditionVar side).text := by cases side <;> decide
    have hday : ("dailyLimitHit" : Ident).text ≠ (conditionVar side).text := by
      cases side <;> decide
    rw [Stmt.valuesOf, Stmt.allFlags_append, hrest, append_nil, entryOpening_flags]
    simp only [entryFlags, filterMap_append, values_of_side hne _ hnodup hside]
    split <;> simp [hbar, hday]
  · refine Stmt.mem_block (mem_append_left _ ?_) (lines_declare _ _ ▸ mem_singleton_self _)
    simp only [entryOpening, Program.append_tick, conditionStmts_ofPairs, mem_append]
    exact .inl (.inl (.inl (.inr (mem_map_of_mem hside))))

def closeCondition (i : ℕ) (side : Side) : Ident :=
  exitName ("close" ++ side.label ++ "Condition") i

theorem closeCondition_ne (i : ℕ) :
    (closeCondition i .buy).text ≠ (closeCondition i .sell).text := by
  intro h
  have hstem : "close" ++ Side.buy.label ++ "Condition" =
      "close" ++ Side.sell.label ++ "Condition" := by
    simpa [closeCondition, exitName, Ident.text] using h
  exact absurd hstem (by decide)

theorem closeSides_flags (i : ℕ) (c : Conditions) : ∀ sides : List Side,
    Stmt.allFlags (sides.flatMap fun s => closeSide i s (c.of s)) =
      sides.map fun s => (closeCondition i s, joined .any (c.of s))
  | [] => rfl
  | side :: sides => by
    rw [flatMap_cons, Stmt.allFlags_append, closeSides_flags i c sides]
    rfl

theorem closeCode_flags (i : ℕ) (sides : List Side) (c : Conditions) :
    Stmt.allFlags (closeCode i sides c).tick =
      sides.map fun s => (closeCondition i s, joined .any (c.of s)) := by
  rw [← closeSides_flags]
  exact append_nil _

theorem declaresAs_closeCode (i : ℕ) {direction : Direction} (hside : side ∈ direction.sides)
    (c : Conditions) :
    DeclaresAs (closeCode i direction.sides c).tick (closeCondition i side)
      (joined .any (c.of side)).text := by
  refine ⟨⟨_, ?_, rfl⟩, 3, ?_⟩
  · have hnodup : direction.sides.Nodup := by cases direction <;> decide
    rw [Stmt.valuesOf, closeCode_flags]
    exact values_of_side (closeCondition_ne i) _ hnodup hside
  · have hline : String.ofList (List.replicate 3 ' ') ++
        ("bool " ++ (closeCondition i side).text ++ " = " ++
        (joined .any (c.of side)).text ++ ";") ∈
          sideLines i c side := by
      simp [sideLines, closeCondition, ← String.append_assoc]
    rw [closeCode_lines]
    exact mem_append_left _ (mem_append_right _ (mem_flatMap.mpr ⟨side, hside, hline⟩))

/-- **Joined conditions give their parts back.** In an entry, whatever its nodes are, the condition
of each side that has an order is declared once; cut at the signs outside of parentheses, its text
gives the contributed conditions, in order, and only the sign of the mode. So it is their
conjunction, or their disjunction, and `false` if there are none. The same holds of the conditions
of an exit, which are always joined as a disjunction; it declares nothing if no joined node has a
signal. -/
theorem conditions_split {indicators priceAction : List Node}
    (hindicators : ∀ n ∈ indicators, n.data.payload.role? = some .indicator)
    (hactions : ∀ n ∈ priceAction, n.data.payload.role? = some .priceAction) :
    (∀ orders ctx program, ∃ inputs c,
      allConditions indicators priceAction program = (inputs, .ok c) ∧
      ∀ side ∈ orders.sides, ∃ s,
        DeclaresAs (emitEntry indicators priceAction orders ctx program).code.tick
          (conditionVar side) s ∧
        ReadsAs ctx.settings.conditionMode (c.of side) s) ∧
    ∀ n i edges direction, n.data.payload = .trading (.closeCondition direction) → ∃ c,
      exitSignals indicators priceAction (neighbours n.id edges) = .ok c ∧
      (c.buys = [] ∧ c.sells = [] →
        Stmt.allFlags (emitCloseCondition n i indicators priceAction edges).code.tick = []) ∧
      (¬ (c.buys = [] ∧ c.sells = []) → ∀ side ∈ direction.sides, ∃ s,
        DeclaresAs (emitCloseCondition n i indicators priceAction edges).code.tick
          (closeCondition i side) s ∧
        ReadsAs .any (c.of side) s) := by
  refine ⟨fun orders ctx program => ?_, fun n i edges direction hn => ?_⟩
  · obtain ⟨inputs, own, actions, hall, hown, hact⟩ :=
      allConditions_gives hindicators hactions program
    refine ⟨inputs, _, hall, fun side hside => ⟨_, declaresAs_emitEntry hall hside ctx, ?_⟩⟩
    exact readsAs_allConditions hall hown hact _ side
  · obtain ⟨c, hc⟩ := exitSignals_ok hindicators hactions (neighbours n.id edges)
    refine ⟨c, hc, fun hnone => ?_, fun hsome side hside => ⟨_, ?_, readsAs_exitSignals hc side⟩⟩
    · simp only [emitCloseCondition, hn, hc, hnone.1, hnone.2]
      rfl
    · have hcode : (c.buys.isEmpty && c.sells.isEmpty) = false := by simpa using hsome
      simp only [emitCloseCondition, hn, hc, hcode]
      exact declaresAs_closeCode i hside c

/-- A breakout from a range, under an id of its own. -/
def rangeNode : Node :=
  { dataNode (.priceAction none (.rangeBreakout default)) with id := "range" }

/-- A close condition of both sides. -/
def closingNode : Node :=
  { dataNode (.trading (.closeCondition .both)) with id := "close" }

/-- Five conditions of an entry that are joined as a disjunction, and two of the second exit. -/
theorem conditions_split_crossing :
    (∀ n ∈ crossingNodes, n.data.payload.role? = some .indicator) ∧
      (∀ n ∈ [rangeNode], n.data.payload.role? = some .priceAction) ∧
      (∃ s, DeclaresAs (emitEntry crossingNodes [rangeNode] ⟨some (orderNode .buy), none⟩
          { projectName := "Test", settings := { conditionMode := .any } } {}).code.tick
          (conditionVar .buy) s ∧
        (topParts s).length = 5 ∧ ∀ sign ∈ topSigns s, sign = .any) ∧
      ∃ s, DeclaresAs (emitCloseCondition closingNode 1 crossingNodes [rangeNode]
          [⟨"a", "n", "close"⟩, ⟨"b", "close", "range"⟩]).code.tick (closeCondition 1 .sell) s ∧
        (topParts s).length = 2 := by
  have hindicators : ∀ n ∈ crossingNodes, n.data.payload.role? = some .indicator := by decide
  have hactions : ∀ n ∈ [rangeNode], n.data.payload.role? = some .priceAction := by decide
  obtain ⟨hentry, hexit⟩ := conditions_split hindicators hactions
  refine ⟨hindicators, hactions, ?_, ?_⟩
  · obtain ⟨inputs, c, hall, hsides⟩ := hentry ⟨some (orderNode .buy), none⟩
      { projectName := "Test", settings := { conditionMode := .any } } {}
    obtain ⟨s, hdeclares, -, hreads⟩ := hsides .buy (by decide)
    have hlength : c.buys.length = 5 := by
      have hcount : (allConditions crossingNodes [rangeNode] {}).2.toOption.map
          (fun c => c.buys.length) = some 5 := by decide +kernel
      rw [hall] at hcount
      exact Option.some.inj hcount
    have hsplits := hreads (ne_nil_of_length_pos (by rw [Conditions.of, hlength]; decide))
    refine ⟨s, hdeclares, ?_, hsplits.signs⟩
    rw [hsplits.parts, length_map]
    exact hlength
  · obtain ⟨c, hc, -, hsides⟩ := hexit closingNode 1 [⟨"a", "n", "close"⟩, ⟨"b", "close", "range"⟩]
      .both rfl
    have hlength : c.sells.length = 2 := by
      have hcount : (exitSignals crossingNodes [rangeNode] (neighbours closingNode.id
          [⟨"a", "n", "close"⟩, ⟨"b", "close", "range"⟩])).toOption.map
          (fun c => c.sells.length) = some 2 := by decide +kernel
      rw [hc] at hcount
      exact Option.some.inj hcount
    have hne : c.sells ≠ [] := ne_nil_of_length_pos (by rw [hlength]; decide)
    obtain ⟨s, hdeclares, -, hreads⟩ := hsides (fun h => hne h.2) .sell (by decide)
    refine ⟨s, hdeclares, ?_⟩
    rw [(hreads hne).parts, length_map]
    exact hlength

end TradeGraph

import TradeGraph.Proofs.Refresh

/-!
# Handles of indicators

A program creates an indicator by assigning the result of a call to a handle, which is declared at
the outer level and released at the end. What is created, declared and released is read from the
text; the three are the same, because every step of a compile that creates a handle also declares
and releases it.
-/

namespace TradeGraph

open List Mql Mql.Platform

variable {f x : Ident} {arguments : List Expr} {p q : Program} {what : String}
variable {ts : List Token} {stem project : String} {options : Options} {c : Compiled}

/-! ## Handles in the text -/

def declaredHandle? (line : String) : Option String :=
  (declaredName? line).filter isHandleName

/-- The handle and the function, if the tokens begin with the creation of an indicator. -/
def creation? : List Token → Option (String × String)
  | .name handle :: .mark '=' :: .call f :: _ =>
    if f ∈ creators then some (handle, f) else none
  | _ => none

/-- The handles that a line assigns a new indicator to, each with the function that creates it. -/
def creations (line : String) : List (String × String) :=
  (tokens line).tails.filterMap creation?

/-- The handle, if the tokens begin with its release. -/
def release? : List Token → Option String
  | .call f :: .mark '(' :: .name handle :: .mark ')' :: _ =>
    if f = "IndicatorRelease" then some handle else none
  | _ => none

/-- The handles that a line releases. -/
def releases (line : String) : List String :=
  (tokens line).tails.filterMap release?

namespace Program

def createdHandles (p : Program) : List String :=
  (p.initLines.flatMap creations).map Prod.fst

def declaredHandles (p : Program) : List String :=
  p.globals.filterMap fun g => declaredHandle? g.text

def releasedHandles (p : Program) : List String :=
  p.deinitLines.flatMap releases

end Program

/-! ## Lines that create and release -/

/-- The scope of code that creates no indicator. -/
def Mql.Scope.settled : Scope :=
  { Scope.all with reserved := {w | w ∉ creators} }

theorem Mql.Scope.return_mem_settled : "return" ∈ Scope.settled.reserved :=
  show "return" ∉ creators by decide

theorem notMem_creators {w : String} (h : Scope.settled.Knows w) : w ∉ creators := by
  have hreserved : ∀ f ∈ creators, f ∈ reservedWords := by decide
  exact fun hw => h.2.2 (hreserved w hw) hw

theorem creations_cons (t : Token) (ts : List Token) :
    (t :: ts).tails.filterMap creation? =
      (creation? (t :: ts)).toList ++ ts.tails.filterMap creation? := by
  rw [tails_cons, filterMap_cons]
  cases creation? (t :: ts) <;> rfl

theorem creations_of_fine (h : ∀ t ∈ ts, Scope.settled.Fine t) :
    ts.tails.filterMap creation? = [] := by
  refine filterMap_eq_nil_iff.mpr fun us hus => ?_
  rw [mem_tails] at hus
  unfold creation?
  split
  · rename_i handle f rest
    exact if_neg (notMem_creators (h (.call f) (hus.subset (by simp))).1)
  · rfl

theorem calls_of_settled (h : ∀ t ∈ ts, Scope.settled.Fine t) :
    (ts.filterMap Token.call?).filter (· ∈ creators) = [] :=
  Scope.calls_of_fine h fun _ hf => notMem_creators hf.1

/-- A handle is assigned a call, and then come its arguments. -/
theorem tokens_assign_call (hx : isWord x.text = true) (hf : isWord f.text = true)
    (hclosed : Expr.AllClosed Scope.settled arguments) :
    ∃ ts, (∀ t ∈ ts, Scope.settled.Fine t) ∧
      tokens ((Action.assign (.name x) (.call f arguments)).text ++ ";") =
        .name x.text :: .mark '=' :: .call f.text :: .mark '(' :: ts := by
  have hprints := Scope.settled.inner_prints
  have hreads : Reads Scope.settled.Inner (", ".intercalate (Expr.texts arguments) ++ ")" ++ ";") :=
    ((Reads.joined hprints ", " (Expr.texts_reads arguments hclosed) (by decide)).before hprints ")"
      (by decide)).before hprints ";" (by decide)
  obtain ⟨ts, hts, hrun⟩ := hreads
  refine ⟨ts, hts.permits.fine, ?_⟩
  have hsplit : ((Action.assign (.name x) (.call f arguments)).text ++ ";").toList =
      x.text.toList ++ ' ' :: '=' :: ' ' :: (f.text.toList ++ '(' ::
        ((", ".intercalate (Expr.texts arguments) ++ ")" ++ ";").toList ++ [])) := by
    simp [Action.text, Expr.text]
  have hequals (cs : List Char) : tokensFrom .start (' ' :: '=' :: ' ' :: cs) =
      .mark '=' :: tokensFrom .start cs := rfl
  rw [tokens, hsplit, tokensFrom_name hx (apart_blank _), hequals, tokensFrom_call hf,
    hrun [] trivial]
  simp [tokensFrom, Mode.finish]

/-- A line that assigns a new indicator creates that one and no other. -/
theorem creations_assign (hx : isWord x.text = true) (hf : f.text ∈ creators)
    (hclosed : Expr.AllClosed Scope.settled arguments) :
    creations ((Action.assign (.name x) (.call f arguments)).text ++ ";") = [(x.text, f.text)] ∧
      (calls ((Action.assign (.name x) (.call f arguments)).text ++ ";")).filter (· ∈ creators) =
        [f.text] := by
  have hwords : ∀ f ∈ creators, isWord f = true := by decide
  obtain ⟨ts, hts, htokens⟩ := tokens_assign_call hx (hwords _ hf) hclosed
  constructor
  · have hfirst : creation? (.name x.text :: .mark '=' :: .call f.text :: .mark '(' :: ts) =
        some (x.text, f.text) := if_pos hf
    have hsecond (us : List Token) : creation? (.mark '=' :: us) = none := rfl
    have hthird (us : List Token) : creation? (.call f.text :: us) = none := rfl
    have hfourth (us : List Token) : creation? (.mark '(' :: us) = none := rfl
    rw [creations, htokens, creations_cons, hfirst, creations_cons, hsecond, creations_cons, hthird,
      creations_cons, hfourth, creations_of_fine hts]
    rfl
  · have hcalls : calls ((Action.assign (.name x) (.call f arguments)).text ++ ";") =
        f.text :: ts.filterMap Token.call? := by
      rw [calls, htokens]
      rfl
    rw [hcalls, filter_cons_of_pos (by simpa using hf), calls_of_settled hts]

theorem releases_run (hx : isWord x.text = true) :
    releases ((Action.run (.call "IndicatorRelease" [.name x])).text ++ ";") = [x.text] := by
  have hsplit : ((Action.run (.call "IndicatorRelease" [.name x])).text ++ ";").toList =
      "IndicatorRelease".toList ++ '(' :: (x.text.toList ++ [')', ';']) := by
    simp [Action.text, Expr.text, Expr.texts, Scope.text_plain]
  rw [releases, tokens, hsplit, tokensFrom_call (by decide),
    tokensFrom_name hx (show Apart (')' :: _) from ⟨rfl, by decide⟩)]
  rfl

theorem releases_guard (hx : isWord x.text = true) :
    releases (ifHead ((Expr.name x).ne invalidHandle) ++ " " ++
      (Action.run (.call "IndicatorRelease" [.name x])).text ++ ";") = [x.text] := by
  have hsplit : (ifHead ((Expr.name x).ne invalidHandle) ++ " " ++
      (Action.run (.call "IndicatorRelease" [.name x])).text ++ ";").toList =
        "if".toList ++ '(' :: (x.text.toList ++ ' ' :: ("!= INVALID_HANDLE) ".toList ++
          ("IndicatorRelease".toList ++ '(' :: (x.text.toList ++ [')', ';'])))) := by
    simp [ifHead, Action.text, Expr.text, Expr.texts, Expr.ne, BinaryOp.sign, invalidHandle,
      Scope.text_plain]
  have htest (cs : List Char) : tokensFrom .start (' ' :: ("!= INVALID_HANDLE) ".toList ++ cs)) =
      [.mark '!', .mark '=', .name "INVALID_HANDLE", .mark ')'] ++ tokensFrom .start cs := rfl
  rw [releases, tokens, hsplit, tokensFrom_call (by decide), tokensFrom_name hx (apart_blank _),
    htest, tokensFrom_call (by decide),
    tokensFrom_name hx (show Apart (')' :: _) from ⟨rfl, by decide⟩)]
  rfl

/-! ## Programs with their handles -/

/-- The handles of a program with the functions that create them: those that lines at the start
assign a new indicator to, in order, are those that are declared and those that are released. No
other line at the start creates an indicator. -/
structure Program.Owns (p : Program) (hs : List (String × String)) : Prop where
  created : p.initLines.flatMap creations = hs
  called : (p.initLines.flatMap calls).filter (· ∈ creators) = hs.map Prod.snd
  declared : (p.globals.map fun g => g.name.text).filter isHandleName = hs.map Prod.fst
  released : p.deinitLines.flatMap releases = hs.map Prod.fst

namespace Program.Owns

variable {p q : Program} {hs ks : List (String × String)}

theorem append (hp : p.Owns hs) (hq : q.Owns ks) : (p ++ q).Owns (hs ++ ks) where
  created := by
    rw [Program.initLines, Program.append_init, Stmt.block_append, flatMap_append]
    exact congrArg₂ _ hp.created hq.created
  called := by
    rw [Program.initLines, Program.append_init, Stmt.block_append, flatMap_append,
      filter_append, map_append]
    exact congrArg₂ _ hp.called hq.called
  declared := by
    rw [Program.append_globals, map_append, filter_append, map_append]
    exact congrArg₂ _ hp.declared hq.declared
  released := by
    rw [Program.deinitLines, Program.append_deinit, Stmt.block_append, flatMap_append,
      map_append]
    exact congrArg₂ _ hp.released hq.released

end Program.Owns

/-- A part without code at the start and the end has no handles. -/
theorem Program.Silent.owns (h : p.Silent) : p.Owns [] where
  created := by rw [Program.initLines, h.init]; rfl
  called := by rw [Program.initLines, h.init]; rfl
  declared := by
    rw [map_nil, filter_eq_nil_iff]
    intro w hw
    obtain ⟨g, hg, rfl⟩ := mem_map.mp hw
    rw [h.globals g hg]
    decide
  released := by rw [Program.deinitLines, h.deinit]; rfl

/-- One handle that is declared, created first of all at the start, and released. -/
theorem Program.Owns.of_setup {more : List Stmt} {g : Global} {gs : List Global}
    (hinit : p.init = .assign (.name x) (.call f arguments) :: more) (hx : isWord x.text = true)
    (hf : f.text ∈ creators) (harguments : Expr.AllClosed Scope.settled arguments)
    (hmore : Stmt.AllClosed Scope.settled more) (hglobals : p.globals = g :: gs)
    (hname : g.name = x) (hhandle : isHandleName x.text = true)
    (hothers : ∀ y ∈ gs, isHandleName y.name.text = false)
    (hdeinit : p.deinitLines.flatMap releases = [x.text]) : p.Owns [(x.text, f.text)] := by
  have hlines : p.initLines = ((Action.assign (.name x) (.call f arguments)).text ++ ";") ::
      Stmt.block more := by
    rw [Program.initLines, hinit]
    rfl
  obtain ⟨hcreates, hcalls⟩ := creations_assign hx hf harguments
  -- what follows the creation calls no creator, so the first line is the only one
  have hfine (l : String) (hl : l ∈ Stmt.block more) : ∀ t ∈ tokens l, Scope.settled.Fine t :=
    ((Stmt.block_stands more hmore).stands l hl).permits.fine
  have hnone : (Stmt.block more).flatMap creations = [] :=
    flatMap_eq_nil_iff.mpr fun l hl => creations_of_fine (hfine l hl)
  have huncalled : ((Stmt.block more).flatMap calls).filter (· ∈ creators) = [] := by
    rw [filter_flatMap]
    exact flatMap_eq_nil_iff.mpr fun l hl => calls_of_settled (hfine l hl)
  refine ⟨?_, ?_, ?_, hdeinit⟩
  · rw [hlines, flatMap_cons, hcreates, hnone]
    rfl
  · rw [hlines, flatMap_cons, filter_append, hcalls, huncalled]
    rfl
  · rw [hglobals, map_cons, filter_cons_of_pos (by rw [hname]; exact hhandle), hname]
    refine congrArg _ (filter_eq_nil_iff.mpr fun w hw => ?_)
    obtain ⟨y, hy, rfl⟩ := mem_map.mp hw
    rw [hothers y hy]
    decide

/-! ## Parts with a handle -/

theorem indicatorParts_owns {i : Nat} {buffers : List String} (hf : f.text ∈ creators)
    (harguments : Expr.AllClosed Scope.settled arguments)
    (hbuffers : ∀ b ∈ buffers, isTail b = true ∧ endsApart b = true) :
    (indicatorParts i what (.call f arguments) buffers).Owns [((indHandle i).text, f.text)] := by
  have hhandle : Scope.settled.Has (indHandle i) :=
    (Scope.settled.has_indVar (by decide)).mpr trivial
  have hseries : Stmt.AllClosed Scope.settled (buffers.map fun b =>
      .run (.call "ArraySetAsSeries" [indVar i b, true])) := by
    rw [Stmt.allClosed_iff]
    intro s hs
    obtain ⟨b, hb, rfl⟩ := mem_map.mp hs
    have hbuffer : Scope.settled.Has (indVar i b) :=
      (Scope.settled.has_indVar (hbuffers b hb).1).mpr trivial
    simp +decide [hbuffer]
  refine .of_setup rfl hhandle.1 hf harguments ?_ rfl rfl (isHandleName_of_tail rfl) ?_ ?_
  · simp +decide [hhandle, hseries, Scope.return_mem_settled]
  · intro y hy
    obtain ⟨b, hb, rfl⟩ := mem_map.mp hy
    exact isHandleName_of_endsApart (hbuffers b hb).2
  · rw [Program.deinitLines]
    exact (append_nil _).trans (releases_run hhandle.1)

theorem AtrNames.setup_owns {names : AtrNames} {timeframe period : Expr}
    (hhandle : Scope.settled.Has names.handle) (hbuffer : Scope.settled.Has names.buffer)
    (hname : isHandleName names.handle.text = true)
    (hother : isHandleName names.buffer.text = false)
    (htimeframe : timeframe.Closed Scope.settled) (hperiod : period.Closed Scope.settled) :
    (names.setup timeframe period what).Owns [(names.handle.text, "iATR")] := by
  refine .of_setup rfl hhandle.1 (f := "iATR") (by decide) ?_ ?_ rfl rfl hname ?_ ?_
  · simp [htimeframe, hperiod]
  · simp +decide [hhandle, hbuffer, Scope.return_mem_settled]
  · simpa using hother
  · rw [Program.deinitLines]
    exact (append_nil _).trans (releases_guard hhandle.1)

/-- The handles of the program are paired, and a number of them is of the average true range. -/
def Program.OwnsAtr (p : Program) (k : Nat) : Prop :=
  ∃ hs, p.Owns hs ∧ hs.countP (fun h => h.2 == "iATR") = k

theorem Program.OwnsAtr.append {j k : Nat} (hp : p.OwnsAtr j) (hq : q.OwnsAtr k) :
    (p ++ q).OwnsAtr (j + k) := by
  obtain ⟨hs, hp, rfl⟩ := hp
  obtain ⟨ks, hq, rfl⟩ := hq
  exact ⟨hs ++ ks, hp.append hq, countP_append⟩

theorem Program.Silent.ownsAtr (h : p.Silent) : p.OwnsAtr 0 :=
  ⟨[], h.owns, rfl⟩

theorem Program.Silent.append_ownsAtr {k : Nat} (hp : p.Silent) (hq : q.OwnsAtr k) :
    (p ++ q).OwnsAtr k :=
  Nat.zero_add k ▸ hp.ownsAtr.append hq

theorem Program.OwnsAtr.append_silent {k : Nat} (hp : p.OwnsAtr k) (hq : q.Silent) :
    (p ++ q).OwnsAtr k :=
  hp.append hq.ownsAtr

/-- Is the indicator the average true range? -/
def Indicator.isAtr : Indicator → Bool
  | .atr _ => true
  | _ => false

theorem indicatorCode_ownsAtr (n : Node) (i : Nat) (timeframe : Option String)
    (indicator : Indicator) :
    (indicatorCode n i timeframe indicator).OwnsAtr indicator.isAtr.toNat := by
  have hparts {inputs : List Input} {bars : Nat} {what f : String} {arguments : List Expr}
      {buffers : List String} (hf : f ∈ creators)
      (harguments : Expr.AllClosed Scope.settled arguments)
      (hbuffers : ∀ b ∈ buffers, isTail b = true ∧ endsApart b = true) :
      ({ inputs, bars } ++ indicatorParts i what (.call f arguments) buffers : Program).OwnsAtr
        ([f].countP (· == "iATR")) := by
    have hinputs : ({ inputs, bars } : Program).Silent := .of_nil rfl
    rw [← Scope.text_plain f] at hf
    refine ⟨_, hinputs.owns.append (indicatorParts_owns hf harguments hbuffers), ?_⟩
    rw [Scope.text_plain]
    rfl
  have hinput (x : Ident) : Scope.settled.HasInput x := trivial
  cases indicator
  all_goals exact hparts (by decide) (by simp +decide [hinput]) (by decide)

def Node.isAtrIndicator (n : Node) : Bool :=
  match n.data.payload with
  | .indicator _ indicator => indicator.isAtr
  | _ => false

theorem emitIndicator_ownsAtr (n : Node) (i : Nat) :
    (emitIndicator n i).code.OwnsAtr n.isAtrIndicator.toNat := by
  rw [emitIndicator, Node.isAtrIndicator]
  cases n.data.payload with
  | indicator signal indicator => exact indicatorCode_ownsAtr n i _ _
  | _ => exact Program.Silent.ownsAtr (.of_nil rfl)

/-! ## Parts without a handle -/

theorem emitPass_silent (program : Program) : (emitPass program).code.Silent := by
  rw [emitPass]
  split <;> exact .of_nil rfl

/-! ## Stops and targets -/

theorem stopAtr_ownsAtr :
    (stopAtr.setup (.cast "ENUM_TIMEFRAMES" "InpATRSLTimeframe") "InpATRPeriod" "SL").OwnsAtr
      1 := by
  have hinput (x : Ident) : Scope.settled.HasInput x := trivial
  exact ⟨_, AtrNames.setup_owns (by simp +decide [stopAtr]) (by simp +decide [stopAtr]) (by decide)
    (by decide) (by simp +decide [hinput]) (by simp +decide [hinput]), rfl⟩

theorem targetAtr_ownsAtr : (targetAtr.setup chart "InpTPATRPeriod" "TP").OwnsAtr 1 := by
  have hinput (x : Ident) : Scope.settled.HasInput x := trivial
  exact ⟨_, AtrNames.setup_owns (by simp +decide [targetAtr]) (by simp +decide [targetAtr])
    (by decide) (by decide) (by simp) (by simp +decide [hinput]), rfl⟩

/-- Is the node a stop or a target that is measured by the average true range? -/
def Node.isAtrDistance (n : Node) : Bool :=
  match n.data.payload with
  | .trading (.stopLoss p) => p.method == .atrBased
  | .trading (.takeProfit p) => p.method == .atrBased
  | _ => false

theorem emitStopLoss_ownsAtr {n : Node} (hrole : n.data.payload.role? = some .stopLoss)
    (indicators priceAction : List Node) (edges : List Edge) (known : List String) (ctx : Context) :
    (emitStopLoss n indicators priceAction edges known ctx).code.OwnsAtr n.isAtrDistance.toNat ∧
      (emitStopLoss n indicators priceAction edges known ctx).code.mentions "int atrHandle" =
        n.isAtrDistance := by
  obtain ⟨p, hp⟩ := Payload.of_role hrole
  obtain ⟨q, hcode, -, -, hquiet⟩ := emitStopLoss_neutral n indicators priceAction edges known ctx
  have hmentions := (emitStopLoss_mentions n indicators priceAction edges known ctx).1
  rw [hp, Payload.stopMethod?] at hmentions hquiet
  rw [hmentions, Node.isAtrDistance, hp]
  refine ⟨?_, rfl⟩
  by_cases hatr : p.method = .atrBased
  · simp only [emitStopLoss, hp, hatr]
    exact Program.Silent.append_ownsAtr (.of_nil rfl)
      (Program.Silent.append_ownsAtr (.of_nil rfl) stopAtr_ownsAtr)
  · simp only [beq_eq_false_iff_ne.mpr hatr]
    rw [hcode]
    exact (Program.Silent.append (.of_nil rfl) (hquiet (by simpa using hatr)).toSilent).ownsAtr

/-- A target has a handle of its own only if there is none of a stop that it can share. -/
theorem emitTakeProfit_ownsAtr {n : Node} (hrole : n.data.payload.role? = some .takeProfit)
    (program : Program) :
    (emitTakeProfit n program).code.OwnsAtr
      (n.isAtrDistance && !program.mentions "int atrHandle").toNat := by
  obtain ⟨p, hp⟩ := Payload.of_role hrole
  obtain ⟨q, hcode, -, -, hsilent⟩ := emitTakeProfit_neutral n program
  rw [Node.isAtrDistance, hp]
  rw [hp, Payload.targetMethod?] at hsilent
  by_cases hatr : p.method = .atrBased
  · simp only [emitTakeProfit, hp, hatr, atrTarget]
    refine Program.Silent.append_ownsAtr (.of_nil rfl) ?_
    cases program.mentions "int atrHandle" with
    | true => exact Program.Silent.ownsAtr (.of_nil rfl)
    | false => exact Program.Silent.append_ownsAtr (.of_nil rfl) targetAtr_ownsAtr
  · simp only [beq_eq_false_iff_ne.mpr hatr]
    rw [hcode]
    exact (Program.Silent.append (.of_nil rfl) (hsilent (by simpa using hatr))).ownsAtr

/-! ## Rules -/

theorem isHandleName_of_number {n : Nat} :
    isHandleName (Ident.mk stem (some n) "").text = false := by
  rw [← Bool.not_eq_true, isHandleName, isSuffixOf_iff_suffix]
  intro h
  have hlast : (Ident.mk stem (some n) "").text.toList.getLast? = some 'e' := by
    obtain ⟨cs, hcs⟩ := h
    rw [← hcs, getLast?_append]
    rfl
  have hdigits : (Ident.mk stem (some n) "").text.toList = stem.toList ++ Nat.toDigits 10 n := by
    simp [Ident.text, Nat.toString_eq_repr]
  rw [hdigits, getLast?_append_of_ne_nil _ Nat.toDigits_ne_nil] at hlast
  have hdigit := Nat.isDigit_of_mem_toDigits (b := 10) (n := n) (by decide) (by decide)
    (mem_of_getLast? hlast)
  exact absurd hdigit (by decide)

namespace Rule

theorem ruleAtr_ownsAtr {k : RuleNumber} {period : Ident} {p q r : Program}
    (hstem : isLongPlain stem "Handle" = true) (hbuffer : isLongPlain stem "Buffer" = true)
    (hperiod : Scope.settled.Has period) (hp : p.Silent) (hq : q.Silent) (hr : r.Silent) :
    (p ++ ruleAtr k stem period what ++ q ++ r).OwnsAtr 1 := by
  have hends : endsApart "Buffer" = true := by decide
  have hatr : (ruleAtr k stem period what).OwnsAtr 1 :=
    Program.OwnsAtr.append_silent ⟨_, AtrNames.setup_owns (Scope.settled.has_ruleName hstem)
      (Scope.settled.has_ruleName hbuffer) (isHandleName_of_tail rfl)
      (isHandleName_of_endsApart hends) (by simp) hperiod, rfl⟩ (.of_nil rfl)
  exact ((hp.append_ownsAtr hatr).append_silent hq).append_silent hr

theorem breakevenCode_ownsAtr (n : Node) (p : Breakeven) (program : Program) :
    (breakevenCode n p program).OwnsAtr (p.trigger == .atr).toNat := by
  simp only [breakevenCode]
  cases p.trigger with
  | atr =>
    exact ruleAtr_ownsAtr (by decide) (by decide)
      ((Scope.settled.has_ruleInput (by decide)).mpr trivial) (.of_nil rfl)
      (.of_nil rfl) (.of_nil rfl)
  | _ => exact Program.Silent.ownsAtr (.of_nil rfl)

theorem trailingCode_ownsAtr (n : Node) (p : Trailing) (program : Program) :
    (trailingCode n p program).OwnsAtr (p.method == .atrBased).toNat := by
  simp only [trailingCode]
  cases p.method with
  | atrBased =>
    exact ruleAtr_ownsAtr (by decide) (by decide)
      ((Scope.settled.has_ruleInput (by decide)).mpr trivial) (.of_nil rfl)
      (.of_nil rfl) (.of_nil rfl)
  | _ => exact Program.Silent.ownsAtr (.of_nil rfl)

theorem partialCode_silent (n : Node) (p : PartialClose) (program : Program) :
    (partialCode n p program).Silent := by
  simp only [partialCode]
  refine Program.Silent.append ⟨rfl, rfl, ?_⟩ (.of_nil rfl)
  rw [forall_mem_singleton]
  show isHandleName (closedTable _).text = false
  cases nextRule program "InpPartialClosePercent" with
  | none => decide
  | some n => exact isHandleName_of_number

theorem targetsCode_silent (n : Node) (p : MultiTarget) (program : Program) :
    (targetsCode n p program).Silent := by
  simp only [targetsCode]
  refine Program.Silent.append (Program.Silent.append (.of_nil rfl) ?_) (.of_nil rfl)
  split
  · exact .of_nil rfl
  · exact ⟨rfl, rfl, by decide⟩

end Rule

/-- Is the node a rule that is measured by the average true range? -/
def Node.isAtrRule (n : Node) : Bool :=
  match n.data.payload with
  | .management (.breakeven p) => p.trigger == .atr
  | .management (.trailing p) => p.method == .atrBased
  | _ => false

theorem emitManagement_ownsAtr (n : Node) (program : Program) :
    (emitManagement n program).code.OwnsAtr n.isAtrRule.toNat := by
  rw [emitManagement, Node.isAtrRule]
  split
  · rename_i rule hp
    rw [hp]
    refine Program.Silent.append_ownsAtr (.of_nil rfl) ?_
    cases rule with
    | breakeven p => exact Rule.breakevenCode_ownsAtr n p program
    | trailing p => exact Rule.trailingCode_ownsAtr n p program
    | partialClose p => exact (Rule.partialCode_silent n p program).ownsAtr
    | lockProfit p => exact Program.Silent.ownsAtr (.of_nil rfl)
    | multiTarget p => exact (Rule.targetsCode_silent n p program).ownsAtr
  · rename_i hnone
    split
    · rename_i p hp
      exact absurd hp (hnone _)
    · rename_i p hp
      exact absurd hp (hnone _)
    · exact Program.Silent.ownsAtr (.of_nil rfl)

/-! ## Runs -/

section Plan

variable {r : Roles} {edges : List Edge} {known : List String} {ctx : Context} {k : Nat}

/-- Steps for which it is known how many handles each has add them up. -/
theorem Run.ownsAtr {α : Type} {asks : α → Bool} {step : α → Step} :
    ∀ {xs : List α} {p q : Program} {k : Nat}, Run (xs.map step) p q →
      (∀ x ∈ xs, ∀ m, (step x m).code.OwnsAtr (asks x).toNat) → p.OwnsAtr k →
        q.OwnsAtr (k + xs.countP asks)
  | [], _, _, _, h, _, hp => by
    cases h
    exact hp
  | x :: xs, p, q, k, h, hstep, hp => by
    obtain ⟨m, hfirst, hrest⟩ := Run.cons_iff.mp h
    obtain rfl := hfirst.eq_append
    have hm := hp.append (hstep x mem_cons_self p)
    have hq := Run.ownsAtr hrest (fun y hy => hstep y (mem_cons_of_mem _ hy)) hm
    have hcount : k + (x :: xs).countP asks = k + (asks x).toNat + xs.countP asks := by
      rw [countP_cons, Nat.add_assoc, Nat.add_comm (List.countP asks xs)]
      cases asks x <;> rfl
    rw [hcount]
    exact hq

theorem Run.ownsAtr_silent {ss : List Step} (h : Run ss p q)
    (hss : ∀ s ∈ ss, ∀ m, (s m).code.Silent) (hp : p.OwnsAtr k) : q.OwnsAtr k :=
  h.invariant (I := (·.OwnsAtr k)) (fun s hs m hm _ => hm.append_silent (hss s hs m)) hp

/-- A stop that is measured by the average true range adds a handle and declares it. -/
theorem Run.ownsAtr_stop (h : Run [stopStep r edges known ctx] p q)
    (hrole : Role.All .stopLoss r.stopLoss) (hp : p.OwnsAtr k)
    (hnone : p.mentions "int atrHandle" = false) :
    q.OwnsAtr (k + (r.stopLoss.head?.any Node.isAtrDistance).toNat) ∧
      q.mentions "int atrHandle" = r.stopLoss.head?.any Node.isAtrDistance := by
  obtain rfl := h.eq_append
  rw [Program.mentions_append, hnone, Bool.false_or, stopStep]
  cases hstop : r.stopLoss.head? with
  | none =>
    have hsilent : (noDistance "slPips" "Stop Loss").Silent := .of_nil rfl
    exact ⟨hp.append_silent hsilent, rfl⟩
  | some n =>
    obtain ⟨howns, hdeclares⟩ := emitStopLoss_ownsAtr (hrole n (mem_of_head? hstop))
      r.indicators r.priceAction edges known ctx
    exact ⟨hp.append howns, hdeclares⟩

/-- The target has its own handle only if none is declared. -/
theorem Run.ownsAtr_target (h : Run [targetStep r] p q)
    (hrole : Role.All .takeProfit r.takeProfit) (hp : p.OwnsAtr k) :
    q.OwnsAtr (k + (r.takeProfit.head?.any Node.isAtrDistance &&
      !p.mentions "int atrHandle").toNat) := by
  obtain rfl := h.eq_append
  rw [targetStep]
  cases htarget : r.takeProfit.head? with
  | none => exact hp.append_silent (.of_nil rfl)
  | some n => exact hp.append (emitTakeProfit_ownsAtr (hrole n (mem_of_head? htarget)) p)

/-- A stop and a target have one handle, if any of the two is measured by the average true range. -/
theorem Run.ownsAtr_risk (h : Run (riskSteps r edges known ctx) p q) (hp : p.OwnsAtr k)
    (hnone : p.mentions "int atrHandle" = false)
    (hstops : Role.All .stopLoss r.stopLoss) (htargets : Role.All .takeProfit r.takeProfit) :
    q.OwnsAtr (k + (r.hasEntry && (r.stopLoss.head?.any Node.isAtrDistance ||
      r.takeProfit.head?.any Node.isAtrDistance)).toNat) := by
  rcases h.risk_cases with ⟨hentry, rfl⟩ | ⟨hentry, stopped, measured, hstop, htarget, horders⟩
  · rw [hentry]
    exact hp
  · rw [hentry]
    -- whether the target may share depends on the declarations that the stop left
    obtain ⟨hstopped, hdeclares⟩ := hstop.ownsAtr_stop hstops hp hnone
    have htargeted := htarget.ownsAtr_target htargets hstopped
    refine horders.ownsAtr_silent (fun s hs m => ?_) ?_
    · obtain ⟨side, n, -, rfl⟩ := mem_orderSteps_iff.mp hs
      exact (emitOrder_quiet side n m).toSilent
    · -- the second handle is only there without the first
      have hone (a b : Bool) : k + (true && (a || b)).toNat = k + a.toNat + (b && !a).toNat := by
        cases a <;> cases b <;> rfl
      rw [hdeclares] at htargeted
      rw [hone]
      exact htargeted

end Plan

/-! ## Compiles -/

theorem Program.ClosedIn.declaredHandles {σ : Scope} (h : p.ClosedIn σ) :
    p.declaredHandles = (p.globals.map fun g => g.name.text).filter isHandleName := by
  rw [Program.declaredHandles, ← filterMap_eq_filter, filterMap_map]
  refine filterMap_congr fun g hg => ?_
  rw [declaredHandle?, Global.declaredName_text (h.globals g hg)]
  rfl

theorem Payload.role?_takeProfit_iff {q : Payload} :
    q.role? = some .takeProfit ↔ q.kind = .takeProfit := by
  fun_cases Payload.kind q <;> simp [Payload.role?]

def Graph.firstTarget? (g : Graph) : Option Node :=
  g.liveNodes.find? fun n => n.kind == .takeProfit

theorem Graph.head_takeProfit (g : Graph) :
    (Roles.ofNodes g.liveNodes).takeProfit.head? = g.firstTarget? := by
  show (withRole .takeProfit g.liveNodes).head? = _
  rw [withRole, head?_filter, Graph.firstTarget?]
  congr 1
  funext n
  rw [Bool.eq_iff_iff, beq_iff_eq, beq_iff_eq, Payload.role?_takeProfit_iff]
  rfl

theorem countP_withRole {role : Role} {asks : Node → Bool}
    (h : ∀ n, asks n = true → n.data.payload.role? = some role) (nodes : List Node) :
    (withRole role nodes).countP asks = nodes.countP asks := by
  rw [withRole, countP_filter]
  refine countP_congr fun n _ => ?_
  rw [Bool.and_eq_true, beq_iff_eq]
  exact and_iff_left_of_imp (h n)

theorem countP_zipIdx (asks : Node → Bool) (nodes : List Node) :
    nodes.zipIdx.countP (fun x => asks x.1) = nodes.countP asks := by
  conv_rhs => rw [← zipIdx_map_fst 0 nodes, countP_map]
  rfl

theorem Node.role_of_isAtrIndicator (n : Node) (h : n.isAtrIndicator = true) :
    n.data.payload.role? = some .indicator := by
  unfold Node.isAtrIndicator at h
  split at h
  · rename_i hp
    rw [hp]
    rfl
  · cases h

theorem Node.role_of_isAtrRule (n : Node) (h : n.isAtrRule = true) :
    n.data.payload.role? = some .management := by
  unfold Node.isAtrRule at h
  split at h
  · rename_i hp
    rw [hp]
    rfl
  · rename_i hp
    rw [hp]
    rfl
  · cases h

/-- How many handles of the average true range the live nodes ask for. -/
def Graph.atrHandles (g : Graph) : Nat :=
  g.liveNodes.countP Node.isAtrIndicator + g.liveNodes.countP Node.isAtrRule +
    if (∃ m ∈ g.liveNodes, m.kind = .placeBuy ∨ m.kind = .placeSell) ∧
        (g.firstStop?.any Node.isAtrDistance ∨ g.firstTarget?.any Node.isAtrDistance) then 1 else 0

/-- The count, role by role. -/
theorem Graph.atrHandles_eq (g : Graph) :
    let r := Roles.ofNodes g.liveNodes
    g.atrHandles = (r.indicators.zipIdx.countP fun x => x.1.isAtrIndicator) +
      (r.hasEntry && (r.stopLoss.head?.any Node.isAtrDistance ||
        r.takeProfit.head?.any Node.isAtrDistance)).toNat + r.management.countP Node.isAtrRule := by
  have hindicators : (Roles.ofNodes g.liveNodes).indicators.zipIdx.countP
      (fun x => x.1.isAtrIndicator) = g.liveNodes.countP Node.isAtrIndicator :=
    (countP_zipIdx _ _).trans (countP_withRole Node.role_of_isAtrIndicator g.liveNodes)
  have hrules : (Roles.ofNodes g.liveNodes).management.countP Node.isAtrRule =
      g.liveNodes.countP Node.isAtrRule :=
    countP_withRole Node.role_of_isAtrRule g.liveNodes
  have hnat (b : Bool) : (if b = true then 1 else 0) = b.toNat := by cases b <;> rfl
  intro r
  rw [hindicators, hrules, g.head_stopLoss, g.head_takeProfit, Nat.add_right_comm]
  simp only [Graph.atrHandles, ← Graph.hasEntry_iff, ← Bool.or_eq_true, ← Bool.and_eq_true, hnat, r]

/-- **The handles of a compiled program are paired**, and as many of them are of the average true
range as the live nodes ask for. -/
theorem Graph.ownsAtr {g : Graph}
    (h : (g.compile project options).result = .ok c) : c.program.OwnsAtr g.atrHandles := by
  have hrun := Graph.run_of_roles h
  obtain ⟨signalled, risked, hsignals, hrisk, hrun⟩ := hrun.around_entry
  obtain ⟨opened, hopens, hindicated⟩ := Run.append_iff.mp hsignals
  obtain ⟨indicated, hindicators, hactions⟩ := Run.append_iff.mp hindicated
  obtain ⟨entered, hentry, hrun⟩ := Run.cons_iff.mp hrun
  obtain ⟨closed, hclose, hrun⟩ := Run.append_iff.mp hrun
  obtain ⟨timed, htime, hrun⟩ := Run.append_iff.mp hrun
  obtain ⟨managed, hrules, hpass⟩ := Run.append_iff.mp hrun
  have hopened : opened.OwnsAtr 0 := by
    refine hopens.ownsAtr_silent (fun s hs m => ?_) (Program.Silent.ownsAtr (.of_nil rfl))
    simp only [mem_cons, not_mem_nil, or_false] at hs
    rcases hs with rfl | rfl | rfl
    · exact (emitSpread_quiet _).toSilent
    · exact (emitTiming_quiet _).toSilent
    · exact (emitCloseTimeGate_quiet _ _ m).toSilent
  have hindicated : indicated.OwnsAtr (0 + (Roles.ofNodes g.liveNodes).indicators.zipIdx.countP
      fun x => x.1.isAtrIndicator) :=
    hindicators.ownsAtr (fun x _ _ => emitIndicator_ownsAtr x.1 x.2) hopened
  have hsignalled := hactions.ownsAtr_silent (fun s hs m => by
    obtain ⟨x, -, rfl⟩ := mem_map.mp hs
    exact (emitPriceAction_quiet x.1 x.2).toSilent) hindicated
  have hrisked := hrisk.ownsAtr_risk hsignalled (hsignals.not_mentions_handle rfl)
    (fun _ => role_of_mem) fun _ => role_of_mem
  have hentered := hentry.ownsAtr_silent
    (forall_mem_singleton.mpr (fun m => (emitEntry_quiet _ _ _ _ m).toSilent)) hrisked
  have hclosed := hclose.ownsAtr_silent (fun s hs m => by
    obtain ⟨x, -, rfl⟩ := mem_map.mp hs
    exact (emitCloseCondition_quiet x.1 x.2 _ _ _).toSilent) hentered
  have htimed := htime.ownsAtr_silent (fun s hs m => by
    obtain ⟨x, -, rfl⟩ := mem_map.mp hs
    exact (emitTimeExit_quiet x.1 x.2 _ m).toSilent) hclosed
  have hmanaged := hrules.ownsAtr (fun n _ m => emitManagement_ownsAtr n m) htimed
  have hall := hpass.ownsAtr_silent (forall_mem_singleton.mpr emitPass_silent) hmanaged
  rw [Nat.zero_add, ← Graph.atrHandles_eq] at hall
  exact hall

/-- **Handles are paired.** In a compiled program the handles that are created at the start differ
from each other; they are the handles that are declared, and those that are released at the end.
Every call that creates an indicator is assigned to a handle. The average true range is created as
often as the live nodes ask for it, where a stop and a target ask for it together. -/
theorem handles_paired {document : Json} {g : Graph} (hload : Graph.load document = .ok g)

    (h : (compile document project options).result = .ok c) :
    let p := c.program
    p.createdHandles.Nodup ∧ p.declaredHandles = p.createdHandles ∧
      p.releasedHandles = p.createdHandles ∧
      (p.initLines.flatMap calls).filter (· ∈ creators) =
        (p.initLines.flatMap creations).map Prod.snd ∧
      (p.initLines.flatMap calls).count "iATR" = g.atrHandles := by
  rw [compile, hload] at h
  obtain ⟨hs, howns, hcount⟩ := Graph.ownsAtr h
  have hdeclared := (Graph.closedIn_all h).declaredHandles
  have hnames := (Graph.run_of_roles h).counted.nodup
  rw [Program.names, map_append, map_map, map_map, nodup_append] at hnames
  obtain ⟨-, hglobals, -⟩ := hnames
  have hcreated : c.program.createdHandles = hs.map Prod.fst := congrArg _ howns.created
  refine ⟨?_, ?_, ?_, ?_, ?_⟩
  · rw [hcreated, ← howns.declared]
    exact hglobals.filter _
  · rw [hcreated, ← howns.declared, hdeclared]
  · rw [hcreated, Program.releasedHandles, howns.released]
  · rw [howns.called, howns.created]
  · rw [← count_filter (p := (· ∈ creators)) (by decide), howns.called, ← hcount,
      List.count, countP_map]
    rfl

/-- A stop and a target that share a handle, beside an indicator and rules that have their own. -/
def atrDocument : Json :=
  .obj [("nodes", .arr [.node "range" "atr", .node "buy" "place-buy",
    .node "stop" "stop-loss" [("method", .str "ATR_BASED")],
    .node "target" "take-profit" [("method", .str "ATR_BASED")],
    .node "even" "breakeven-stop" [("trigger", .str "ATR")],
    .node "trail" "trailing-stop" [("method", .str "ATR_BASED")]])]

def atrGraph : Graph := atrDocument.graph

theorem handles_paired_atr :
    Graph.load atrDocument = .ok atrGraph ∧
      ∃ c, (compile atrDocument "Test" {}).result = .ok c ∧ c.program.createdHandles.Nodup ∧
        c.program.declaredHandles = c.program.createdHandles ∧
        c.program.releasedHandles = c.program.createdHandles ∧
        (c.program.initLines.flatMap calls).count "iATR" = 4 := by
  have hload : Graph.load atrDocument = .ok atrGraph := rfl
  obtain ⟨c, hresult⟩ : ∃ c, (compile atrDocument "Test" {}).result = .ok c :=
    compile_ok_of_methods hload (by decide) "Test"
  obtain ⟨hnodup, hdeclared, hreleased, -, hcount⟩ := handles_paired hload hresult
  -- one for the indicator, one for each rule, and one for stop and target together
  have hfour : atrGraph.atrHandles = 4 := by decide +kernel
  exact ⟨hload, c, hresult, hnodup, hdeclared, hreleased, hcount.trans hfour⟩

end TradeGraph

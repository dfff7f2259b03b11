import TradeGraph.Proofs.Ceiling
import TradeGraph.Proofs.GateLines
import TradeGraph.Proofs.Handles

/-!
# The gate of an entry

Orders are placed only if the one condition after the heading of the orders holds. It is a
conjunction of parts that several steps add to, long before the entry reads them; which parts there
are follows from the nodes and the settings alone. Every flag that it tests is declared once, on a
line before it that is outside of all braces.
-/

namespace TradeGraph

open List Mql Mql.Platform
open String (toList_append)

variable {gs xs : List String} {q : Payload} {p : Program} {t x : String}

/-! ## Flags of a plan -/

namespace Roles

def timingFlags (r : Roles) : List String :=
  if r.timing.isEmpty then [] else ["isTradingTime"]

/-- The flag of the filter nodes, if there are some. -/
def spreadFlags (r : Roles) : List String :=
  if r.spread.isEmpty then [] else ["spreadOk"]

/-- Is the first stop measured by the average true range? -/
def hasAtrStop (r : Roles) : Bool :=
  r.stopLoss.head?.any Node.isAtrDistance

def hasAtrTarget (r : Roles) : Bool :=
  r.takeProfit.head?.any Node.isAtrDistance

def stopFlags (r : Roles) : List String :=
  if r.hasAtrStop then ["atrOk"] else []

/-- The flag of the target, which has none if it shares the handle of the stop. -/
def targetFlags (r : Roles) : List String :=
  if r.hasAtrTarget && !r.hasAtrStop then ["tpAtrOk"] else []

end Roles

/-! ## Runs -/

theorem Program.Raises.congr {ys hs : List String} (h : p.Raises xs gs) (hflags : xs = ys)
    (hgates : gs = hs) : p.Raises ys hs :=
  hflags ▸ hgates ▸ h

theorem Run.exists_idle {I : Program → Prop} (hI : ∀ m code, I m → I (m ++ code)) {ss : List Step}
    {q : Program} (h : Run ss p q) (hss : ∀ s ∈ ss, ∀ m, I m → (s m).code.Raises [] []) (hp : I p) :
    ∃ rest, q = p ++ rest ∧ rest.Raises [] [] := by
  induction h with
  | @done p => exact ⟨{}, (Program.append_empty p).symm, .of_nil rfl rfl⟩
  | @step s ss p q hs hrun ih =>
    have hfirst := hss s mem_cons_self p hp
    obtain ⟨rest, rfl, hrest⟩ := ih (fun t ht => hss t (mem_cons_of_mem _ ht)) (hI p _ hp)
    exact ⟨(s p).code ++ rest, Program.append_assoc .., hfirst.idle_append hrest⟩

theorem Run.exists_idle_of_forall {ss : List Step} {q : Program} (h : Run ss p q)
    (hss : ∀ s ∈ ss, ∀ m, (s m).code.Raises [] []) : ∃ rest, q = p ++ rest ∧ rest.Raises [] [] :=
  h.exists_idle (I := fun _ => True) (fun _ _ _ => trivial) (fun s hs m _ => hss s hs m) trivial

section Plan

variable {r : Roles} {edges : List Edge} {known : List String} {ctx : Context} {p q m : Program}

theorem generalInputs_lacks (s : Settings) : LacksCloseTimes (generalInputs s) 0 := by
  intro j _
  have hname : (exitName "InpCloseHour" j).text ∉
      ["InpMagicNumber", "InpTradeComment", "InpMaxSlippage"] :=
    Ident.text_notMem (show startsNone _ "InpCloseHour" = true by decide)
  rw [Program.hasInput, any_eq_false]
  intro x hx heq
  refine hname ((beq_iff_eq.mp heq) ▸ ?_)
  simp only [generalInputs, mem_cons, not_mem_nil, or_false] at hx
  rcases hx with rfl | rfl | rfl <;> simp [Ident.text]

theorem LacksCloseTimes.append_of_inputs {i : ℕ} (h : LacksCloseTimes p i) (hq : q.inputs = []) :
    LacksCloseTimes (p ++ q) i := by
  intro j hj
  rw [Program.hasInput_append, h j hj, Program.hasInput, hq]
  rfl

theorem Run.raises_gates {s : Settings}
    (h : Run [always (emitSpread r.spread), always (emitTiming r.timing),
      emitCloseTimeGate r.timeExit ctx] (generalInputs s) m)
    (hspread : Role.All .spread r.spread) :
    m.Raises (r.spreadFlags ++ r.timingFlags ++ closeFlags 0 r.timeExit)
      (r.spreadFlags ++ (closeFlags 0 r.timeExit).map ("!" ++ ·)) := by
  obtain ⟨spread, hfirst, h⟩ := Run.cons_iff.mp h
  obtain ⟨timed, hsecond, hgate⟩ := Run.cons_iff.mp h
  have hfault : (emitTiming r.timing).fault = none := by
    cases hsecond with
    | step hs _ => exact hs
  obtain rfl := hfirst.eq_append
  obtain rfl := hsecond.eq_append
  obtain rfl := hgate.eq_append
  have hinputs : (emitSpread r.spread).code.inputs = [] ∧
    (emitTiming r.timing).code.inputs = [] := by
    constructor
    · rw [emitSpread]
      split <;> rfl
    · unfold emitTiming
      split
      · rfl
      · split <;> rfl
      · simp only
        split <;> rfl
  have hlacks := ((generalInputs_lacks s).append_of_inputs hinputs.1).append_of_inputs hinputs.2
  have hstart : (generalInputs s).Raises [] [] := .of_nil rfl rfl
  exact ((hstart.idle_append (emitSpread_raises hspread)).append (emitTiming_raises hfault)).append
    (emitCloseTimeGate_raises hlacks r.timeExit ctx) |>.congr rfl (by simp [Roles.spreadFlags])

theorem Run.raises_stop (h : Run [stopStep r edges known ctx] p m)
    (hstops : Role.All .stopLoss r.stopLoss)
    (hnone : p.mentions "int atrHandle" = false) (hp : p.Raises xs gs) :
    m.Raises (xs ++ r.stopFlags) (gs ++ r.stopFlags) ∧
      m.mentions "int atrHandle" = r.hasAtrStop := by
  obtain rfl := h.eq_append
  rw [Program.mentions_append, hnone, Bool.false_or, Roles.stopFlags, Roles.hasAtrStop, stopStep]
  cases hfirst : r.stopLoss.head? with
  | none => exact ⟨hp.append (noDistance_raises _ _), rfl⟩
  | some n =>
    have hrole := hstops n (mem_of_head? hfirst)
    obtain ⟨q, hq⟩ := Payload.of_role hrole
    have hcode := emitStopLoss_raises hq r.indicators r.priceAction edges known ctx
    have hatr : n.isAtrDistance = decide (q.method = .atrBased) := by
      rw [Node.isAtrDistance, hq]
      rfl
    refine ⟨?_, (emitStopLoss_ownsAtr hrole r.indicators r.priceAction edges known ctx).2⟩
    simpa only [always, Option.any_some, hatr, decide_eq_true_eq] using hp.append hcode

theorem Run.raises_target (h : Run [targetStep r] p m)
    (htargets : Role.All .takeProfit r.takeProfit)
    (hshared : p.mentions "int atrHandle" = r.hasAtrStop) (hp : p.Raises xs gs) :
    m.Raises (xs ++ r.targetFlags) (gs ++ r.targetFlags) := by
  obtain rfl := h.eq_append
  rw [Roles.targetFlags, Roles.hasAtrTarget, targetStep]
  cases hfirst : r.takeProfit.head? with
  | none => exact hp.append (noDistance_raises _ _)
  | some n =>
    obtain ⟨q, hq⟩ := Payload.of_role (htargets n (mem_of_head? hfirst))
    have hcode := emitTakeProfit_raises hq p
    have hatr : n.isAtrDistance = decide (q.method = .atrBased) := by
      rw [Node.isAtrDistance, hq]
      rfl
    rw [hshared] at hcode
    simpa only [Option.any_some, hatr, Bool.and_eq_true, decide_eq_true_eq, Bool.not_eq_true']
      using hp.append hcode

theorem Run.raises_risk (h : Run (riskSteps r edges known ctx) p m) (hentry : r.hasEntry = true)
    (hnone : p.mentions "int atrHandle" = false)
    (hstops : Role.All .stopLoss r.stopLoss)
    (htargets : Role.All .takeProfit r.takeProfit) (hp : p.Raises xs gs) :
    m.Raises (xs ++ r.stopFlags ++ r.targetFlags) (gs ++ r.stopFlags ++ r.targetFlags) := by
  rcases h.risk_cases with ⟨hno, -⟩ | ⟨-, stopped, measured, hstop, htarget, horders⟩
  · rw [hentry] at hno
    cases hno
  obtain ⟨hstopped, hshared⟩ := hstop.raises_stop hstops hnone hp
  have htargeted := htarget.raises_target htargets hshared hstopped
  obtain ⟨rest, rfl, hrest⟩ := horders.exists_idle_of_forall fun s hs m => by
    obtain ⟨side, n, -, rfl⟩ := mem_orderSteps_iff.mp hs
    exact emitOrder_raises side n m
  exact htargeted.append_idle hrest

theorem Run.raises_before {s : Settings}
    (h : Run (signalSteps r ctx) (generalInputs s) p)
    (hrisk : Run (riskSteps r edges known ctx) p m)
    (hentry : r.hasEntry = true) (hspread : Role.All .spread r.spread)
    (hstops : Role.All .stopLoss r.stopLoss) (htargets : Role.All .takeProfit r.takeProfit) :
    HasCloseTimes r.timeExit m ∧
      m.Raises (r.spreadFlags ++ r.timingFlags ++ closeFlags 0 r.timeExit ++ r.stopFlags ++
          r.targetFlags)
        (r.spreadFlags ++ (closeFlags 0 r.timeExit).map ("!" ++ ·) ++ r.stopFlags ++
          r.targetFlags) := by
  -- no handle of a stop is there before the stop
  have hnone := h.not_mentions_handle rfl
  obtain ⟨gated, hgates, h⟩ := Run.append_iff.mp h
  obtain ⟨indicated, hindicators, hactions⟩ := Run.append_iff.mp h
  have htimes : HasCloseTimes r.timeExit gated := by
    obtain ⟨spread, -, hrest⟩ := Run.cons_iff.mp hgates
    obtain ⟨timed, -, hgate⟩ := Run.cons_iff.mp hrest
    rw [hgate.eq_append]
    exact emitCloseTimeGate_hasCloseTimes r.timeExit ctx timed
  have hgated := hgates.raises_gates hspread
  obtain ⟨first, rfl, hfirst⟩ := hindicators.exists_idle_of_forall fun s hs m => by
    obtain ⟨x, -, rfl⟩ := mem_map.mp hs
    exact emitIndicator_raises x.1 x.2
  obtain ⟨second, rfl, hsecond⟩ := hactions.exists_idle_of_forall fun s hs m => by
    obtain ⟨x, -, rfl⟩ := mem_map.mp hs
    exact emitPriceAction_raises x.1 x.2
  refine ⟨?_, hrisk.raises_risk hentry hnone hstops htargets
    ((hgated.append_idle hfirst).append_idle hsecond)⟩
  obtain ⟨rest, rfl⟩ := hrisk.exists_append
  exact ((htimes.append _ first).append _ second).append _ rest

theorem Run.idle_after (h : Run (exitSteps r edges ctx) p m)
    (hrules : Role.All .management r.management)
    (htimes : HasCloseTimes r.timeExit p) : ∃ rest, m = p ++ rest ∧ rest.Raises [] [] := by
  refine h.exists_idle (I := HasCloseTimes r.timeExit) (fun m code hm => hm.append m code)
    (fun s hs m hm => ?_) htimes
  rcases mem_exitSteps_iff.mp hs with ⟨n, i, -, rfl⟩ | ⟨n, i, hn, rfl⟩ | ⟨n, hn, rfl⟩ | rfl
  · exact emitCloseCondition_raises n i r.indicators r.priceAction edges
  · exact emitTimeExit_raises hn hm ctx
  · exact emitManagement_raises (hrules n hn) m
  · exact emitPass_raises m

end Plan

/-! ## The entry -/

section Gate

variable {r : Roles} {s : Settings}

def Settings.resultFlags (s : Settings) : List String :=
  if s.limitsResult then ["dailyLimitHit"] else []

/-- The ceiling of the trades of a day, if there is one. -/
def Settings.tradesParts (s : Settings) : List String :=
  if s.limitsTrades then ["tradesToday < " ++ toString s.maxTradesPerDay] else []

def Roles.gateFlags (r : Roles) (s : Settings) : List String :=
  r.spreadFlags ++ r.timingFlags ++ closeFlags 0 r.timeExit ++ r.stopFlags ++ r.targetFlags ++
    (["newBar"] ++ s.resultFlags)

def Roles.gateParts (r : Roles) (s : Settings) : List String :=
  r.timingFlags ++ ["positionsCount < " ++ toString s.maxOpenTrades, "newBar"] ++
    (r.spreadFlags ++ (closeFlags 0 r.timeExit).map ("!" ++ ·) ++ r.stopFlags ++ r.targetFlags) ++
    s.tradesParts ++ s.resultFlags.map ("!" ++ ·)

/-- The gates that the entry reads, as written, if the steps before it added these. -/
theorem entryGates_texts {ctx : Context} (htiming : ctx.hasTiming = !r.timing.isEmpty)
    {m : Program} (hgates : m.gates.map Expr.text = r.spreadFlags ++
      (closeFlags 0 r.timeExit).map ("!" ++ ·) ++ r.stopFlags ++ r.targetFlags) :
    (entryGates ctx m).map Expr.text = r.gateParts ctx.settings := by
  simp only [entryGates, map_append, hgates, Roles.gateParts, Roles.timingFlags, htiming,
    Settings.tradesParts, Settings.resultFlags]
  cases r.timing.isEmpty <;> cases ctx.settings.limitsTrades <;>
    cases ctx.settings.limitsResult <;> rfl

/-! ### Parts are distinct -/

/-- The characters that tell a part from the others. -/
def startOf (t : String) : List Char :=
  t.toList.take 3

theorem startOf_append {s : String} (h : 3 ≤ s.toList.length) : startOf (s ++ t) = startOf s := by
  rw [startOf, toList_append, take_append_of_le_length h]
  rfl

/-- Texts that begin alike may stand among texts that all begin otherwise. -/
theorem nodup_around {as bs cs : List String} (hbs : bs.Nodup)
    (hstart : ∀ b ∈ bs, startOf b = startOf t) (h : ((t :: (as ++ cs)).map startOf).Nodup) :
    (as ++ bs ++ cs).Nodup := by
  obtain ⟨hnew, hothers⟩ := nodup_cons.mp h
  have hmid : (bs ++ (as ++ cs)).Nodup := by
    refine nodup_append.mpr ⟨hbs, hothers.of_map _, ?_⟩
    rintro b hb a ha rfl
    exact hnew (hstart b hb ▸ mem_map_of_mem ha)
  rw [List.append_assoc]
  exact (perm_append_comm_assoc bs as cs).nodup_iff.mp hmid

theorem closeFlags_eq (i : ℕ) (nodes : List Node) : closeFlags i nodes =
    (((nodes.zipIdx i).filter fun x => x.1.closeTime?.isSome).map Prod.snd).map
      fun k => (closeFlag k).text := by
  rw [closeFlags, map_map]
  induction nodes.zipIdx i with
  | nil => rfl
  | cons x xs ih => cases hx : x.1.closeTime? <;> simp [hx, ih]

theorem closeFlags_nodup (i : ℕ) (nodes : List Node) : (closeFlags i nodes).Nodup := by
  have hplaces : ((nodes.zipIdx i).map Prod.snd).Nodup := by
    rw [zipIdx_map_snd]
    exact nodup_range'
  rw [closeFlags_eq]
  refine (hplaces.sublist (filter_sublist.map _)).map fun j k hjk => ?_
  exact exitName_text_inj hjk

theorem mem_closeFlags {nodes : List Node} : x ∈ closeFlags 0 nodes ↔
    ∃ (i : ℕ) (n : Node), nodes[i]? = some n ∧ n.closeTime?.isSome = true ∧
      (closeFlag i).text = x := by
  simp only [closeFlags_eq, mem_map, mem_filter]
  constructor
  · rintro ⟨i, ⟨⟨n, j⟩, ⟨hn, htime⟩, rfl⟩, rfl⟩
    exact ⟨j, n, mk_mem_zipIdx_iff_getElem?.mp hn, htime, rfl⟩
  · rintro ⟨i, n, hn, htime, rfl⟩
    exact ⟨i, ⟨(n, i), ⟨mk_mem_zipIdx_iff_getElem?.mpr hn, htime⟩, rfl⟩, rfl⟩

theorem startOf_closeFlag (i : ℕ) (s : String) :
    startOf (s ++ (closeFlag i).text) = startOf (s ++ "pastCloseTime") := by
  have hlength : (s ++ "pastCloseTime").toList.length = s.toList.length + 13 := by
    rw [toList_append, length_append]
    rfl
  have htext : s ++ (closeFlag i).text =
      s ++ "pastCloseTime" ++ ((closeFlag i).digits ++ (closeFlag i).tail) := by
    rw [Ident.text_eq, String.append_assoc]
    rfl
  rw [htext]
  exact startOf_append (by omega)

theorem ite_sublist (b : Bool) (x : String) : (if b then [x] else []).Sublist [x] := by
  cases b <;> simp

theorem Roles.timingFlags_sublist : r.timingFlags.Sublist ["isTradingTime"] := by
  rw [timingFlags]
  split <;> simp

theorem Roles.spreadFlags_sublist : r.spreadFlags.Sublist ["spreadOk"] := by
  rw [spreadFlags]
  split <;> simp

theorem Roles.gateFlags_sublist : (r.gateFlags s).Sublist
    (["spreadOk", "isTradingTime"] ++ closeFlags 0 r.timeExit ++
      ["atrOk", "tpAtrOk", "newBar", "dailyLimitHit"]) := by
  have hbefore : (r.spreadFlags ++ r.timingFlags).Sublist ["spreadOk", "isTradingTime"] :=
    r.spreadFlags_sublist.append r.timingFlags_sublist
  have hafter : (r.stopFlags ++ (r.targetFlags ++ (["newBar"] ++ s.resultFlags))).Sublist
      ["atrOk", "tpAtrOk", "newBar", "dailyLimitHit"] :=
    (ite_sublist _ _).append ((ite_sublist _ _).append (.append (.refl _) (ite_sublist _ _)))
  simpa only [gateFlags, List.append_assoc] using
    (hbefore.append (.refl (closeFlags 0 r.timeExit))).append hafter

theorem Roles.gateFlags_nodup : (r.gateFlags s).Nodup := by
  refine List.Nodup.sublist gateFlags_sublist ?_
  refine nodup_around (t := "pastCloseTime") (closeFlags_nodup 0 _) (fun x hx => ?_) (by decide)
  obtain ⟨i, n, -, -, rfl⟩ := mem_closeFlags.mp hx
  exact startOf_closeFlag i ""

theorem Roles.gateParts_nodup : (r.gateParts s).Nodup := by
  let positions := "positionsCount < " ++ toString s.maxOpenTrades
  let trades := "tradesToday < " ++ toString s.maxTradesPerDay
  have hbefore : (r.timingFlags ++ ([positions, "newBar"] ++ r.spreadFlags)).Sublist
      ["isTradingTime", positions, "newBar", "spreadOk"] :=
    r.timingFlags_sublist.append (.append (.refl _) r.spreadFlags_sublist)
  have hresult : (s.resultFlags.map ("!" ++ ·)).Sublist ["!dailyLimitHit"] :=
    (ite_sublist _ "dailyLimitHit").map _
  have hafter : (r.stopFlags ++ (r.targetFlags ++
      (s.tradesParts ++ s.resultFlags.map ("!" ++ ·)))).Sublist
      ["atrOk", "tpAtrOk", trades, "!dailyLimitHit"] :=
    (ite_sublist _ _).append ((ite_sublist _ _).append ((ite_sublist _ _).append hresult))
  have hall : (["isTradingTime", positions, "newBar", "spreadOk"] ++
      (closeFlags 0 r.timeExit).map ("!" ++ ·) ++
      ["atrOk", "tpAtrOk", trades, "!dailyLimitHit"]).Nodup := by
    have hclose : ((closeFlags 0 r.timeExit).map ("!" ++ ·)).Nodup :=
      (closeFlags_nodup 0 _).map fun x y hxy => (String.append_right_inj _).mp hxy
    refine nodup_around (t := "!pastCloseTime") hclose ?_ ?_
    · intro x hx
      obtain ⟨y, hy, rfl⟩ := mem_map.mp hx
      obtain ⟨i, n, -, -, rfl⟩ := mem_closeFlags.mp hy
      exact startOf_closeFlag i "!"
    · have hpositions : startOf positions = startOf "positionsCount < " :=
        startOf_append (by decide)
      have htrades : startOf trades = startOf "tradesToday < " := startOf_append (by decide)
      simp only [cons_append, nil_append, map_cons, map_nil, hpositions, htrades]
      decide
  refine hall.sublist ?_
  simpa only [gateParts, List.append_assoc] using
    (hbefore.append (.refl ((closeFlags 0 r.timeExit).map ("!" ++ ·)))).append hafter

/-! ### What parts test -/

/-- What a part of a gate may be: a flag, the opposite of a flag, or a comparison with a number. -/
inductive GatePart (flags : List String) : String → Prop where
  | flag {x : String} (hx : x ∈ flags) (hword : isWord x = true) : GatePart flags x
  | opposite {x : String} (hx : x ∈ flags) (hword : isWord x = true) : GatePart flags ("!" ++ x)
  | below {x : String} (hword : isWord x = true) (n : ℤ) :
    GatePart flags (x ++ " < " ++ toString n)

theorem isIdentChar_of_mem_word {w : String} (hw : isWord w = true) {c : Char} (hc : c ∈ w.toList) :
    isIdentChar c = true := by
  rw [isWord, Bool.and_eq_true, all_eq_true] at hw
  exact hw.2 c hc

namespace GatePart

variable {flags : List String} {t x : String}

theorem amp_notMem (h : GatePart flags t) : '&' ∉ t.toList := by
  have hword {w : String} (hw : isWord w = true) : '&' ∉ w.toList := fun hc =>
    absurd (isIdentChar_of_mem_word hw hc) (by decide)
  have hnumber (n : ℤ) : '&' ∉ (toString n).toList := fun hc =>
    absurd (int_numeral _ hc) (by decide)
  cases h with
  | flag _ hx => exact hword hx
  | opposite _ hx =>
    rw [toList_append, mem_append]
    exact not_or.mpr ⟨by decide, hword hx⟩
  | below hx n =>
    rw [toList_append, toList_append, mem_append, mem_append]
    exact not_or.mpr ⟨not_or.mpr ⟨hword hx, by decide⟩, hnumber n⟩

theorem mem_flags (hx : isWord x = true) (ht : t = x ∨ t = "!" ++ x) (h : GatePart flags t) :
    x ∈ flags := by
  have hbang (y : String) : isWord ("!" ++ y) = false := by
    rw [Bool.eq_false_iff]
    intro hw
    have hmem : '!' ∈ ("!" ++ y).toList := by
      rw [toList_append]
      exact mem_append_left _ (by decide)
    exact absurd (isIdentChar_of_mem_word hw hmem) (by decide)
  have hblank : ' ' ∉ x.toList := fun hc => absurd (isIdentChar_of_mem_word hx hc) (by decide)
  cases h with
  | flag hmem hword =>
    rcases ht with rfl | rfl
    · exact hmem
    · rw [hbang] at hword
      cases hword
  | @opposite y hmem hword =>
    rcases ht with rfl | hxy
    · rw [hbang] at hx
      cases hx
    · exact (String.append_right_inj _).mp hxy ▸ hmem
  | @below y hword n =>
    -- a comparison has a blank, which neither a word nor its opposite has
    have hmem : ' ' ∈ (y ++ " < " ++ toString n).toList := by
      rw [toList_append, toList_append]
      exact mem_append_left _ (mem_append_right _ (by decide))
    rcases ht with hxy | hxy
    · rw [hxy] at hmem
      exact absurd hmem hblank
    · rw [hxy, toList_append, mem_append] at hmem
      exact absurd (hmem.resolve_left (by decide)) hblank

end GatePart

theorem Roles.isWord_of_mem_gateFlags (hx : x ∈ r.gateFlags s) : isWord x = true := by
  have hbefore : ∀ y ∈ ["spreadOk", "isTradingTime"], isWord y = true := by decide
  have hafter : ∀ y ∈ ["atrOk", "tpAtrOk", "newBar", "dailyLimitHit"], isWord y = true := by decide
  rcases mem_append.mp (gateFlags_sublist.subset hx) with hx | hx
  · rcases mem_append.mp hx with hx | hx
    · exact hbefore x hx
    · obtain ⟨i, n, -, -, rfl⟩ := mem_closeFlags.mp hx
      exact isWord_text (show isWord "pastCloseTime" = true by decide) rfl
  · exact hafter x hx

theorem Roles.gatePart_of_mem (ht : t ∈ r.gateParts s) : GatePart (r.gateFlags s) t := by
  have hflag {x : String} (hx : x ∈ r.gateFlags s) : GatePart (r.gateFlags s) x :=
    .flag hx (isWord_of_mem_gateFlags hx)
  have hopposite {x : String} (hx : x ∈ r.gateFlags s) : GatePart (r.gateFlags s) ("!" ++ x) :=
    .opposite hx (isWord_of_mem_gateFlags hx)
  simp only [gateParts, mem_append, mem_cons, not_mem_nil, or_false, mem_map] at ht
  rcases ht with (((ht | rfl | rfl) | ((ht | ⟨x, hx, rfl⟩) | ht) | ht) | ht) | ⟨x, hx, rfl⟩
  · exact hflag (by simp [gateFlags, ht])
  · exact .below (x := "positionsCount") (by decide) s.maxOpenTrades
  · exact hflag (by simp [gateFlags])
  · exact hflag (by simp [gateFlags, ht])
  · exact hopposite (by simp [gateFlags, hx])
  · exact hflag (by simp [gateFlags, ht])
  · exact hflag (by simp [gateFlags, ht])
  · rw [mem_singleton.mp ((ite_sublist _ _).subset ht)]
    exact .below (x := "tradesToday") (by decide) s.maxTradesPerDay
  · exact hopposite (by simp [gateFlags, hx])

end Gate

/-! ## What holds back an entry -/

def Graph.timeExits (g : Graph) : List Node :=
  g.liveNodes.filter fun n => n.kind == .timeExit

/-- The end of the names of an exit: the first has none. -/
def exitSuffix (i : ℕ) : String :=
  if i = 0 then "" else toString (i + 1)

/-- What must hold for orders to be placed, and why. -/
inductive HoldsBack (g : Graph) : String → Prop where
  | tradingTime {n : Node} (hn : n ∈ g.nodes) (h : n.category = .timing) :
    HoldsBack g "isTradingTime"
  | positions : HoldsBack g ("positionsCount < " ++ toString g.settings.maxOpenTrades)
  | newBar : HoldsBack g "newBar"
  | spread {n : Node} (hn : n ∈ g.nodes) (h : n.category = .filter) : HoldsBack g "spreadOk"
  | closeTime {i : ℕ} {n : Node} {p : TimeExit} (hn : g.timeExits[i]? = some n)
    (hp : n.data.payload = .trading (.timeExit p)) (h : p.exitMode = .closeAtTime) :
    HoldsBack g ("!pastCloseTime" ++ exitSuffix i)
  | stopRange (h : g.firstStop?.any Node.isAtrDistance = true) : HoldsBack g "atrOk"
  | targetRange (h : g.firstTarget?.any Node.isAtrDistance = true)
    (hstop : g.firstStop?.any Node.isAtrDistance = false) : HoldsBack g "tpAtrOk"
  | trades (h : 0 < g.settings.maxTradesPerDay) :
    HoldsBack g ("tradesToday < " ++ toString g.settings.maxTradesPerDay)
  | result (h : 0.0 < g.settings.maxDailyProfitPercent ∨ 0.0 < g.settings.maxDailyLossPercent) :
    HoldsBack g "!dailyLimitHit"

section Graphs

variable {g : Graph}

/-- Timing and filter nodes live in any case, and expansion makes no such nodes. -/
theorem Graph.mem_liveNodes_iff {n : Node} (h : n.category = .timing ∨ n.category = .filter) :
    n ∈ g.liveNodes ↔ n ∈ g.nodes := by
  have hlive : n ∈ g.liveNodes ↔ n ∈ g.nodes.flatMap expandNode := by
    rw [Graph.liveNodes, keepLive, mem_filter]
    refine and_iff_left ?_
    rcases h with h | h <;> simp [Node.isLive, Node.isAlwaysLive, h]
  rw [hlive, mem_flatMap]
  constructor
  · rintro ⟨m, hm, hn⟩
    cases hcomposite : m.isComposite with
    | false =>
      rw [expandNode_other hcomposite, mem_singleton] at hn
      exact hn ▸ hm
    | true =>
      have hcategory := category_of_mem_expandNode hcomposite hn
      rcases h with h | h <;> rw [h] at hcategory <;> exact absurd hcategory (by decide)
  · intro hn
    have hcomposite : n.isComposite = false := by
      rcases h with h | h <;> rw [Node.isComposite, h] <;> rfl
    exact ⟨n, hn, by rw [expandNode_other hcomposite]; exact mem_singleton_self n⟩

theorem Payload.role?_timing_iff : q.role? = some .timing ↔ q.kind.category = .timing := by
  fun_cases Payload.kind q <;> simp [Payload.role?, Kind.category]

theorem Payload.role?_spread_iff : q.role? = some .spread ↔ q.kind.category = .filter := by
  fun_cases Payload.kind q <;> simp [Payload.role?, Kind.category]

theorem Payload.role?_timeExit_iff : q.role? = some .timeExit ↔ q.kind = .timeExit := by
  fun_cases Payload.kind q <;> simp [Payload.role?]

theorem Graph.mem_roleFlag_iff {role : Role} {category : Category} {flag : String}
    (hrole : ∀ q : Payload, q.role? = some role ↔ q.kind.category = category)
    (h : category = .timing ∨ category = .filter) :
    t ∈ (if (withRole role g.liveNodes).isEmpty then [] else [flag]) ↔
      t = flag ∧ ∃ n ∈ g.nodes, n.category = category := by
  have hsome : (withRole role g.liveNodes).isEmpty = false ↔
      ∃ n ∈ g.nodes, n.category = category := by
    simp only [isEmpty_eq_false_iff_exists_mem, withRole, mem_filter, beq_iff_eq, hrole]
    refine exists_congr fun n => and_congr_left fun hn => Graph.mem_liveNodes_iff ?_
    rw [Node.category, Node.kind, hn]
    exact h
  rw [← hsome]
  cases (withRole role g.liveNodes).isEmpty <;> simp

theorem Graph.timeExit_eq : (Roles.ofNodes g.liveNodes).timeExit = g.timeExits := by
  show withRole .timeExit g.liveNodes = _
  rw [withRole, Graph.timeExits]
  congr 1
  funext n
  rw [Bool.eq_iff_iff, beq_iff_eq, beq_iff_eq, Payload.role?_timeExit_iff]
  rfl

theorem closeTime?_isSome_iff {n : Node} : n.closeTime?.isSome = true ↔
    ∃ p, n.data.payload = .trading (.timeExit p) ∧ p.exitMode = .closeAtTime := by
  unfold Node.closeTime?
  split
  · rename_i p hp
    by_cases hmode : p.exitMode = .closeAtTime <;> simp [hp, hmode]
  · rename_i hother
    simp only [Option.isSome_none, Bool.false_eq_true, false_iff, not_exists, not_and]
    exact fun p hp => absurd hp (hother p)

theorem closeFlag_text (i : ℕ) : (closeFlag i).text = "pastCloseTime" ++ exitSuffix i := by
  by_cases hi : i = 0 <;> simp [closeFlag, exitName, Ident.text, exitSuffix, hi]

theorem Graph.mem_timingFlags_iff : t ∈ (Roles.ofNodes g.liveNodes).timingFlags ↔
    t = "isTradingTime" ∧ ∃ n ∈ g.nodes, n.category = .timing :=
  Graph.mem_roleFlag_iff (fun _ => Payload.role?_timing_iff) (.inl rfl)

theorem Graph.mem_spreadFlags_iff : t ∈ (Roles.ofNodes g.liveNodes).spreadFlags ↔
    t = "spreadOk" ∧ ∃ n ∈ g.nodes, n.category = .filter :=
  Graph.mem_roleFlag_iff (fun _ => Payload.role?_spread_iff) (.inr rfl)

theorem Graph.mem_closeFlags_iff :
    x ∈ closeFlags 0 (Roles.ofNodes g.liveNodes).timeExit ↔
      ∃ i n p, g.timeExits[i]? = some n ∧ n.data.payload = .trading (.timeExit p) ∧
        p.exitMode = .closeAtTime ∧ "pastCloseTime" ++ exitSuffix i = x := by
  simp only [mem_closeFlags, Graph.timeExit_eq, closeTime?_isSome_iff, closeFlag_text]
  refine exists_congr fun i => exists_congr fun n => ?_
  constructor
  · rintro ⟨hn, ⟨p, hp, hmode⟩, rfl⟩
    exact ⟨p, hn, hp, hmode, rfl⟩
  · rintro ⟨p, hn, hp, hmode, rfl⟩
    exact ⟨hn, ⟨p, hp, hmode⟩, rfl⟩

theorem Graph.mem_gateParts_iff :
    t ∈ (Roles.ofNodes g.liveNodes).gateParts g.settings ↔ HoldsBack g t := by
  have hstop : (Roles.ofNodes g.liveNodes).hasAtrStop = g.firstStop?.any Node.isAtrDistance := by
    rw [Roles.hasAtrStop, Graph.head_stopLoss]
  have htarget : (Roles.ofNodes g.liveNodes).hasAtrTarget =
      g.firstTarget?.any Node.isAtrDistance := by
    rw [Roles.hasAtrTarget, Graph.head_takeProfit]
  have hmark (x : String) : "!" ++ ("pastCloseTime" ++ x) = "!pastCloseTime" ++ x := by
    rw [← String.append_assoc]
    rfl
  simp only [Roles.gateParts, mem_append, mem_cons, not_mem_nil, or_false, mem_map,
    Graph.mem_timingFlags_iff, Graph.mem_spreadFlags_iff, Graph.mem_closeFlags_iff, Roles.stopFlags,
    Roles.targetFlags, Settings.tradesParts, Settings.resultFlags, mem_ite_nil_right, hstop,
    htarget, Bool.and_eq_true, Bool.not_eq_true', Settings.limitsTrades, Settings.limitsResult,
    Bool.or_eq_true, decide_eq_true_eq]
  constructor
  · rintro ((((⟨rfl, n, hn, h⟩ | rfl | rfl) | ((⟨rfl, n, hn, h⟩ |
      ⟨x, ⟨i, n, p, hn, hp, h, rfl⟩, rfl⟩) | ⟨h, rfl⟩) | ⟨⟨h, hnone⟩, rfl⟩) | ⟨h, rfl⟩) |
      ⟨x, ⟨h, rfl⟩, rfl⟩)
    · exact .tradingTime hn h
    · exact .positions
    · exact .newBar
    · exact .spread hn h
    · rw [hmark]
      exact .closeTime hn hp h
    · exact .stopRange h
    · exact .targetRange h hnone
    · exact .trades h
    · exact .result h
  · intro h
    cases h with
    | tradingTime hn h => exact .inl (.inl (.inl (.inl ⟨rfl, _, hn, h⟩)))
    | positions => simp
    | newBar => simp
    | spread hn h => exact .inl (.inl (.inr (.inl (.inl (.inl ⟨rfl, _, hn, h⟩)))))
    | closeTime hn hp h =>
      exact .inl (.inl (.inr (.inl (.inl (.inr ⟨_, ⟨_, _, _, hn, hp, h, rfl⟩, hmark _⟩)))))
    | stopRange h => simp [h]
    | targetRange h hnone => simp [h, hnone]
    | trades h => simp [h]
    | result h => simp [h]

variable {project : String} {options : Options} {c : Compiled}

theorem Roles.sides_ne_nil {r : Roles} (h : r.hasEntry = true) : r.orders.sides ≠ [] := by
  rw [Roles.hasEntry] at h
  cases hbuy : r.buy <;> cases hsell : r.sell <;>
    simp [Orders.sides, Roles.orders, hbuy, hsell] at h ⊢

/-- The code for a tick with an order: what comes before the gate raises the flags of the gate, and
what comes after it raises nothing. -/
theorem Graph.exists_gate (h : (g.compile project options).result = .ok c)
    (hentry : (Roles.ofNodes g.liveNodes).hasEntry = true) :
    ∃ (m rest : Program) (gs : List String) (gates : List Expr) (body : List Stmt),
      c.program.tick = m.tick ++
        ([.blank, .heading "Execute Entry", .branch (.all gates) body] ++ rest.tick) ∧
      gates.map Expr.text = (Roles.ofNodes g.liveNodes).gateParts g.settings ∧
      m.Raises ((Roles.ofNodes g.liveNodes).gateFlags g.settings) gs ∧ rest.Raises [] [] ∧
      (Stmt.branch (.all gates) body).isIdle = true := by
  have hsettings := Graph.settings_of_compile h
  obtain ⟨r, hsort, hcontext, -⟩ := Graph.run_of_compile h
  rw [Graph.sort_liveNodes] at hsort
  obtain rfl : Roles.ofNodes g.liveNodes = r := Except.ok.inj hsort
  let r := Roles.ofNodes g.liveNodes
  have hindicators : Role.All .indicator r.indicators := fun _ => role_of_mem
  have hactions : Role.All .priceAction r.priceAction := fun _ => role_of_mem
  -- the gates are read in the program that the entry is made in
  obtain ⟨signalled, risked, sizes, cs, after, hcut⟩ :=
    Graph.exists_cut h (Roles.sides_ne_nil hentry)
  obtain ⟨entry, htick, hafter⟩ := hcut.exits
  obtain ⟨htimes, hraises⟩ := hcut.signals.raises_before hcut.risk hentry
    (fun _ => role_of_mem) (fun _ => role_of_mem) fun _ => role_of_mem
  obtain ⟨exits, hprogram, hexits⟩ := hafter.idle_after (fun _ => role_of_mem)
    (htimes.append _ _)
  obtain ⟨inputs, own, actions, hconditions, -, -⟩ :=
    allConditions_gives hindicators hactions risked
  obtain ⟨_, hjoins⟩ := hcut.joins
  obtain rfl : Conditions.ofPairs (own ++ actions) = cs := by
    cases hconditions.symm.trans hjoins
    rfl
  have hidle : after.all Stmt.isIdle = true :=
    (by decide : ∀ ss ∈ [[], cancelStmts], ss.all Stmt.isIdle = true) after hcut.cancels
  refine ⟨risked ++ entryOpening c.context r.orders (.ofPairs (own ++ actions)),
    { tick := after } ++ exits, _, entryGates c.context risked, _, ?_, ?_,
    hsettings ▸ hraises.append (entryOpening_raises c.context r.orders (own ++ actions)),
    (Program.Raises.of_idle hidle rfl).append hexits, executeBlock_idle c.context risked sizes⟩
  · rw [hprogram, Program.append_tick, Program.append_tick, htick]
    simp only [Program.append_tick, List.append_assoc]
    rfl
  · rw [← hsettings]
    exact entryGates_texts (by rw [hcontext]; rfl) hraises.gates

end Graphs

theorem Program.Raises.around_gate {m rest : Program} {gate : Stmt} (hm : m.Raises xs gs)
    (hrest : rest.Raises [] []) (hgate : gate.isIdle = true) :
    Stmt.allTidy (m.tick ++ ([.blank, .heading "Execute Entry", gate] ++ rest.tick)) = true ∧
      gateFlags (m.tick ++ ([.blank, .heading "Execute Entry", gate] ++ rest.tick)) = xs := by
  have hidle : [gate].all Stmt.isIdle = true := by rw [all_cons, hgate]; rfl
  obtain ⟨htidy, hflags, -⟩ := allTidy_of_isIdle hidle
  have hsplit : [.blank, .heading "Execute Entry", gate] =
      [.blank, .heading "Execute Entry"] ++ [gate] := rfl
  constructor
  · rw [Stmt.allTidy_append, Stmt.allTidy_append, hsplit, Stmt.allTidy_append, hm.tidy, htidy,
      hrest.tidy]
    rfl
  · have hnone : gateFlags [gate] = [] := by rw [gateFlags, hflags]; rfl
    rw [gateFlags_append, gateFlags_append, hsplit, gateFlags_append, hm.flags, hnone, hrest.flags]
    exact append_nil xs

/-- **The gate of an entry is complete.** If an order is live, the heading of the orders stands once
in the code for a tick, before a condition. Cut at its signs, the condition gives what holds back an
entry, each once and nothing else. Every flag that is one of the parts, or whose opposite is one, is
declared on an earlier line outside of all braces, and on no other line. -/
theorem entry_gate_complete {document : Json} {g : Graph} (hload : Graph.load document = .ok g)
    {project : String} {options : Options} {c : Compiled}
    (h : (compile document project options).result = .ok c)
    (horder : ∃ n ∈ g.liveNodes, n.kind = .placeBuy ∨ n.kind = .placeSell) :
    ∃ before condition after,
      c.program.tickLines = before ++ [ordersHeading, "if(" ++ condition ++ ")"] ++ after ∧
      ordersHeading ∉ before ∧ ordersHeading ∉ after ∧
      (andParts condition).Nodup ∧ (∀ t, t ∈ andParts condition ↔ HoldsBack g t) ∧
      ∀ x, isWord x = true → x ∈ andParts condition ∨ "!" ++ x ∈ andParts condition →
        ∃ l, TopLevel [l] before ∧ flagName? l = some x ∧
          declarations x c.program.tickLines = [l] := by
  rw [compile, hload] at h
  let r := Roles.ofNodes g.liveNodes
  obtain ⟨m, rest, gs, gates, body, htick, hgates, hm, hrest, hidle⟩ :=
    Graph.exists_gate h ((Graph.hasEntry_iff g).mpr horder)
  have hclosed := (Graph.closedIn_all h).tick.closed_free
  obtain ⟨htidy, hflags⟩ := hm.around_gate hrest hidle
  -- the blank line before the heading belongs to what comes before
  have hsplit : m.tick ++
    ([.blank, .heading "Execute Entry", .branch (.all gates) body] ++ rest.tick) =
      m.tick ++ [.blank] ++
        ([.heading "Execute Entry", .branch (.all gates) body] ++ rest.tick) := by
    simp
  rw [hsplit] at htidy hflags htick
  rw [htick] at hclosed
  have hlines : c.program.tickLines = _ := congrArg Stmt.block htick
  have hparts : andParts (Expr.all gates).text = r.gateParts g.settings := by
    rw [Expr.text, Expr.texts_eq_map, hgates]
    refine andParts_intercalate (ne_nil_of_mem (Graph.mem_gateParts_iff.mpr .newBar)) ?_
    exact fun t ht => (Roles.gatePart_of_mem ht).amp_notMem
  obtain ⟨hbefore, hafter⟩ := Stmt.allClosed_append.mp hclosed
  refine ⟨Stmt.block (m.tick ++ [.blank]), (Expr.all gates).text,
    braces (Stmt.block body) ++ Stmt.block rest.tick, ?_, ?_, ?_, ?_, ?_, ?_⟩
  · rw [hlines, Stmt.block_append, Stmt.block_append]
    simp [Stmt.block, Stmt.lines, ordersHeading, ifHead]
  · refine ordersHeading_notMem hbefore ?_ ?_
    · rw [Stmt.allTidy_append, hm.tidy]
      rfl
    · rw [any_append, hm.quiet]
      rfl
  · rw [mem_append]
    rintro (hl | hl)
    · exact absurd (isComment_braces _ hl) (by decide)
    · exact ordersHeading_notMem (Stmt.allClosed_append.mp hafter).2 hrest.tidy hrest.quiet hl
  · rw [hparts]
    exact Roles.gateParts_nodup
  · intro t
    rw [hparts]
    exact Graph.mem_gateParts_iff
  · intro x hword hx
    rw [hparts] at hx
    -- the comparisons have no flags, so a word among the parts is a flag that was raised
    have hflag : x ∈ r.gateFlags g.settings := by
      rcases hx with hx | hx
      · exact (Roles.gatePart_of_mem hx).mem_flags hword (.inl rfl)
      · exact (Roles.gatePart_of_mem hx).mem_flags hword (.inr rfl)
    obtain ⟨s, hs, hs'⟩ := hm.top x hflag
    rw [hlines]
    exact exists_declaration hclosed htidy (hflags ▸ Roles.gateFlags_nodup) (hflags ▸ hflag)
      (mem_append_left _ hs) hs'

/-- An entry that all kinds of gates hold back; the second exit is at a time of day, and the target
shares the handle of the stop. -/
def gatedDocument : Json :=
  .obj [("nodes", .arr [.node "when" "always", .node "calm" "max-spread", .node "buy" "place-buy",
    .node "stop" "stop-loss" [("method", .str "ATR_BASED")],
    .node "target" "take-profit" [("method", .str "ATR_BASED")], .node "bars" "time-exit",
    .node "late" "time-exit" [("exitMode", .str "CLOSE_AT_TIME")]]),
    ("edges", .arr [.edge "when" "buy" [("id", .str "a")], .edge "buy" "stop" [("id", .str "b")],
      .edge "buy" "target" [("id", .str "c")], .edge "buy" "bars" [("id", .str "d")],
      .edge "bars" "late" [("id", .str "e")]]),
    ("settings", .obj [("maxTradesPerDay", .int 3), ("maxDailyLossPercent", .int 2)])]

def gatedGraph : Graph := gatedDocument.graph

theorem entry_gate_complete_gated :
    Graph.load gatedDocument = .ok gatedGraph ∧
      (∃ n ∈ gatedGraph.liveNodes, n.kind = .placeBuy ∨ n.kind = .placeSell) ∧
      ∃ c before condition after, (compile gatedDocument "Test" {}).result = .ok c ∧
        c.program.tickLines = before ++ [ordersHeading, "if(" ++ condition ++ ")"] ++ after ∧
        (andParts condition).Nodup ∧
        (∀ t, t ∈ andParts condition ↔
        t ∈ ["isTradingTime", "positionsCount < 1", "newBar", "spreadOk",
          "!pastCloseTime2", "atrOk", "tradesToday < 3", "!dailyLimitHit"]) ∧
        ∃ l, TopLevel [l] before ∧ flagName? l = some "pastCloseTime2" ∧
          declarations "pastCloseTime2" c.program.tickLines = [l] := by
  have hload : Graph.load gatedDocument = .ok gatedGraph := rfl
  have horder : ∃ n ∈ gatedGraph.liveNodes, n.kind = .placeBuy ∨ n.kind = .placeSell := by
    decide +kernel
  obtain ⟨c, hresult⟩ : ∃ c, (compile gatedDocument "Test" {}).result = .ok c :=
    compile_ok_of_methods hload (by decide) "Test"
  obtain ⟨before, condition, after, hlines, -, -, hnodup, hparts, hdeclared⟩ :=
    entry_gate_complete hload hresult horder
  have hall : (Roles.ofNodes gatedGraph.liveNodes).gateParts gatedGraph.settings =
      ["isTradingTime", "positionsCount < 1", "newBar", "spreadOk", "!pastCloseTime2", "atrOk",
        "tradesToday < 3", "!dailyLimitHit"] := by
    decide +kernel
  have hmem : ∀ t, t ∈ andParts condition ↔ t ∈ _ := fun t =>
    (hparts t).trans (hall ▸ Graph.mem_gateParts_iff).symm
  exact ⟨hload, horder, c, before, condition, after, hresult, hlines, hnodup, hmem,
    hdeclared "pastCloseTime2" (by decide) (.inr ((hmem _).mpr (by decide)))⟩

end TradeGraph

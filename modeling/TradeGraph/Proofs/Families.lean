import Mathlib.Data.List.Nodup
import Mathlib.Data.List.Pairwise
import TradeGraph.Proofs.Names

/-!
# Families of declared names

Names of inputs and of variables at file level come from fixed words, some of them with a number in
the middle or at the end. Each word belongs to one part of the program. A name is read from its end:
what follows the last digit, the digits, and what stands before them; so two names are written alike
only if they have the same word and the same number.
-/

namespace TradeGraph

open List Mql

variable {f g : Family} {x : Ident}

/-! ## Families -/

/-- The parts of a program that declare names. -/
inductive Family where
  | general
  | closeTime
  | indicator
  | priceAction
  | stop
  | target
  | order (side : Side)
  | entry
  | barExit
  | breakeven
  | trailing
  | lock
  | partialClose
  | levels
  | levelTable
deriving DecidableEq, Repr

namespace Family

/-- All families. -/
def all : List Family :=
  [.general, .closeTime, .indicator, .priceAction, .stop, .target, .order .buy, .order .sell,
    .entry, .barExit, .breakeven, .trailing, .lock, .partialClose, .levels, .levelTable]

/-- The words of the names of a family: the part of a name before its number, or all of it. -/
def leads : Family → List String
  | .general => ["InpMagicNumber", "InpTradeComment", "InpMaxSlippage"]
  | .closeTime => ["InpCloseHour", "InpCloseMinute"]
  | .indicator =>
    ["ind", "InpMA", "InpRSI", "InpMACD", "InpBB", "InpATR", "InpADX", "InpStoch", "InpCCI"]
  | .priceAction => ["pa", "InpRange", "InpCP", "InpSR"]
  | .stop =>
    ["InpStopLoss", "InpSLPercent", "InpATRSLTimeframe", "InpATRPeriod", "InpATRMultiplier",
      "InpBBSLBuffer", "InpMASLMultiplier", "InpATRSLMultiplier", "InpADXSLBase", "atrHandle",
      "atrBuffer"]
  | .target =>
    ["InpTakeProfit", "InpRiskReward", "InpTPATRMultiplier", "InpTPATRPeriod", "tpAtrHandle",
      "tpAtrBuffer"]
  | .order .buy =>
    ["InpBuyPendingOffset", "InpBuyLotSize", "InpBuyRiskPercent", "InpBuyMinLot", "InpBuyMaxLot"]
  | .order .sell =>
    ["InpSellPendingOffset", "InpSellLotSize", "InpSellRiskPercent", "InpSellMinLot",
      "InpSellMaxLot"]
  | .entry =>
    ["InpMinEmaSeparation", "InpPullbackMaxDist", "InpMaxDailyProfitPct", "InpMaxDailyLossPct",
      "InpPendingExpiryHours", "lastEntryBar", "lastTradeDay", "tradesToday", "plDayStart",
      "dayStartBalance"]
  | .barExit => ["InpTimeExitBars"]
  | .breakeven =>
    ["InpBETriggerPips", "InpBETriggerPercent", "InpBEATRPeriod", "InpBEATRMultiplier",
      "InpBELockPips", "beATR", "beATRHandle", "beATRBuffer"]
  | .trailing =>
    ["InpTrailATRPeriod", "InpTrailATRMultiplier", "InpTrailPercent", "InpTrailPips",
      "InpTrailStartPips", "trailATR", "trailATRHandle", "trailATRBuffer"]
  | .lock => ["InpLockProfitPercent", "InpLockProfitPips", "InpLockCheckInterval"]
  | .partialClose =>
    ["InpPartialCloseRMultiple", "InpPartialCloseTriggerPercent", "InpPartialCloseTriggerPips",
      "InpPartialClosePercent", "partialClosedTickets"]
  | .levels =>
    ["InpMLTP1Pips", "InpMLTP1Percent", "InpMLTP2Pips", "InpMLTP2Percent", "InpMLTP3Pips",
      "InpMLTP3Percent"]
  | .levelTable => ["SMLTPState", "g_mltpStates", "g_mltpCount"]

theorem mem_all (f : Family) : f ∈ all := by
  rcases f with _ | _ | _ | _ | _ | _ | (_ | _) | _ <;> simp [all]

theorem nodup_leads : (all.flatMap leads).Nodup := by
  decide +kernel

theorem eq_of_mem_leads {w : String} (hf : w ∈ f.leads) (hg : w ∈ g.leads) : f = g := by
  by_contra hne
  have hsymm : Std.Symm (Function.onFun List.Disjoint leads) := ⟨fun _ _ h => disjoint_symm h⟩
  exact (nodup_flatMap.mp nodup_leads).2.forall (mem_all f) (mem_all g) hne hf hg

end Family

/-! ## Reading names from their end -/

namespace Mql

/-- Is there no digit in the text? -/
def isLetters (s : String) : Bool :=
  s.toList.all fun c => !c.isDigit

/-- A text cut before and after its last digits: all three parts back to front. -/
def cut (s : String) : List Char × List Char × List Char :=
  let rest := s.toList.reverse.dropWhile fun c => !c.isDigit
  (rest.dropWhile Char.isDigit, rest.takeWhile Char.isDigit,
    s.toList.reverse.takeWhile fun c => !c.isDigit)

/-- Does the text not end with a digit? -/
def endsPlain (s : String) : Bool :=
  s.toList.reverse.head?.all fun c => !c.isDigit

theorem cut_append {s : String} {ds : List Char} {t : String} (hs : endsPlain s = true)
    (hds : ds ≠ []) (hdigits : ∀ c ∈ ds, c.isDigit = true) (ht : isLetters t = true) :
    cut (s ++ (String.ofList ds ++ t)) = (s.toList.reverse, ds.reverse, t.toList.reverse) := by
  have hrev : (s ++ (String.ofList ds ++ t)).toList.reverse =
      t.toList.reverse ++ (ds.reverse ++ s.toList.reverse) := by
    simp
  have htail : ∀ c ∈ t.toList.reverse, (!c.isDigit) = true := by
    intro c hc
    exact all_eq_true.mp ht c (mem_reverse.mp hc)
  have hback : ∀ c ∈ ds.reverse, c.isDigit = true := fun c hc => hdigits c (mem_reverse.mp hc)
  obtain ⟨d, more, hcons⟩ := exists_cons_of_ne_nil (reverse_ne_nil_iff.mpr hds)
  have hd : d.isDigit = true := hback d (hcons ▸ mem_cons_self)
  have hrest : (t.toList.reverse ++ (ds.reverse ++ s.toList.reverse)).dropWhile
      (fun c => !c.isDigit) = ds.reverse ++ s.toList.reverse := by
    rw [dropWhile_append_of_pos htail, hcons, cons_append,
      dropWhile_cons_of_neg (by simp [hd])]
  have hletters : (t.toList.reverse ++ (ds.reverse ++ s.toList.reverse)).takeWhile
      (fun c => !c.isDigit) = t.toList.reverse := by
    rw [takeWhile_append_of_pos htail, hcons, cons_append,
      takeWhile_cons_of_neg (by simp [hd]), append_nil]
  have hstem : s.toList.reverse.dropWhile Char.isDigit = s.toList.reverse ∧
      s.toList.reverse.takeWhile Char.isDigit = [] := by
    rw [endsPlain] at hs
    cases hlast : s.toList.reverse with
    | nil => exact ⟨rfl, rfl⟩
    | cons c cs =>
      rw [hlast] at hs
      have hc : c.isDigit = false := by simpa using hs
      exact ⟨dropWhile_cons_of_neg (by simp [hc]), takeWhile_cons_of_neg (by simp [hc])⟩
  rw [cut, hrev, hrest, hletters, dropWhile_append_of_pos hback,
    takeWhile_append_of_pos hback, hstem.1, hstem.2, append_nil]

/-- The word of a name: the part before its number, or all of it. -/
def Ident.lead (x : Ident) : String :=
  match x.number with
  | none => x.stem ++ x.tail
  | some _ => x.stem

/-- What follows the number of a name. -/
def Ident.ending (x : Ident) : String :=
  match x.number with
  | none => ""
  | some _ => x.tail

structure Ident.Named (f : Family) (x : Ident) : Prop where
  lead : x.lead ∈ f.leads
  tail : isLetters x.tail = true

/-- Words do not end with a digit. The only ones with a digit inside begin with a text that is no
word. -/
theorem lead_plain : ∀ w ∈ Family.all.flatMap Family.leads, endsPlain w = true ∧ ((cut w).2.1 = [] ∨
      String.ofList (cut w).1.reverse ∉ Family.all.flatMap Family.leads) := by
  decide +kernel

theorem mem_leads {w : String} (h : w ∈ f.leads) : w ∈ Family.all.flatMap Family.leads :=
  mem_flatMap.mpr ⟨f, f.mem_all, h⟩

theorem Ident.Named.cut_text (h : x.Named f) {n : Nat} (hn : x.number = some n) :
    cut x.text = (x.lead.toList.reverse, (toString n).toList.reverse, x.ending.toList.reverse) := by
  have hlead : x.lead = x.stem := by rw [Ident.lead, hn]
  have hending : x.ending = x.tail := by rw [Ident.ending, hn]
  have hdigits : x.digits = String.ofList (toString n).toList := by
    rw [Ident.digits, hn, String.ofList_toList]
  have hdigit : ∀ c ∈ (toString n).toList, c.isDigit = true := by
    intro c hc
    rw [Nat.toString_eq_repr, Nat.toList_repr] at hc
    exact Nat.isDigit_of_mem_toDigits (by decide) (by decide) hc
  have hne : (toString n).toList ≠ [] := by
    rw [Nat.toString_eq_repr, Nat.toList_repr]
    exact Nat.toDigits_ne_nil
  have hplain : endsPlain x.stem = true := by
    rw [← hlead]
    exact (lead_plain _ (mem_leads h.lead)).1
  rw [Ident.text_eq, hdigits, cut_append hplain hne hdigit h.tail, hlead, hending]

theorem Ident.text_of_number_none (h : x.number = none) : x.text = x.lead := by
  rw [Ident.text_eq, Ident.lead, Ident.digits, h]
  simp

theorem Ident.Named.text_ne {y : Ident} (hx : x.Named f) (hy : y.Named g) {n : Nat}
    (hn : x.number = some n) (hnone : y.number = none) : x.text ≠ y.text := by
  intro heq
  have hcut := hx.cut_text hn
  rw [heq, Ident.text_of_number_none hnone] at hcut
  rcases (lead_plain _ (mem_leads hy.lead)).2 with hempty | hword
  · rw [hcut] at hempty
    have : (toString n).toList = [] := reverse_eq_nil_iff.mp hempty
    rw [Nat.toString_eq_repr, Nat.toList_repr] at this
    exact Nat.toDigits_ne_nil this
  · rw [hcut, reverse_reverse, String.ofList_toList] at hword
    exact hword (mem_leads hx.lead)

/-- **Names that are written alike** are of one family, and have the same word, number and
ending. -/
theorem Ident.Named.eq_of_text_eq {y : Ident} (hx : x.Named f) (hy : y.Named g)
    (h : x.text = y.text) :
    f = g ∧ x.lead = y.lead ∧ x.number = y.number ∧ x.ending = y.ending := by
  suffices hsame : x.lead = y.lead ∧ x.number = y.number ∧ x.ending = y.ending from
    ⟨Family.eq_of_mem_leads hx.lead (hsame.1 ▸ hy.lead), hsame⟩
  cases hn : x.number with
  | none =>
    cases hm : y.number with
    | none =>
      rw [Ident.text_of_number_none hn, Ident.text_of_number_none hm] at h
      exact ⟨h, rfl, by rw [Ident.ending, Ident.ending, hn, hm]⟩
    | some m => exact absurd h.symm (hy.text_ne hx hm hn)
  | some n =>
    cases hm : y.number with
    | none => exact absurd h (hx.text_ne hy hn hm)
    | some m =>
      have hcut := (hx.cut_text hn).symm.trans ((congrArg cut h).trans (hy.cut_text hm))
      simp only [Prod.mk.injEq, reverse_inj, String.toList_inj] at hcut
      exact ⟨hcut.1, congrArg some (eq_of_numeral_eq hcut.2.1), hcut.2.2⟩

end Mql

end TradeGraph

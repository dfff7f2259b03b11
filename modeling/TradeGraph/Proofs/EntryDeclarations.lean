import Mathlib.Data.List.Perm.Subperm
import TradeGraph.Proofs.ClosedEntry
import TradeGraph.Proofs.Declarations

/-!
# What the entry block declares

Some signals need an input of their own; it takes the first name that no input has yet. The rest of
the entry block has fixed names.
-/

namespace TradeGraph

open List Mql

/-! ## Fresh names -/

/-- A fresh name is new: more candidates are tried than there are inputs. -/
theorem hasInput_freshInput (program : Program) (stem : String) :
    program.hasInput (freshInput program stem).text = false := by
  simp only [freshInput]
  split
  · rename_i hnew
    rw [Scope.text_plain]
    simpa using hnew
  · rename_i hold
    cases hfind : List.find? (fun x => !program.hasInput x.text)
        ((List.range (program.inputs.length + 1)).map fun k =>
          ({ stem, number := some (k + 2) } : Ident)) with
    | some x => simpa using find?_some hfind
    | none =>
      -- all candidates are taken, so there are at least as many inputs as candidates
      exfalso
      have htaken : ∀ k ∈ List.range (program.inputs.length + 1),
          (Ident.mk stem (some (k + 2)) "").text ∈ program.inputs.map fun x => x.name.text := by
        intro k hk
        have hk := find?_eq_none.mp hfind _ (mem_map_of_mem hk)
        rw [Bool.not_eq_true, Bool.not_eq_false', Program.hasInput, any_eq_true] at hk
        obtain ⟨x, hx, hname⟩ := hk
        exact mem_map.mpr ⟨x, hx, beq_iff_eq.mp hname⟩
      have hnodup : ((List.range (program.inputs.length + 1)).map fun k =>
          (Ident.mk stem (some (k + 2)) "").text).Nodup := by
        refine nodup_range.map_on fun j _ k _ htext => ?_
        simp only [Ident.text_eq, Ident.digits, String.append_empty, String.append_right_inj]
          at htext
        have hnumber := eq_of_numeral_eq htext
        omega
      have hsubset : ((List.range (program.inputs.length + 1)).map fun k =>
          (Ident.mk stem (some (k + 2)) "").text) ⊆ program.inputs.map fun x => x.name.text := by
        intro t ht
        obtain ⟨k, hk, rfl⟩ := mem_map.mp ht
        exact htaken k hk
      have hlength := (subperm_of_subset hnodup hsubset).length_le
      simp only [length_map, length_range] at hlength
      omega

def signalStems : List String :=
  ["InpMinEmaSeparation", "InpPullbackMaxDist"]

theorem indicatorPart_inputs (nodes : List (Node × Signal × Indicator)) (i : Nat)
    (entry : Node × Signal × Indicator) (program : Program) :
    (indicatorPart nodes i entry program).inputs = [] ∨
      ∃ x, ∃ stem ∈ signalStems, (indicatorPart nodes i entry program).inputs = [x] ∧
        x.name = freshInput program stem := by
  obtain ⟨n, signal, indicator⟩ := entry
  simp only [indicatorPart]
  split
  · split
    · split
      · exact .inr ⟨_, _, by simp [signalStems], rfl, rfl⟩
      · exact .inl rfl
    · exact .inl rfl
  · split
    · exact .inl rfl
    · split
      · exact .inr ⟨_, _, by simp [signalStems], rfl, rfl⟩
      · exact .inl rfl
    · exact .inl rfl

theorem Program.hasInput_append {p q : Program} {name : String} :
    (p ++ q).hasInput name = (p.hasInput name || q.hasInput name) := by
  simp [Program.hasInput]

theorem signalParts_fresh (nodes : List (Node × Signal × Indicator)) :
    ∀ (i : Nat) (rest : List (Node × Signal × Indicator)) (program : Program),
      ((signalParts nodes i rest program).inputs.map fun x => x.name.text).Nodup ∧
        ∀ x ∈ (signalParts nodes i rest program).inputs, program.hasInput x.name.text = false ∧
          ∃ number, ∃ stem ∈ signalStems, x.name = ⟨stem, number, ""⟩
  | _, [], _ => by simp [signalParts]
  | i, entry :: rest, program => by
    rw [signalParts]
    simp only
    obtain ⟨hnodup, hfresh⟩ := signalParts_fresh nodes (i + 1) rest
      (program ++ { inputs := (indicatorPart nodes i entry program).inputs })
    simp only [Program.hasInput_append, Bool.or_eq_false_iff] at hfresh
    refine ⟨?_, ?_⟩
    · rw [map_append, nodup_append]
      refine ⟨?_, hnodup, ?_⟩
      · rcases indicatorPart_inputs nodes i entry program with hnone | ⟨x, stem, -, hone, -⟩
        · simp [hnone]
        · simp [hone]
      · intro s hs t ht heq
        obtain ⟨x, hx, rfl⟩ := mem_map.mp hs
        obtain ⟨y, hy, rfl⟩ := mem_map.mp ht
        have hnew := (hfresh y hy).1.2
        rw [Program.hasInput, any_eq_false] at hnew
        exact hnew x hx (beq_iff_eq.mpr heq)
    · intro y hy
      rcases mem_append.mp hy with hy | hy
      · rcases indicatorPart_inputs nodes i entry program with hnone | ⟨x, stem, hstem, hone, hname⟩
        · rw [hnone] at hy
          cases hy
        · rw [hone, mem_singleton] at hy
          subst hy
          obtain ⟨number, hnumber⟩ := exists_freshInput program stem
          exact ⟨hname ▸ hasInput_freshInput program stem, number, stem, hstem, hname.trans hnumber⟩
      · exact ⟨(hfresh y hy).1.1, (hfresh y hy).2⟩

/-! ## The entry block -/

def IsSignalInput (x : Ident) : Prop :=
  x.Named .entry ∧ x.lead ∈ signalStems

theorem allConditions_declares (indicators priceAction : List Node) (program : Program) :
    ({ inputs := (allConditions indicators priceAction program).1 } : Program).Declares
      IsSignalInput := by
  have hinputs : ∀ inputs : List Input, ({ inputs } : Program).names = inputs.map Input.name := by
    intro inputs
    simp [Program.names]
  rw [allConditions]
  split
  · exact Program.declares_nil rfl
  · rename_i nodes hnodes
    obtain ⟨hnodup, hfresh⟩ := signalParts_fresh nodes 0 nodes program
    have hparts : ({ inputs := (signalParts nodes 0 nodes program).inputs } : Program).Declares
        IsSignalInput := by
      refine ⟨fun x hx => ?_, ?_⟩
      · rw [hinputs] at hx
        obtain ⟨y, hy, rfl⟩ := mem_map.mp hx
        obtain ⟨-, number, stem, hstem, hname⟩ := hfresh y hy
        have hlead : y.name.lead = stem := by
          rw [hname]
          cases number <;> simp [Ident.lead]
        have hmem : ∀ w ∈ signalStems, w ∈ Family.entry.leads := by decide
        refine ⟨⟨hlead ▸ hmem stem hstem, ?_⟩, hlead ▸ hstem⟩
        rw [hname]
        rfl
      · rw [hinputs, map_map]
        exact hnodup
    simp only
    split <;> exact hparts

/-- A name without number and tail. -/
def plainName (w : String) : Ident := w

theorem dailyLimits_inputs (s : Settings) :
    ((dailyLimits s).inputs.map Input.name).Sublist
      (["InpMaxDailyProfitPct", "InpMaxDailyLossPct"].map plainName) := by
  have hnames : (dailyLimits s).inputs.map Input.name =
      (if 0.0 < s.maxDailyProfitPercent then [plainName "InpMaxDailyProfitPct"] else []) ++
        (if 0.0 < s.maxDailyLossPercent then [plainName "InpMaxDailyLossPct"] else []) := by
    simp only [dailyLimits, map_append]
    split_ifs <;> rfl
  rw [hnames]
  exact (if_sublist _ _).append (if_sublist _ _)

theorem entryOpening_inputs (ctx : Context) (orders : Orders) (c : Conditions) :
    ((entryOpening ctx orders c).inputs.map Input.name).Sublist
      (["InpMaxDailyProfitPct", "InpMaxDailyLossPct"].map plainName) := by
  have hinputs : (entryOpening ctx orders c).inputs =
      if ctx.settings.limitsResult then (dailyLimits ctx.settings).inputs else [] := by
    simp only [entryOpening, Program.append_inputs]
    split_ifs <;> rfl
  rw [hinputs]
  split
  · exact dailyLimits_inputs ctx.settings
  · exact nil_sublist _

theorem entryOpening_globals (ctx : Context) (orders : Orders) (c : Conditions) :
    ((entryOpening ctx orders c).globals.map Global.name).Sublist
      (["lastEntryBar", "lastTradeDay", "tradesToday", "plDayStart", "dayStartBalance"].map
        plainName) := by
  have hnames : (entryOpening ctx orders c).globals.map Global.name =
      [plainName "lastEntryBar"] ++
        (if ctx.settings.limitsTrades then ["lastTradeDay", "tradesToday"].map plainName else []) ++
        (if ctx.settings.limitsResult then ["plDayStart", "dayStartBalance"].map plainName
          else []) := by
    simp only [entryOpening, Program.append_globals, map_append]
    split_ifs <;> rfl
  rw [hnames]
  exact ((List.Sublist.refl _).append (if_sublist _ _)).append (if_sublist _ _)

theorem entryOrders_names (ctx : Context) (program : Program) (inputs : List Input)
    (sizes : List (Side × Sizing)) (priceAction : List Node) :
    ((entryOrders ctx program inputs sizes priceAction).code.inputs.map Input.name).Sublist
        [plainName "InpPendingExpiryHours"] ∧
      (entryOrders ctx program inputs sizes priceAction).code.globals = [] := by
  have hneeds : ((pendingNeeds (program ++ { inputs })).inputs.map Input.name).Sublist
      [plainName "InpPendingExpiryHours"] := by
    simp only [pendingNeeds]
    split_ifs
    · exact nil_sublist _
    · exact List.Sublist.refl _
  refine ⟨?_, ?_⟩
  · simp only [entryOrders, Program.append_inputs]
    split_ifs
    all_goals simp only [append_nil]
    all_goals first | exact nil_sublist _ | exact hneeds
  · simp only [entryOrders, Program.append_globals]
    split_ifs <;> rfl

/-- The fixed names of the entry block. -/
def entryWords : List (String × String) :=
  [("InpMaxDailyProfitPct", ""), ("InpMaxDailyLossPct", ""), ("InpPendingExpiryHours", ""),
    ("lastEntryBar", ""), ("lastTradeDay", ""), ("tradesToday", ""), ("plDayStart", ""),
    ("dayStartBalance", "")]

theorem signals_declares {inputs : List Input} {q : Program}
    (hinputs : ({ inputs } : Program).Declares IsSignalInput)
    (hq : q.names.Sublist (entryWords.map (atNumber none))) :
    ({ inputs } ++ q).Declares (Ident.Named .entry) := by
  have hfixed : q.Declares (At .entry none) := .of_sublist entryWords hq (by decide)
  have hlead : ∀ w ∈ entryWords, (atNumber none w).lead ∉ signalStems := by decide
  have hother : q.Declares fun x => x.Named .entry ∧ x.lead ∉ signalStems := by
    refine ⟨fun x hx => ⟨(hfixed.named x hx).1, ?_⟩, hfixed.nodup⟩
    obtain ⟨w, hw, rfl⟩ := mem_map.mp (hq.subset hx)
    exact hlead w hw
  have hboth := hinputs.append hother fun x y hx hy htext => by
    obtain ⟨-, hsame, -⟩ := hx.1.eq_of_text_eq hy.1 htext
    exact hy.2 (hsame ▸ hx.2)
  exact ⟨fun x hx => (hboth.named x hx).elim (fun h => h.1) fun h => h.1, hboth.nodup⟩

theorem emitEntry_declares (indicators priceAction : List Node) (orders : Orders) (ctx : Context)
    (program : Program) :
    (emitEntry indicators priceAction orders ctx program).code.Declares (Ident.Named .entry) := by
  have hsignals := allConditions_declares indicators priceAction program
  rw [emitEntry]
  split
  · exact Program.declares_nil rfl
  · split
    · rename_i inputs f h
      rw [h] at hsignals
      exact ⟨fun x hx => (hsignals.named x hx).1, hsignals.nodup⟩
    · rename_i inputs c h
      rw [h] at hsignals
      have hopening := entryOpening_inputs ctx orders c
      have hglobals := entryOpening_globals ctx orders c
      simp only
      split
      · refine signals_declares hsignals ?_
        exact (hopening.append hglobals).trans (by decide)
      · rename_i sizes hsizes
        obtain ⟨horders, hnone⟩ := entryOrders_names ctx program inputs sizes priceAction
        rw [Program.append_assoc]
        refine signals_declares hsignals ?_
        rw [Program.names, Program.append_inputs, Program.append_globals, hnone, append_nil,
          map_append]
        exact (hopening.append horders).append hglobals

end TradeGraph

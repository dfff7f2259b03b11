import TradeGraph.Proofs.Ceiling
import TradeGraph.Proofs.JoinedConditions

/-!
# Confirmed bars

The newest bar of a chart still changes, so a signal at the close of a candle is to read older bars
only. What it contributes to an entry does so, unless it is the filter of a trend: that one reads
the newest value of its average. What it contributes to an exit always does so.
-/

namespace TradeGraph

open List Mql

/-! ## Bars -/

def priceFunctions : List String := ["iClose", "iHigh", "iLow"]

mutual

def Mql.Expr.bars : Expr → List Expr
  | .lit _ | .name _ => []
  | .call f args => (if f.text ∈ priceFunctions then args.drop 2 else []) ++ Expr.allBars args
  | .send _ _ args | .all args | .any args => Expr.allBars args
  | .index e k => k :: (e.bars ++ k.bars)
  | .member e _ | .not e | .neg e | .increased e | .increasing e | .cast _ e | .group e => e.bars
  | .binary _ a b => a.bars ++ b.bars
  | .choice c yes no => c.bars ++ yes.bars ++ no.bars

def Mql.Expr.allBars : List Expr → List Expr
  | [] => []
  | e :: es => e.bars ++ Expr.allBars es

end

def Mql.Expr.isClosedBar : Expr → Bool
  | .lit (.int n) => 1 ≤ n
  | _ => false

/-- Are all bars that the conditions of both sides read closed? -/
def Conditions.isConfirmed (c : Conditions) : Bool :=
  (c.buys ++ c.sells).all fun e => e.bars.all Expr.isClosedBar

/-! ## Contributions -/

section Contributions

variable {signal : Signal}

theorem Signal.barShift_of_candleClose (h : signal.signalMode = .candleClose) :
    signal.barShift = 1 := by
  rw [Signal.barShift, h]

theorem ownConditions_confirmed_iff (h : signal.signalMode = .candleClose) (i : ℕ)
    (indicator : Indicator) (limit : Ident) :
    (ownConditions i signal indicator limit).isConfirmed = true ↔
      signal.filterRole ≠ some .trend := by
  have hshift := Signal.barShift_of_candleClose h
  cases hrole : signal.filterRole with
  | some role =>
    simp only [ownConditions, hrole, hshift, ne_eq, Option.some.injEq]
    cases role with
    | trend => exact iff_of_false Bool.false_ne_true fun hne => hne rfl
    | confirm => exact iff_of_true rfl (by decide)
    | strength => exact iff_of_true rfl (by decide)
  | none =>
    refine iff_of_true ?_ (by decide)
    cases indicator with
    | movingAverage p =>
      simp only [ownConditions, hrole, Indicator.conditions, hshift]
      split <;> rfl
    | _ =>
      simp only [ownConditions, hrole, Indicator.conditions, hshift]
      rfl

theorem crossoverConditions_confirmed (fast slow : ℕ) (signal : Signal) (limit : Ident) :
    (crossoverConditions fast slow signal limit).isConfirmed = true := by
  unfold crossoverConditions
  by_cases hfar : 0.0 < signal.minEmaSeparation
  · simp only [hfar, if_true]
    rfl
  · simp only [hfar, if_false]
    rfl

theorem Indicator.reversal_confirmed (h : signal.signalMode = .candleClose) (i : ℕ)
    (indicator : Indicator) : (indicator.reversal i signal).isConfirmed = true := by
  have hshift := Signal.barShift_of_candleClose h
  cases indicator <;> simp only [Indicator.reversal, hshift] <;> rfl

end Contributions

/-! ## Programs -/

/-- The contributor is the indicator at the place, or the crossover of which that is a leg. -/
def Contributor.Has : Contributor → ℕ → Prop
  | .single i, j => j = i
  | .crossover fast slow, j => j = fast ∨ j = slow

/-- A tick of the program declares the condition of every side that has an order, joined from what
the contributors give and from what the price action nodes give. -/
structure Program.Opens (p : Program) (r : Roles) (mode : ConditionMode) (cs : List Contributor)
    (own actions : List (Expr × Expr)) : Prop where
  lists : Lists (signalsOf (indicatorEntries r.indicators)) cs
  gives : Forall₂ (Contributor.Gives (indicatorEntries r.indicators)) cs own
  acts : Forall₂ ActionGives r.priceAction.zipIdx actions
  declares : ∀ side ∈ r.orders.sides,
    (conditionVar side, joined mode ((Conditions.ofPairs (own ++ actions)).of side)) ∈
      Stmt.allFlags p.tick

/-- A tick of the program declares the close condition at a place for each of the sides, joined from
the signals of the nodes with these ids; it declares none if they have no signals. -/
structure Program.Closes (p : Program) (r : Roles) (i : ℕ) (sides : List Side) (ids : List String)
    (parts : List Conditions) : Prop where
  signals : Forall₂ (fun id part => exitSignal r.indicators r.priceAction id = .ok part) ids parts
  declares : (∃ side, ∃ part ∈ parts, part.of side ≠ []) → ∀ side ∈ sides,
    (closeCondition i side, joined .any (parts.flatMap fun part => part.of side)) ∈
      Stmt.allFlags p.tick

section Programs

variable {r : Roles} {edges : List Edge} {known : List String} {ctx : Context} {p q : Program}

theorem Run.exists_opens (h : Run (laterSteps r edges known ctx) p q)
    (hindicators : Role.All .indicator r.indicators)
    (hactions : Role.All .priceAction r.priceAction) :
    ∃ cs own actions, q.Opens r ctx.settings.conditionMode cs own actions := by
  obtain ⟨m, rest, -, rfl⟩ := h.exists_of_mem (mem_laterSteps_iff.mpr (.inl .entry))
  obtain ⟨inputs, own, actions, hall, hown, hact⟩ := allConditions_gives hindicators hactions m
  refine ⟨_, own, actions, lists_contributors _, hown, hact, fun side hside => ?_⟩
  obtain ⟨more, htick, -⟩ := emitEntry_tick hall (ne_nil_of_mem hside) ctx
  simp only [Program.append_tick, Stmt.allFlags_append, htick, entryOpening_flags, entryFlags,
    mem_append]
  exact .inl (.inr (.inl (.inl (.inl (mem_map_of_mem hside)))))

theorem Conditions.append_of (c d : Conditions) (side : Side) :
    (c ++ d).of side = c.of side ++ d.of side := by
  cases side <;> rfl

theorem exists_parts_of_exitSignals {indicators priceAction : List Node} {ids : List String} :
    ∀ {c : Conditions}, exitSignals indicators priceAction ids = .ok c →
      ∃ parts : List Conditions,
        Forall₂ (fun id part => exitSignal indicators priceAction id = .ok part) ids parts ∧
        ∀ side, c.of side = parts.flatMap fun part => part.of side := by
  induction ids with
  | nil =>
    intro c h
    cases h
    exact ⟨[], .nil, fun side => by cases side <;> rfl⟩
  | cons id ids ih =>
    intro c h
    rw [exitSignals] at h
    obtain ⟨first, rest, hfirst, hrest, rfl⟩ := of_bind₂_eq_ok h
    obtain ⟨parts, hparts, hsides⟩ := ih hrest
    refine ⟨first :: parts, .cons hfirst hparts, fun side => ?_⟩
    rw [Conditions.append_of, hsides, flatMap_cons]

theorem Run.exists_closes (h : Run (laterSteps r edges known ctx) p q) {n : Node} {i : ℕ}
    (hn : r.closeCondition[i]? = some n) {direction : Direction}
    (hp : n.data.payload = .trading (.closeCondition direction)) :
    ∃ parts, q.Closes r i direction.sides (neighbours n.id edges) parts := by
  obtain ⟨m, rest, hfault, rfl⟩ :=
    h.exists_of_mem (mem_laterSteps_iff.mpr (.inl (.closeCondition hn)))
  cases hsignals : exitSignals r.indicators r.priceAction (neighbours n.id edges) with
  | error f =>
    simp only [always, emitCloseCondition, hp, hsignals] at hfault
    cases hfault
  | ok c =>
    obtain ⟨parts, hparts, hsides⟩ := exists_parts_of_exitSignals hsignals
    refine ⟨parts, hparts, ?_⟩
    rintro ⟨other, part, hpart, hne⟩ side hside
    have hsome : ¬ (c.buys.isEmpty && c.sells.isEmpty) = true := by
      rw [Bool.and_eq_true, List.isEmpty_iff, List.isEmpty_iff]
      rintro ⟨hbuys, hsells⟩
      have hnil : c.of other = [] := by
        cases other
        · exact hbuys
        · exact hsells
      rw [hsides, flatMap_eq_nil_iff] at hnil
      exact hne (hnil part hpart)
    have hcode : (emitCloseCondition n i r.indicators r.priceAction edges).code =
        closeCode i direction.sides c := by
      simp only [emitCloseCondition, hp, hsignals, if_neg hsome]
    simp only [always, hcode, Program.append_tick, Stmt.allFlags_append, closeCode_flags, hsides,
      mem_append]
    exact .inl (.inr (mem_map_of_mem hside))

end Programs

theorem getElem?_indicatorEntries {nodes : List Node} (h : Role.All .indicator nodes) : ∀ i : ℕ,
      (indicatorEntries nodes)[i]? = nodes[i]?.bind Node.indicator? := by
  induction nodes with
  | nil => exact fun _ => rfl
  | cons n ns ih =>
    intro i
    obtain ⟨hn, hns⟩ := forall_mem_cons.mp h
    obtain ⟨signal, indicator, hp⟩ := Payload.of_role hn
    have hentry : n.indicator? = some (n, signal, indicator) := by rw [Node.indicator?, hp]
    rw [indicatorEntries, filterMap_cons_some hentry]
    cases i with
    | zero => exact hentry.symm
    | succ i => exact ih hns i

/-- **Signals at the close of a candle.** In every compiled program a live indicator of this mode
contributes to the entry, in the crossover of which it is a leg or on its own; all bars that its
condition reads are closed, unless it is on its own and is the filter of a trend. All bars that it
contributes to a close condition are closed. -/
theorem confirmed_bars_iff {g : Graph} {project : String} {options : Options} {c : Compiled}
    (h : (g.compile project options).result = .ok c) :
    ∃ cs own actions,
      c.program.Opens (Roles.ofNodes g.liveNodes) g.settings.conditionMode cs own actions ∧
      ∀ i n signal indicator, (Roles.ofNodes g.liveNodes).indicators[i]? = some n →
        n.data.payload = .indicator signal indicator → signal.signalMode = .candleClose →
        (∀ o pair, (o, pair) ∈ cs.zip own → o.Has i →
          ((Conditions.ofPairs [pair]).isConfirmed = true ↔
            o ≠ .single i ∨ signal.filterRole ≠ some .trend)) ∧
        ∀ j exit direction, (Roles.ofNodes g.liveNodes).closeCondition[j]? = some exit →
          exit.data.payload = .trading (.closeCondition direction) →
          ∃ parts, c.program.Closes (Roles.ofNodes g.liveNodes) j direction.sides
              (neighbours exit.id (expand g.nodes g.edges).edges) parts ∧
            ∀ id part, (id, part) ∈ (neighbours exit.id (expand g.nodes g.edges).edges).zip parts →
              lastIndex? (Roles.ofNodes g.liveNodes).indicators id = some i →
              part.isConfirmed = true := by
  have hindicators : ∀ n ∈ (Roles.ofNodes g.liveNodes).indicators,
      n.data.payload.role? = some .indicator := fun _ => role_of_mem
  have hrun := Graph.run_of_roles h
  obtain ⟨cs, own, actions, hopens⟩ :=
    hrun.exists_opens hindicators fun _ => role_of_mem
  rw [Graph.settings_of_compile h] at hopens
  refine ⟨cs, own, actions, hopens, fun i n signal indicator hn hp hmode => ⟨?_, ?_⟩⟩
  · intro o pair hpair hhas
    have hgives := (forall₂_iff_zip.mp hopens.gives).2 hpair
    cases o with
    | single k =>
      obtain rfl : i = k := hhas
      obtain ⟨_, _, _, limit, hentry, hown⟩ := hgives
      rw [getElem?_indicatorEntries hindicators, hn, Option.bind_some,
        Node.indicator?, hp] at hentry
      cases hentry
      rw [← hown, ownConditions_confirmed_iff hmode]
      simp
    | crossover fast slow =>
      obtain ⟨_, leg, _, limit, -, hboth⟩ := hgives
      rw [← hboth]
      exact iff_of_true (crossoverConditions_confirmed fast slow leg limit) (.inl nofun)
  · intro j exit direction hexit hdirection
    obtain ⟨parts, hcloses⟩ := hrun.exists_closes hexit hdirection
    refine ⟨parts, hcloses, fun id part hpart hplace => ?_⟩
    have hsignal := (forall₂_iff_zip.mp hcloses.signals).2 hpart
    simp only [exitSignal, hplace, hn, Option.bind_some, Node.indicator?, hp,
      Except.ok.injEq] at hsignal
    rw [← hsignal]
    exact Indicator.reversal_confirmed hmode i indicator

/-- A crossover with the filter of a trend, and a signal at the close of a candle that also closes.
-/
def filteredDocument : Json :=
  .obj [("nodes", .arr [.node "cross" "ema-crossover-entry" [("htfTrendFilter", .bool true)],
    .node "turn" "rsi" [("signalMode", .str "candle_close")], .node "back" "close-condition"]),
    ("edges", .arr [.edge "turn" "back" [("id", .str "e")]])]

def filteredGraph : Graph := filteredDocument.graph

theorem confirmed_bars_crossing :
    ∃ c, (filteredGraph.compile "Test" {}).result = .ok c ∧ ∃ cs own actions,
      c.program.Opens (Roles.ofNodes filteredGraph.liveNodes) .all cs own actions ∧
      (∀ pair, (.crossover 0 1, pair) ∈ cs.zip own ∨ (.single 3, pair) ∈ cs.zip own →
        (Conditions.ofPairs [pair]).isConfirmed = true) ∧
      ∃ parts, c.program.Closes (Roles.ofNodes filteredGraph.liveNodes) 0 [.buy, .sell]
        ["turn"] parts ∧ ∀ part, ("turn", part) ∈ ["turn"].zip parts → part.isConfirmed = true := by
  obtain ⟨c, hc⟩ := Graph.compile_ok_of_methods (g := filteredGraph) (by decide) "Test"
  obtain ⟨cs, own, actions, hopens, hplaces⟩ := confirmed_bars_iff hc
  obtain ⟨hleg, -⟩ := hplaces 0 _ _ _ rfl rfl rfl
  obtain ⟨hturn, hexits⟩ := hplaces 3 _ _ _ rfl rfl rfl
  obtain ⟨parts, hcloses, hparts⟩ := hexits 0 _ .both rfl rfl
  refine ⟨c, hc, cs, own, actions, hopens, fun pair hpair => ?_, parts, hcloses,
    fun part hpart => ?_⟩
  · rcases hpair with hpair | hpair
    · exact (hleg _ pair hpair (.inl rfl)).mpr (.inl nofun)
    · exact (hturn _ pair hpair rfl).mpr (.inr nofun)
  · exact hparts "turn" part hpart rfl

/-- The filter of a trend is a signal at the close of a candle, and reads the forming bar. -/
theorem trend_filter_unconfirmed :
    ∃ c, (compile filteredDocument "Test" {}).result = .ok c ∧
      (∃ n signal indicator, (Roles.ofNodes filteredGraph.liveNodes).indicators[2]? = some n ∧
        n.data.payload = .indicator signal indicator ∧ signal.signalMode = .candleClose) ∧
      ∃ cs own actions,
        c.program.Opens (Roles.ofNodes filteredGraph.liveNodes) .all cs own actions ∧
        ∃ pair, (.single 2, pair) ∈ cs.zip own ∧
          pair.1.text = "(DoubleGT(iClose(_Symbol, PERIOD_CURRENT, 1), ind2Buffer[0]))" := by
  have hload : Graph.load filteredDocument = .ok filteredGraph := rfl
  obtain ⟨c, hc⟩ := Graph.compile_ok_of_methods (g := filteredGraph) (by decide) "Test"
  obtain ⟨cs, own, actions, hopens⟩ := (Graph.run_of_roles hc).exists_opens
    (fun _ => role_of_mem) fun _ => role_of_mem
  rw [Graph.settings_of_compile hc] at hopens
  refine ⟨c, by rw [compile, hload]; exact hc, ⟨_, _, _, rfl, rfl, rfl⟩, cs, own,
    actions, hopens, ?_⟩
  have hmem : .single 2 ∈ cs := by
    refine (hopens.lists.single 2).mpr ⟨by decide, ?_⟩
    exact ((contributorAt_eq_single_iff (j := 2)).mp rfl).2
  rw [← map_fst_zip hopens.gives.length_eq.le] at hmem
  obtain ⟨⟨_, pair⟩, hpair, rfl⟩ := mem_map.mp hmem
  obtain ⟨_, _, _, limit, hentry, hown⟩ := (forall₂_iff_zip.mp hopens.gives).2 hpair
  rw [show (indicatorEntries (Roles.ofNodes filteredGraph.liveNodes).indicators)[2]? =
    some (_, _, _) from rfl] at hentry
  cases hentry
  have hbuy := (List.cons.inj (congrArg Conditions.buys hown)).1
  refine ⟨pair, hpair, ?_⟩
  rw [← hbuy]
  rfl

end TradeGraph

import TradeGraph.Proofs.References

/-!
# Exits as reversed entries

A close condition closes the positions of a side on the signals of the nodes that it is joined to.
For nodes that compare a price with a line, or two lines, these are the conditions on which the same
node enters the other side. Levels that are crossed into a zone, averages with a buffer, filters and
pairs of averages enter on something else.
-/

namespace TradeGraph

open List Mql

/-! ## Lines of a close condition -/

/-- The lines that close a side when one of its signals is given. -/
def sideLines (i : ℕ) (c : Conditions) (side : Side) : List String :=
  let flag := (exitName ("close" ++ side.label ++ "Condition") i).text
  ["   bool " ++ flag ++ " = " ++ (joined .any (c.of side)).text ++ ";",
    "   if(" ++ flag ++ ") Close" ++ side.label ++ "Positions();"]

/-- The lines of a close condition, given the signals that close each side. -/
def closeLines (i : ℕ) (sides : List Side) (c : Conditions) : List String :=
  if c.buys = [] ∧ c.sells = [] then
    ["", "//--- Exit Signal: no indicator or price action connected"]
  else
    ["", "//--- Exit Signal Conditions", "if(positionsCount > 0)", "\x7b"] ++
      sides.flatMap (sideLines i c) ++ ["\x7d"]

theorem closeSide_lines (i : ℕ) (c : Conditions) (side : Side) :
    indent 1 (Stmt.block (closeSide i side (c.of side))) = sideLines i c side := by
  let flag := (exitName ("close" ++ side.label ++ "Condition") i).text
  have hlines : Stmt.block (closeSide i side (c.of side)) =
      ["bool " ++ flag ++ " = " ++ (joined .any (c.of side)).text ++ ";",
        "if(" ++ flag ++ ") Close" ++ side.label ++ "Positions();"] := by
    simp [closeSide, closeCall, Stmt.block, Stmt.lines, Stmt.declare, Action.text, ifHead,
      Expr.text, Expr.texts, Library.closePositions, flag, Scope.text_plain, ← String.toList_inj]
  rw [hlines, indent_cons (by simp), indent_cons (by simp)]
  simp [indent, sideLines, flag, ← String.append_assoc]

theorem closeCode_lines (i : ℕ) (sides : List Side) (c : Conditions) :
    Stmt.block (closeCode i sides c).tick =
      ["", "//--- Exit Signal Conditions", "if(positionsCount > 0)", "\x7b"] ++
        sides.flatMap (sideLines i c) ++ ["\x7d"] := by
  have hsides : indent 1 (Stmt.block (sides.flatMap fun s => closeSide i s (c.of s))) =
      sides.flatMap (sideLines i c) := by
    rw [← funext (closeSide_lines i c)]
    simp only [Stmt.block_eq_flatMap, List.flatMap_assoc, indent, List.map_flatMap]
  rw [← hsides]
  simp [closeCode, Stmt.block, Stmt.lines, braces]
  decide

theorem emitCloseCondition_lines {n : Node} {direction : Direction}
    (hn : n.data.payload = .trading (.closeCondition direction))
    {indicators priceAction : List Node}
    {edges : List Edge} {c : Conditions}
    (hc : exitSignals indicators priceAction (neighbours n.id edges) = .ok c) (i : ℕ) :
    Stmt.block (emitCloseCondition n i indicators priceAction edges).code.tick =
      closeLines i direction.sides c := by
  simp only [emitCloseCondition, hn, hc, closeLines]
  by_cases hnone : c.buys = [] ∧ c.sells = []
  · rw [if_pos hnone, hnone.1, hnone.2]
    rfl
  · rw [if_neg (by simpa using hnone), if_neg hnone, closeCode_lines]

/-! ## Signals that turn round -/

/-- The conditions with the sides exchanged. -/
def Conditions.swap (c : Conditions) : Conditions :=
  ⟨c.sells, c.buys⟩

/-- Indicators whose signal turns round: the price beside an average, two lines, the outer bands. -/
def Indicator.turns (signal : Signal) : Indicator → Bool
  | .movingAverage _ => !signal.requireEmaBuffer
  | .macd _ | .bollingerBands _ => true
  | _ => false

/-- Price action whose signal turns round: all but breakouts of one side of a range. -/
def PriceAction.turns : PriceAction → Bool
  | .rangeBreakout p => p.breakoutDirection == .both
  | .candlestickPattern _ | .supportResistance _ => true

/-- The conditions on which the node with an id enters, if its signal turns round. An indicator must
be no filter and no leg of a pair. -/
inductive Enters (indicators priceAction : List Node) (id : String) : Conditions → Prop
  | indicator {i : Nat} {n : Node} {signal : Signal} {indicator : Indicator}
      {nodes : List (Node × Signal × Indicator)} (program : Program) :
      lastIndex? indicators id = some i → indicators.mapM Node.indicator? = some nodes →
      nodes[i]? = some (n, signal, indicator) → pairAt? (nodes.map fun (_, s, _) => s) i = none →
      signal.filterRole = none → indicator.turns signal = true →
      Enters indicators priceAction id
        (indicatorPart nodes i (n, signal, indicator) program).conditions
  | priceAction {i : Nat} {n : Node} {timeframe : Option String} {action : PriceAction} :
      lastIndex? indicators id = none → lastIndex? priceAction id = some i →
      priceAction[i]? = some n → n.data.payload = .priceAction timeframe action →
      action.turns = true → Enters indicators priceAction id (action.conditions i)

variable {indicators priceAction : List Node} {id : String} {c : Conditions}

theorem Indicator.reversal_eq_swap {signal : Signal} {indicator : Indicator}
    (h : indicator.turns signal = true) (i : Nat) :
    indicator.reversal i signal = (indicator.conditions i signal).swap := by
  cases indicator <;> first | rfl | cases h

theorem PriceAction.reversal_eq_swap {action : PriceAction} (h : action.turns = true) (i : Nat) :
    action.reversal i = (action.conditions i).swap := by
  cases action with
  | rangeBreakout p =>
    have hboth : p.breakoutDirection = .both := beq_iff_eq.mp h
    simp only [PriceAction.reversal, PriceAction.conditions, Conditions.swap, hboth]
    rfl
  | _ => rfl

theorem indicatorPart_conditions {i : Nat} {n : Node} {signal : Signal} {indicator : Indicator}
    {nodes : List (Node × Signal × Indicator)}
    (hpair : pairAt? (nodes.map fun (_, s, _) => s) i = none) (hfilter : signal.filterRole = none)
    (h : indicator.turns signal = true) (program : Program) :
    (indicatorPart nodes i (n, signal, indicator) program).conditions =
      indicator.conditions i signal := by
  simp only [indicatorPart, hpair, hfilter]
  cases indicator with
  | movingAverage p =>
    have hbuffer : signal.requireEmaBuffer = false := by simpa [Indicator.turns] using h
    simp [hbuffer]
  | _ => rfl

theorem Enters.exitSignal_eq (h : Enters indicators priceAction id c) :
    exitSignal indicators priceAction id = .ok c.swap := by
  cases h with
  | @indicator i n signal indicator nodes program hplace hnodes hn hpair hfilter hturns =>
    obtain ⟨m, hm, hentry⟩ := getElem?_of_mapM_indicator? hnodes hn
    simp only [exitSignal, hplace, hm, Option.bind_some, hentry,
      indicatorPart_conditions hpair hfilter hturns, Indicator.reversal_eq_swap hturns]
  | @priceAction i n timeframe action hnone hplace hn hpayload hturns =>
    simp only [exitSignal, hnone, hplace, hn, hpayload, PriceAction.reversal_eq_swap hturns]

theorem Enters.ne_nil (h : Enters indicators priceAction id c) : c.buys ≠ [] := by
  cases h with
  | @indicator i n signal indicator nodes program hplace hnodes hn hpair hfilter hturns =>
    rw [indicatorPart_conditions hpair hfilter hturns]
    cases indicator <;> exact cons_ne_nil _ _
  | @priceAction i n timeframe action hnone hplace hn hpayload hturns =>
    cases action <;> exact cons_ne_nil _ _

theorem exitSignals_append {ids rest : List String} {d : Conditions}
    (hc : exitSignals indicators priceAction ids = .ok c)
    (hd : exitSignals indicators priceAction rest = .ok d) :
    exitSignals indicators priceAction (ids ++ rest) = .ok (c ++ d) := by
  induction ids generalizing c with
  | nil =>
    cases hc
    exact hd
  | cons id ids ih =>
    obtain ⟨first, more, hfirst, hmore, rfl⟩ := of_bind₂_eq_ok hc
    rw [cons_append, exitSignals, hfirst, ih hmore]
    exact congrArg Except.ok (congrArg₂ Conditions.mk (append_assoc ..).symm
      (append_assoc ..).symm)

/-- **Exits are the reverse of entries.** A node whose signal turns round closes buys on the very
conditions on which it enters sells, and sells on those on which it enters buys. They stand among
the conditions of every close condition that is joined to the node, at the place of the node among
the neighbours, and its lines declare and test the disjunctions of these conditions. -/
theorem exits_reverse_entries (h : Enters indicators priceAction id c) :
    exitSignal indicators priceAction id = .ok ⟨c.sells, c.buys⟩ ∧
    ∀ exit direction, exit.data.payload = .trading (.closeCondition direction) →
      ∀ edges before after, neighbours exit.id edges = before ++ id :: after →
        ∀ b a, exitSignals indicators priceAction before = .ok b →
          exitSignals indicators priceAction after = .ok a →
          ∀ j, let closing : Conditions :=
              ⟨b.buys ++ c.sells ++ a.buys, b.sells ++ c.buys ++ a.sells⟩
            emitCloseCondition exit j indicators priceAction edges =
              { code := closeCode j direction.sides closing } ∧
            Stmt.block (closeCode j direction.sides closing).tick =
              ["", "//--- Exit Signal Conditions", "if(positionsCount > 0)", "\x7b"] ++
                direction.sides.flatMap (sideLines j closing) ++ ["\x7d"] := by
  refine ⟨h.exitSignal_eq, fun exit direction hexit edges before after hjoined b a hb ha j =>
    ⟨?_, closeCode_lines ..⟩⟩
  have hrest : exitSignals indicators priceAction (id :: after) = .ok (c.swap ++ a) := by
    rw [exitSignals, h.exitSignal_eq, ha]
    rfl
  have hsome : (b ++ (c.swap ++ a)).sells.isEmpty = false := by
    refine isEmpty_eq_false_iff.mpr fun hnone => h.ne_nil ?_
    exact (append_eq_nil_iff.mp (append_eq_nil_iff.mp hnone).2).1
  simp only [emitCloseCondition, hexit, hjoined, exitSignals_append hb hrest, hsome, Bool.and_false,
    Bool.false_eq_true, if_false, append_assoc]
  rfl

def linesNode : Node where
  id := "lines"
  type := "macd"
  data := { common := default, payload := .indicator default (.macd default) }

def closeNode : Node where
  id := "exit"
  type := "close-condition"
  data := { common := default, payload := .trading (.closeCondition .both) }

theorem exits_reverse_entries_lines :
    ∃ c, Enters [linesNode] [] "lines" c ∧
      emitCloseCondition closeNode 0 [linesNode] [] [⟨"e", "lines", "exit"⟩] =
        { code := closeCode 0 [.buy, .sell] ⟨c.sells, c.buys⟩ } ∧
      "   bool closeBuyCondition = " ++ (joined .any c.sells).text ++ ";" ∈
        Stmt.block (closeCode 0 [.buy, .sell] ⟨c.sells, c.buys⟩).tick := by
  have hnodes : [linesNode].mapM Node.indicator? = some [(linesNode, default, .macd default)] := rfl
  have henters : Enters [linesNode] [] "lines" _ :=
    .indicator (i := 0) {} rfl hnodes rfl rfl rfl rfl
  obtain ⟨hcode, hlines⟩ := (exits_reverse_entries henters).2 closeNode .both rfl
    [⟨"e", "lines", "exit"⟩] [] [] rfl {} {} rfl rfl 0
  simp only [append_nil, nil_append, Direction.sides] at hcode hlines
  have hflag : "   bool closeBuyCondition = " =
      "   bool " ++ (exitName ("close" ++ Side.buy.label ++ "Condition") 0).text ++ " = " := by
    decide
  refine ⟨_, henters, hcode, ?_⟩
  rw [hlines, hflag]
  exact mem_append_left _ (mem_append_right _ mem_cons_self)

end TradeGraph

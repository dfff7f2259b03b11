import TradeGraph.Proofs.ClosedEntry
import TradeGraph.Proofs.Expansion

/-!
# Markers of entry strategies

Some fields of an indicator say which part it plays in an entry strategy: its strategy, its role and
what it filters. Expansion sets them, and only on indicators of the kind that fits. So if no node of
the document sets them, the markers of all live indicators fit their kinds.
-/

namespace TradeGraph

open List Mql

/-! ## Markers -/

/-- No marker is set. -/
structure Signal.Unmarked (s : Signal) : Prop where
  filterRole : s.filterRole = none
  role : s.role = none
  strategyType : s.entryStrategyType = none
  strategyId : s.entryStrategyId = none

/-- If the node is an indicator, no marker is set. -/
def Node.Unmarked (n : Node) : Prop :=
  ∀ signal indicator, n.data.payload = .indicator signal indicator → signal.Unmarked

instance : DecidablePred Signal.Unmarked := fun s =>
  decidable_of_iff (s.filterRole = none ∧ s.role = none ∧ s.entryStrategyType = none ∧
    s.entryStrategyId = none)
    ⟨fun ⟨hfilter, hrole, htype, hid⟩ => ⟨hfilter, hrole, htype, hid⟩,
      fun ⟨hfilter, hrole, htype, hid⟩ => ⟨hfilter, hrole, htype, hid⟩⟩

instance : DecidablePred Node.Unmarked := fun n =>
  decidable_of_iff (∀ x ∈ n.indicator?.toList, x.2.1.Unmarked) <| by
    cases h : n.data.payload with
    | indicator s a => simp [Node.Unmarked, Node.indicator?, h]
    | _ => simp [Node.Unmarked, Node.indicator?, h]

/-- The kind of indicator that a filter looks at. -/
def FilterRole.Fits : FilterRole → Indicator → Prop
  | .trend, a => ∃ p, a = .movingAverage p
  | .confirm, a => ∃ p, a = .rsi p
  | .strength, a => ∃ p, a = .adx p

/-- A filter looks at an indicator of its kind, and the legs of a crossover are moving averages. -/
structure Signal.Fits (s : Signal) (a : Indicator) : Prop where
  filter : ∀ role, s.filterRole = some role → role.Fits a
  leg : s.leg?.isSome = true → ∃ p, a = .movingAverage p

theorem Signal.Unmarked.fits {s : Signal} (h : s.Unmarked) (a : Indicator) : s.Fits a where
  filter role hrole := by
    rw [h.filterRole] at hrole
    cases hrole
  leg hleg := by
    rw [Signal.leg?, h.strategyType] at hleg
    cases hleg

/-! ## Expanded nodes -/

theorem Signal.role_of_leg {s : Signal} (h : s.leg?.isSome = true) :
    s.role = some "fast" ∨ s.role = some "slow" := by
  unfold Signal.leg? at h
  split at h
  · rename_i role htype hid hrole
    rw [hrole]
    by_cases hfast : role = "fast"
    · exact .inl (congrArg some hfast)
    by_cases hslow : role = "slow"
    · exact .inr (congrArg some hslow)
    simp [hfast, hslow] at h
  · cases h

theorem Signal.fits_of_role {s : Signal} {a : Indicator} {role : String}
    (hrole : s.role = some role) (hother : role ≠ "fast" ∧ role ≠ "slow")
    (hfilter : ∀ f, s.filterRole = some f → f.Fits a) : s.Fits a where
  filter := hfilter
  leg hleg := by
    rcases Signal.role_of_leg hleg with h | h
    · exact absurd (Option.some.inj (hrole.symm.trans h)) hother.1
    · exact absurd (Option.some.inj (hrole.symm.trans h)) hother.2

def Part.Fits (p : Part) : Prop :=
  ∀ signal indicator, p.payload = .indicator signal indicator → signal.Fits indicator

theorem Origin.signals_fit (o : Origin) (plan : EntryPlan) (signals : EntrySignals) :
    ∀ p ∈ o.signals plan signals, p.Fits := by
  cases signals
  -- one goal for each signal
  all_goals
    simp only [Origin.signals, Origin.emaCrossover, Origin.trendPullback, Origin.rsiReversal,
      Origin.macdCrossover, Origin.rangeBreakout, Origin.trendFilter, mem_append, mem_cons,
      not_mem_nil, mem_ite_nil_right, or_false, or_imp, and_imp, forall_and, forall_eq]
    and_intros
  all_goals
    intros
    subst_vars
    rintro _ _ ⟨⟩
  -- the two legs of a crossover are averages; what is no leg has another role
  · exact ⟨fun _ h => (by cases h), fun _ => ⟨_, rfl⟩⟩
  · exact ⟨fun _ h => (by cases h), fun _ => ⟨_, rfl⟩⟩
  all_goals
    refine Signal.fits_of_role rfl (by decide) fun f hf => ?_
    cases hf
  all_goals exact ⟨_, rfl⟩

theorem fits_of_mem_expandNode {c v : Node} (hc : c.isComposite = true) (hv : v ∈ expandNode c) :
    ∀ signal indicator, v.data.payload = .indicator signal indicator → signal.Fits indicator := by
  obtain ⟨plan, signals, hp⟩ := Node.isComposite_iff.mp hc
  rw [expandNode_eq_parts hp] at hv
  obtain ⟨p, hmem, rfl⟩ := mem_map.mp hv
  refine Origin.forall_mem_parts (P := Part.Fits)
    (c.origin.signals_fit plan signals) ?_ ?_ ?_ p hmem
  · rintro _ _ _ ⟨⟩
  · rintro _ _ ⟨⟩
  · rintro _ _ ⟨⟩

/-- **Live indicators fit** if no node of the graph sets a marker. -/
theorem Graph.fits_of_mem_liveNodes {g : Graph} (h : ∀ n ∈ g.nodes, n.Unmarked) {v : Node}
    (hv : v ∈ g.liveNodes) :
    ∀ signal indicator, v.data.payload = .indicator signal indicator → signal.Fits indicator := by
  have hv : v ∈ (expand g.nodes g.edges).nodes := (mem_filter.mp hv).1
  obtain ⟨c, hc, hv⟩ := mem_flatMap.mp hv
  cases hcomp : c.isComposite with
  | true => exact fits_of_mem_expandNode hcomp hv
  | false =>
    rw [expandNode_other hcomp, mem_singleton] at hv
    subst hv
    exact fun signal indicator hpayload => (h v hc signal indicator hpayload).fits indicator

end TradeGraph

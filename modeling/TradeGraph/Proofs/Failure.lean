import TradeGraph.Proofs.Emission
import TradeGraph.Proofs.Expansion

/-!
# When a compile fails

Nodes are sorted by what they are, so a generator is only ever given nodes that it knows. What is
left to fail is the first stop loss: it may name an indicator that does not exist, or have none
where one is demanded, or measure a range where there is none.
-/

namespace TradeGraph

open List

variable {indicators nodes priceAction : List Node} {n : Node} {q : Payload} {id : String}
variable {role : Role} {orders : Orders} {side : Side} {document : Json}

/-! ## Roles -/

theorem role_of_mem (h : n ∈ withRole role nodes) :
    n.data.payload.role? = some role :=
  beq_iff_eq.mp (mem_filter.mp h).2

def Role.Takes : Role → Payload → Prop
  | .timing, q => ∃ useServerTime rule, q = .timing useServerTime rule
  | .spread, q => ∃ p, q = .filter p
  | .indicator, q => ∃ signal indicator, q = .indicator signal indicator
  | .priceAction, q => ∃ timeframe action, q = .priceAction timeframe action
  | .buy, q => ∃ s, q = .trading (.order .buy s)
  | .sell, q => ∃ s, q = .trading (.order .sell s)
  | .stopLoss, q => ∃ p, q = .trading (.stopLoss p)
  | .takeProfit, q => ∃ p, q = .trading (.takeProfit p)
  | .closeCondition, q => ∃ direction, q = .trading (.closeCondition direction)
  | .timeExit, q => ∃ p, q = .trading (.timeExit p)
  | .management, q => ∃ rule, q = .management rule

abbrev Role.All (role : Role) (nodes : List Node) : Prop :=
  ∀ n ∈ nodes, n.data.payload.role? = some role

theorem Payload.of_role (h : q.role? = some role) : role.Takes q := by
  unfold Payload.role? at h
  split at h <;> cases h <;> first | exact ⟨_, rfl⟩ | exact ⟨_, _, rfl⟩

theorem Payload.role?_eq_none (h : q.role? = none) : q.kind.category = .entryStrategy := by
  unfold Payload.role? at h
  split at h
  case h_12 plan signals => cases signals <;> rfl
  all_goals cases h

theorem Graph.sort_liveNodes (g : Graph) :
    Roles.sort g.liveNodes = .ok (Roles.ofNodes g.liveNodes) := by
  have hall : ∀ v ∈ g.liveNodes, v.data.payload.role?.isNone = false := by
    intro v hv
    have hv : v ∈ (expand g.nodes g.edges).nodes := (mem_filter.mp hv).1
    obtain ⟨c, -, hv⟩ := mem_flatMap.mp hv
    have hplain : v.category ≠ .entryStrategy := by
      cases hcomp : c.isComposite with
      | true =>
        intro hcat
        have hmem := category_of_mem_expandNode hcomp hv
        rw [hcat] at hmem
        revert hmem
        decide
      | false =>
        rw [expandNode_other hcomp, mem_singleton] at hv
        subst hv
        exact beq_eq_false_iff_ne.mp hcomp
    rw [Option.isNone_eq_false_iff, Option.isSome_iff_ne_none]
    exact fun hnone => hplain (Payload.role?_eq_none hnone)
  rw [Roles.sort, find?_eq_none.mpr fun v hv => by rw [hall v hv]; decide]

def Graph.context (g : Graph) (project : String) (options : Options) : Context :=
  Context.build project g.settings options (Roles.ofNodes g.liveNodes).timing

/-- How a compile ends, given what its steps emit. -/
def Emission.outcome (e : Emission) (ctx : Context) : Except Fault Compiled :=
  match e.fault with
  | some f => .error f
  | none => .ok { program := e.code, context := ctx }

theorem Graph.compile_eq_outcome (g : Graph) (project : String) (options : Options) :
    (g.compile project options).result =
      (g.emission (Roles.ofNodes g.liveNodes) (g.context project options)).outcome
        (g.context project options) := by
  rw [Graph.compile_result, Graph.sort_liveNodes]
  rfl

/-! ## Steps that never fail -/

/-- The step never fails. -/
def Safe (s : Step) : Prop :=
  ∀ program, (s program).fault = none

/-- Of steps that are safe, one apart, only that one can fail; if it is there it decides. -/
theorem fault_inOrder {e : Emission} :
    ∀ {ss : List Step} {p : Program}, (∀ s ∈ ss, Safe s ∨ s = always e) →
      ((Emission.inOrder ss p).fault = none ∨ (Emission.inOrder ss p).fault = e.fault) ∧
        (always e ∈ ss → (Emission.inOrder ss p).fault = e.fault)
  | [], p, _ => ⟨.inl rfl, by simp⟩
  | s :: ss, p, h => by
    obtain ⟨hrest, hthere⟩ := fault_inOrder (p := p ++ (s p).code) fun t ht =>
      h t (mem_cons_of_mem _ ht)
    rw [Emission.inOrder]
    rcases h s mem_cons_self with hsafe | rfl
    · simp only [hsafe p]
      refine ⟨hrest, fun hmem => ?_⟩
      rcases mem_cons.mp hmem with rfl | hmem
      · -- the step is safe and the one that decides
        have hnone : e.fault = none := hsafe p
        rw [hnone] at hrest ⊢
        exact hrest.elim id id
      · exact hthere hmem
    · cases hfault : e.fault with
      | some f =>
        have hstop : (always e p).fault = some f := hfault
        simp only [hstop]
        exact ⟨.inr trivial, fun _ => trivial⟩
      | none =>
        have hgo : (always e p).fault = none := hfault
        rw [hfault] at hrest
        simp only [hgo]
        exact ⟨hrest, fun _ => hrest.elim id id⟩

theorem fault_inOrder_of_safe {ss : List Step} {p : Program} (h : ∀ s ∈ ss, Safe s) :
    (Emission.inOrder ss p).fault = none := by
  have hnone : ∀ s ∈ ss, Safe s ∨ s = always {} := fun s hs => .inl (h s hs)
  exact (fault_inOrder hnone).1.elim id id

theorem timingBody_ok (h : n.data.payload.role? = some .timing) (flag : Mql.Ident) :
    ∃ body, timingBody n flag = .ok body := by
  obtain ⟨useServerTime, rule, hp⟩ := Payload.of_role h
  cases rule <;> exact ⟨_, by rw [timingBody, hp]⟩

theorem timingScopes_fault : ∀ {nodes : List Node} {k : Nat},
    Role.All .timing nodes → (timingScopes k nodes).2 = none
  | [], _, _ => rfl
  | n :: ns, k, h => by
    obtain ⟨body, hbody⟩ := timingBody_ok (h n mem_cons_self) "_t"
    rw [timingScopes, hbody]
    exact timingScopes_fault fun m hm => h m (mem_cons_of_mem _ hm)

theorem emitTiming_fault (h : Role.All .timing nodes) :
    (emitTiming nodes).fault = none := by
  unfold emitTiming
  split
  · rfl
  · rename_i n
    obtain ⟨body, hbody⟩ := timingBody_ok (h n mem_cons_self) "isTradingTime"
    rw [hbody]
  · have hscopes : (timingScopes 0 nodes).2 = none := timingScopes_fault h
    simp only [hscopes]

theorem emitCloseTimeGate_fault (nodes : List Node) (ctx : Context) (program : Program) :
    (emitCloseTimeGate nodes ctx program).fault = none := by
  unfold emitCloseTimeGate
  split <;> rfl

/-- The nodes that are indicators, as such. -/
def indicatorEntries (nodes : List Node) : List (Node × Signal × Indicator) :=
  nodes.filterMap Node.indicator?

theorem mapM_indicatorEntries : ∀ {nodes : List Node},
    Role.All .indicator nodes → nodes.mapM Node.indicator? = some (indicatorEntries nodes) ∧
        (indicatorEntries nodes).length = nodes.length
  | [], _ => ⟨rfl, rfl⟩
  | n :: ns, h => by
    obtain ⟨hn, hns⟩ := forall_mem_cons.mp h
    obtain ⟨signal, indicator, hp⟩ := Payload.of_role hn
    obtain ⟨hrest, hlength⟩ := mapM_indicatorEntries hns
    have hentry : n.indicator? = some (n, signal, indicator) := by rw [Node.indicator?, hp]
    have hcons : indicatorEntries (n :: ns) = (n, signal, indicator) :: indicatorEntries ns :=
      filterMap_cons_some hentry
    rw [hcons, mapM_cons, hentry, hrest]
    exact ⟨rfl, congrArg (· + 1) hlength⟩

theorem priceActionParts_ok : ∀ {nodes : List Node} {i : Nat},
    Role.All .priceAction nodes → ∃ c, priceActionParts i nodes = .ok c
  | [], _, _ => ⟨{}, rfl⟩
  | n :: ns, i, h => by
    obtain ⟨timeframe, action, hp⟩ := Payload.of_role (h n mem_cons_self)
    obtain ⟨rest, hrest⟩ := priceActionParts_ok (i := i + 1) fun m hm =>
      h m (mem_cons_of_mem _ hm)
    refine ⟨action.conditions i ++ rest, ?_⟩
    rw [priceActionParts, hp]
    simp only [hrest]
    rfl

theorem allConditions_ok (program : Program)
    (hindicators : Role.All .indicator indicators) (hactions : Role.All .priceAction priceAction) :
    ∃ c, (allConditions indicators priceAction program).2 = .ok c := by
  obtain ⟨hentries, -⟩ := mapM_indicatorEntries hindicators
  obtain ⟨c, hc⟩ := priceActionParts_ok (i := 0) hactions
  simp only [allConditions, hentries, hc]
  exact ⟨_, rfl⟩

def Orders.sides (o : Orders) : List Side :=
  (if o.buy.isSome then [.buy] else []) ++ (if o.sell.isSome then [.sell] else [])

theorem orderSizes_ok
    (h : ∀ side n, orders.of side = some n → ∃ s, n.sizing? = some s) :
    ∃ sizes, orderSizes orders = .ok sizes ∧ sizes.map Prod.fst = orders.sides ∧
      ∀ x ∈ sizes, ∃ n, orders.of x.1 = some n ∧ n.sizing? = some x.2 := by
  obtain ⟨buy, sell⟩ := orders
  have hbuy := h .buy
  have hsell := h .sell
  cases buy with
  | none =>
    cases sell with
    | none => exact ⟨[], rfl, rfl, by simp⟩
    | some n =>
      obtain ⟨s, hs⟩ := hsell n rfl
      exact ⟨[(.sell, s)], by simp [orderSizes, hs]; rfl, rfl, by simp [Orders.of, hs]⟩
  | some m =>
    obtain ⟨t, ht⟩ := hbuy m rfl
    cases sell with
    | none => exact ⟨[(.buy, t)], by simp [orderSizes, ht]; rfl, rfl, by simp [Orders.of, ht]⟩
    | some n =>
      obtain ⟨s, hs⟩ := hsell n rfl
      exact ⟨[(.buy, t), (.sell, s)], by simp [orderSizes, ht, hs]; rfl, rfl,
        by simp [Orders.of, ht, hs]⟩

theorem emitEntry_safe {ctx : Context}
    (hindicators : Role.All .indicator indicators) (hactions : Role.All .priceAction priceAction)
    (horders : ∀ side n, orders.of side = some n → ∃ s, n.sizing? = some s) :
    Safe (emitEntry indicators priceAction orders ctx) := by
  intro program
  rw [emitEntry]
  split
  · rfl
  · obtain ⟨c, hc⟩ := allConditions_ok program hindicators hactions
    obtain ⟨sizes, hsizes, -⟩ := orderSizes_ok horders
    cases hall : allConditions indicators priceAction program with
    | mk inputs result =>
      rw [hall] at hc
      subst hc
      simp only [hsizes]

theorem lastIndex?_lt {i : Nat} (h : lastIndex? nodes id = some i) :
    ∃ n, nodes[i]? = some n ∧ n.id = id := by
  obtain ⟨⟨n, j⟩, hlast, rfl⟩ := Option.map_eq_some_iff.mp h
  obtain ⟨hmem, hid⟩ := mem_filter.mp (mem_of_getLast? hlast)
  exact ⟨n, mem_zipIdx_iff_getElem?.mp hmem, beq_iff_eq.mp hid⟩

theorem exitSignal_ok (id : String)
    (hindicators : Role.All .indicator indicators) (hactions : Role.All .priceAction priceAction) :
    ∃ c, exitSignal indicators priceAction id = .ok c := by
  rw [exitSignal]
  cases hlast : lastIndex? indicators id with
  | some i =>
    obtain ⟨n, hn, -⟩ := lastIndex?_lt hlast
    obtain ⟨signal, indicator, hp⟩ :=
      Payload.of_role (hindicators n (mem_of_getElem? hn))
    exact ⟨indicator.reversal i signal, by simp only [hn, Option.bind_some, Node.indicator?, hp]⟩
  | none =>
    simp only
    cases hlast : lastIndex? priceAction id with
    | none => exact ⟨_, rfl⟩
    | some i =>
      obtain ⟨n, hn, -⟩ := lastIndex?_lt hlast
      obtain ⟨timeframe, action, hp⟩ :=
        Payload.of_role (hactions n (mem_of_getElem? hn))
      exact ⟨action.reversal i, by simp only [hn, hp]⟩

theorem exitSignals_ok (hindicators : Role.All .indicator indicators)
    (hactions : Role.All .priceAction priceAction) :
    ∀ ids : List String, ∃ c, exitSignals indicators priceAction ids = .ok c
  | [] => ⟨_, rfl⟩
  | id :: ids => by
    obtain ⟨c, hc⟩ := exitSignal_ok id hindicators hactions
    obtain ⟨rest, hrest⟩ := exitSignals_ok hindicators hactions ids
    exact ⟨_, by rw [exitSignals, hc, hrest]; rfl⟩

/-! ## Planned steps -/

section Planned

variable {nodes : List Node} {edges : List Edge} {known : List String} {ctx : Context}

theorem payload_of_order (h : (Roles.ofNodes nodes).orders.of side = some n) :
    n ∈ nodes ∧ ∃ s, n.data.payload = .trading (.order side s) := by
  have hmem : n ∈ withRole (if side = .buy then .buy else .sell) nodes := by
    cases side <;> exact mem_of_head? h
  refine ⟨(mem_filter.mp hmem).1, ?_⟩
  cases side <;> exact Payload.of_role (role_of_mem hmem)

theorem sizing_of_order (h : (Roles.ofNodes nodes).orders.of side = some n) :
    ∃ s, n.sizing? = some s := by
  obtain ⟨-, s, hp⟩ := payload_of_order h
  exact ⟨s, by rw [Node.sizing?, hp]⟩

theorem Planned.safe_or_stop {s : Step} (h : Planned (Roles.ofNodes nodes) edges known ctx s) :
    Safe s ∨ ∃ n, (Roles.ofNodes nodes).hasEntry = true ∧
      (Roles.ofNodes nodes).stopLoss.head? = some n ∧
      s = always (emitStopLoss n (Roles.ofNodes nodes).indicators (Roles.ofNodes nodes).priceAction
        edges known ctx) := by
  have hindicators : Role.All .indicator (withRole .indicator nodes) :=
    fun _ => role_of_mem
  have hactions : Role.All .priceAction (withRole .priceAction nodes) :=
    fun _ => role_of_mem
  cases h with
  | spread =>
    refine .inl fun program => ?_
    show (emitSpread _).fault = none
    unfold emitSpread
    split <;> rfl
  | timing => exact .inl fun _ => emitTiming_fault fun _ => role_of_mem
  | closeTimeGate => exact .inl fun program => emitCloseTimeGate_fault _ _ program
  | @indicator n i hn =>
    obtain ⟨signal, indicator, hp⟩ :=
      Payload.of_role (hindicators n (mem_of_getElem? hn))
    exact .inl fun _ => by simp only [always, emitIndicator, hp]
  | @priceAction n i hn =>
    obtain ⟨timeframe, action, hp⟩ :=
      Payload.of_role (hactions n (mem_of_getElem? hn))
    exact .inl fun _ => by simp only [always, emitPriceAction, hp]
  | @stopLoss n hentry hn => exact .inr ⟨n, hentry, hn, rfl⟩
  | noStop => exact .inl fun _ => rfl
  | @takeProfit n _ hn =>
    have hrole := role_of_mem (mem_of_head? hn)
    obtain ⟨p, hp⟩ := Payload.of_role hrole
    exact .inl fun _ => by simp only [emitTakeProfit, hp]
  | noTarget => exact .inl fun _ => rfl
  | @order side n hn =>
    obtain ⟨-, s, hp⟩ := payload_of_order hn
    exact .inl fun _ => by simp only [emitOrder, hp]
  | entry =>
    exact .inl (emitEntry_safe hindicators hactions fun _ _ => sizing_of_order)
  | @closeCondition n i hn =>
    obtain ⟨d, hp⟩ := Payload.of_role (role_of_mem (mem_of_getElem? hn))
    obtain ⟨c, hc⟩ : ∃ c, exitSignals (Roles.ofNodes nodes).indicators
        (Roles.ofNodes nodes).priceAction (neighbours n.id edges) = .ok c :=
      exitSignals_ok hindicators hactions _
    refine .inl fun _ => ?_
    simp only [always, emitCloseCondition, hp, hc]
    split <;> rfl
  | @timeExit n i hn =>
    obtain ⟨p, hp⟩ := Payload.of_role (role_of_mem (mem_of_getElem? hn))
    exact .inl fun _ => by simp only [emitTimeExit, hp]

theorem emitManagement_safe (hn : n ∈ (Roles.ofNodes nodes).management) :
    Safe (emitManagement n) := by
  obtain ⟨rule, hp⟩ := Payload.of_role (role_of_mem hn)
  exact fun _ => by simp only [emitManagement, hp]

theorem emitPass_safe : Safe emitPass := by
  intro program
  rw [emitPass]
  split <;> rfl

end Planned

/-! ## The stop -/

theorem mem_firstOnes {x : String} : ∀ {ids seen : List String},
    x ∈ firstOnes seen ids ↔ x ∈ ids ∧ x ∉ seen
  | [], _ => by simp [firstOnes]
  | id :: ids, seen => by
    rw [firstOnes]
    by_cases hseen : id ∈ seen
    · simp only [contains_iff_mem.mpr hseen, if_true, mem_firstOnes, mem_cons]
      constructor
      · rintro ⟨hx, hnew⟩
        exact ⟨.inr hx, hnew⟩
      · rintro ⟨rfl | hx, hnew⟩
        · exact absurd hseen hnew
        · exact ⟨hx, hnew⟩
    · have hcontains : seen.contains id = false := by simpa using hseen
      simp only [hcontains, Bool.false_eq_true, if_false, mem_firstOnes, mem_cons, not_or]
      constructor
      · rintro (rfl | ⟨hx, -, hnew⟩)
        · exact ⟨.inl rfl, hseen⟩
        · exact ⟨.inr hx, hnew⟩
      · rintro ⟨rfl | hx, hnew⟩
        · exact .inl rfl
        · by_cases heq : x = id
          · exact .inl heq
          · exact .inr ⟨hx, heq, hnew⟩

theorem mem_neighbours {x : String} {edges : List Edge} :
    x ∈ neighbours id edges ↔ Joined edges id x ∨ Joined edges x id := by
  simp only [neighbours, mem_firstOnes, mem_filterMap, not_mem_nil, not_false_eq_true,
    and_true]
  constructor
  · rintro ⟨e, he, hother⟩
    rw [Edge.other?] at hother
    split at hother
    case isTrue hsource =>
      cases hother
      exact .inl ⟨e, he, beq_iff_eq.mp hsource, rfl⟩
    case isFalse =>
      split at hother
      case isTrue htarget =>
        cases hother
        exact .inr ⟨e, he, rfl, beq_iff_eq.mp htarget⟩
      case isFalse => cases hother
  · rintro (⟨e, he, rfl, rfl⟩ | ⟨e, he, rfl, rfl⟩)
    · exact ⟨e, he, by simp [Edge.other?]⟩
    · refine ⟨e, he, ?_⟩
      by_cases hloop : e.source = e.target <;> simp [Edge.other?, hloop]

theorem lastIndex?_isSome : (lastIndex? nodes id).isSome = true ↔ ∃ n ∈ nodes, n.id = id := by
  constructor
  · intro h
    obtain ⟨i, hi⟩ := Option.isSome_iff_exists.mp h
    obtain ⟨n, hn, hid⟩ := lastIndex?_lt hi
    exact ⟨n, mem_of_getElem? hn, hid⟩
  · rintro ⟨n, hn, rfl⟩
    obtain ⟨i, hi⟩ := getElem?_of_mem hn
    rw [lastIndex?, Option.isSome_map, Option.isSome_iff_ne_none, Ne, getLast?_eq_none_iff]
    exact ne_nil_of_mem (a := (n, i))
      (mem_filter.mpr ⟨mem_zipIdx_iff_getElem?.mpr hi, beq_self_eq_true n.id⟩)

/-- The name of an indicator that a stop gives; the empty text is no name. -/
def StopLoss.reference? (p : StopLoss) : Option String :=
  p.indicatorNodeId.filter fun name => !name.isEmpty

/-- The node is one that a stop refers to: the stop names it or is joined to it. -/
def RefersTo (edges : List Edge) (id : String) (p : StopLoss) (m : Node) : Prop :=
  p.reference? = some m.id ∨ Joined edges id m.id ∨ Joined edges m.id id

section Stop

variable {known : List String} {p : StopLoss}

theorem linked_spec (indicators : List Node) (edges : List Edge) (id : String) :
    let place := (neighbours id edges).findSome? (lastIndex? indicators)
    (∀ i, place = some i → ∃ m, indicators[i]? = some m) ∧
      (place.isSome = true ↔
        ∃ m ∈ indicators, Joined edges id m.id ∨ Joined edges m.id id) := by
  constructor
  · intro i hi
    obtain ⟨x, -, hx⟩ := exists_of_findSome?_eq_some hi
    obtain ⟨m, hm, -⟩ := lastIndex?_lt hx
    exact ⟨m, hm⟩
  · simp only [findSome?_isSome_iff, lastIndex?_isSome, mem_neighbours]
    constructor
    · rintro ⟨x, hjoined, m, hm, rfl⟩
      exact ⟨m, hm, hjoined⟩
    · rintro ⟨m, hm, hjoined⟩
      exact ⟨m.id, hjoined, m, hm, rfl⟩

theorem stopIndicator_of_unknown {name : String} {edges : List Edge}
    (hname : p.reference? = some name) (hknown : name ∉ known) :
    stopIndicator id p indicators edges known = .error (.inNode id (.unknownIndicator name)) := by
  obtain ⟨hid, hne⟩ := Option.filter_eq_some_iff.mp hname
  have hempty : name.isEmpty = false := by simpa using hne
  have hcontains : known.contains name = false := by simpa using hknown
  simp only [stopIndicator, hid, hempty, hcontains, Bool.not_false, Bool.false_eq_true, if_true,
    if_false]

/-- A stop that names a known id or none has an indicator exactly if it refers to one. -/
theorem stopIndicator_of_known (indicators : List Node) (edges : List Edge) (id : String)
    (h : ∀ name, p.reference? = some name → name ∈ known) :
    ∃ place, stopIndicator id p indicators edges known = .ok place ∧
      (∀ i, place = some i → ∃ m, indicators[i]? = some m) ∧
      (place.isSome = true ↔ ∃ m ∈ indicators, RefersTo edges id p m) := by
  obtain ⟨hplace, hjoined⟩ := linked_spec indicators edges id
  cases href : p.reference? with
  | none =>
    -- without a name only edges count
    refine ⟨_, ?_, hplace, ?_⟩
    · rw [StopLoss.reference?, Option.filter_eq_none_iff] at href
      rw [stopIndicator]
      cases hid : p.indicatorNodeId with
      | none => rfl
      | some name =>
        have hempty : name.isEmpty = true := by simpa using href name hid
        simp only [hempty, if_true]
    · simp only [RefersTo, href, reduceCtorEq, false_or, hjoined]
  | some name =>
    obtain ⟨hid, hne⟩ := Option.filter_eq_some_iff.mp href
    have hempty : name.isEmpty = false := by simpa using hne
    have hcontains : known.contains name = true := contains_iff_mem.mpr (h name href)
    refine ⟨lastIndex? indicators name <|> (neighbours id edges).findSome? (lastIndex? indicators),
      ?_, ?_, ?_⟩
    · simp only [stopIndicator, hid, hempty, hcontains, Bool.not_true, Bool.false_eq_true, if_false]
    · intro i hi
      cases hnamed : lastIndex? indicators name with
      | some j =>
        rw [hnamed] at hi
        cases hi
        obtain ⟨m, hm, -⟩ := lastIndex?_lt hnamed
        exact ⟨m, hm⟩
      | none =>
        rw [hnamed] at hi
        exact hplace i hi
    · have hor (a b : Option Nat) : (a <|> b).isSome = (a.isSome || b.isSome) := by
        cases a <;> rfl
      rw [hor, Bool.or_eq_true, lastIndex?_isSome, hjoined]
      simp only [RefersTo, href, Option.some.injEq]
      constructor
      · rintro (⟨m, hm, rfl⟩ | ⟨m, hm, hm'⟩)
        · exact ⟨m, hm, .inl rfl⟩
        · exact ⟨m, hm, .inr hm'⟩
      · rintro ⟨m, hm, rfl | hm'⟩
        · exact .inl ⟨m, hm, rfl⟩
        · exact .inr ⟨m, hm, hm'⟩

theorem emitIndicatorStop_fault (n : Node) (p : StopLoss) (indicators : List Node)
    (edges : List Edge) (known : List String) (ctx : Context) :
    ((emitIndicatorStop n p indicators edges known ctx).fault = none ↔
      (∀ name, p.reference? = some name → name ∈ known) ∧
        (ctx.options.strictStopLoss = true → ∃ m ∈ indicators, RefersTo edges n.id p m)) ∧
    ∀ f, (emitIndicatorStop n p indicators edges known ctx).fault = some f →
      ∃ d, f = .document (some n.id) d := by
  by_cases hknown : ∀ name, p.reference? = some name → name ∈ known
  · obtain ⟨place, hstop, hplace, hrefers⟩ :=
      stopIndicator_of_known indicators edges n.id hknown
    simp only [emitIndicatorStop, hstop]
    cases place with
    | some i =>
      obtain ⟨m, hm⟩ := hplace i rfl
      have hhit : (some i).bind (numbered? indicators) =
          some ⟨m, ((indicators.take i).findIdx? fun k => k.same m).getD i⟩ := by
        rw [Option.bind_some, numbered?, hm]
        rfl
      simp only [hhit, true_iff]
      refine ⟨⟨hknown, fun _ => hrefers.mp rfl⟩, fun _ hf => ?_⟩
      cases hf
    | none =>
      have hnone : ¬ ∃ m ∈ indicators, RefersTo edges n.id p m :=
        fun h => absurd (hrefers.mpr h) (by decide)
      cases hstrict : ctx.options.strictStopLoss with
      | true =>
        simp only [Option.bind_none, if_true, Emission.fail, reduceCtorEq, hnone, forall_const,
          and_false, true_and, Option.some.injEq]
        rintro f rfl
        exact ⟨_, rfl⟩
      | false =>
        simp only [Option.bind_none, Bool.false_eq_true, if_false, true_iff]
        refine ⟨⟨hknown, fun h => ?_⟩, fun _ hf => ?_⟩
        · cases h
        · cases hf
  · rw [not_forall] at hknown
    obtain ⟨name, hname⟩ := hknown
    obtain ⟨href, hunknown⟩ := Classical.not_imp.mp hname
    simp only [emitIndicatorStop, stopIndicator_of_unknown href hunknown, Emission.fail,
      reduceCtorEq, false_iff, not_and, Option.some.injEq]
    refine ⟨fun h => absurd (h name href) hunknown, ?_⟩
    rintro f rfl
    exact ⟨_, rfl⟩

end Stop

/-! ## Compiles -/

/-- The stop of a node fails among the live nodes: it names an id that is not known, or an indicator
is demanded and it refers to none, or it measures a range and there is none. -/
inductive StopFails (live : List Node) (edges : List Edge) (known : List String) (options : Options)
    (n : Node) (p : StopLoss) : Prop
  | unknownName {name : String} : p.method = .indicator → p.reference? = some name →
      name ∉ known → StopFails live edges known options n p
  | noIndicator : p.method = .indicator → options.strictStopLoss = true →
      (∀ m ∈ live, m.category = .indicator → ¬ RefersTo edges n.id p m) →
      StopFails live edges known options n p
  | noRange : p.method = .rangeOpposite → (∀ m ∈ live, m.kind ≠ .rangeBreakout) →
      StopFails live edges known options n p

section Compiles

variable {live : List Node}

theorem Payload.role?_indicator_iff : q.role? = some .indicator ↔ q.kind.category = .indicator := by
  fun_cases Payload.kind q <;> simp [Payload.role?, Kind.category]

theorem mem_indicators_iff {m : Node} :
    m ∈ (Roles.ofNodes live).indicators ↔ m ∈ live ∧ m.category = .indicator := by
  show m ∈ withRole .indicator live ↔ _
  rw [withRole, mem_filter, beq_iff_eq, Payload.role?_indicator_iff]
  rfl

theorem findIdx_rangeBreakout_eq_none :
    (Roles.ofNodes live).priceAction.findIdx? Node.isRangeBreakout = none ↔
      ∀ m ∈ live, m.kind ≠ .rangeBreakout := by
  rw [findIdx?_eq_none_iff]
  constructor
  · intro h m hm hkind
    have hrole : m.data.payload.role? = some .priceAction := by
      revert hkind
      show m.data.payload.kind = _ → _
      fun_cases Payload.kind m.data.payload <;> simp_all [Payload.role?]
    have hnot := h m (mem_filter.mpr ⟨hm, beq_iff_eq.mpr hrole⟩)
    rw [Node.isRangeBreakout, hkind] at hnot
    cases hnot
  · intro h m hm
    exact beq_eq_false_iff_ne.mpr (h m (mem_filter.mp hm).1)

theorem emitStopLoss_fault (live : List Node) (edges : List Edge) (known : List String)
    (ctx : Context) {p : StopLoss} (hp : n.data.payload = .trading (.stopLoss p)) :
    let e := emitStopLoss n (Roles.ofNodes live).indicators (Roles.ofNodes live).priceAction edges
      known ctx
    (e.fault = none ↔ ¬ StopFails live edges known ctx.options n p) ∧
      ∀ f, e.fault = some f → ∃ d, f = .document (some n.id) d := by
  -- a stop by another method has no way to fail
  have hother (hmethod : p.method ≠ .indicator ∧ p.method ≠ .rangeOpposite) :
      ¬ StopFails live edges known ctx.options n p := by
    rintro (⟨h, -⟩ | ⟨h, -⟩ | ⟨h, -⟩)
    · exact hmethod.1 h
    · exact hmethod.1 h
    · exact hmethod.2 h
  simp only [emitStopLoss, hp]
  cases hmethod : p.method with
  | fixedPips | percent | atrBased =>
    refine ⟨iff_of_true rfl (hother (by simp [hmethod])), fun _ hf => ?_⟩
    cases hf
  | rangeOpposite =>
    simp only
    have hfails : StopFails live edges known ctx.options n p ↔
        ∀ m ∈ live, m.kind ≠ .rangeBreakout := by
      constructor
      · rintro (⟨h, -⟩ | ⟨h, -⟩ | ⟨-, h⟩)
        · exact nomatch hmethod.symm.trans h
        · exact nomatch hmethod.symm.trans h
        · exact h
      · exact .noRange hmethod
    rw [hfails, ← findIdx_rangeBreakout_eq_none]
    cases (Roles.ofNodes live).priceAction.findIdx? Node.isRangeBreakout with
    | some i =>
      refine ⟨iff_of_true rfl (Option.some_ne_none i), fun _ hf => ?_⟩
      cases hf
    | none =>
      refine ⟨iff_of_false (Option.some_ne_none _) (absurd rfl), ?_⟩
      rintro f ⟨⟩
      exact ⟨_, rfl⟩
  | indicator =>
    obtain ⟨hfault, hshape⟩ :=
      emitIndicatorStop_fault n p (Roles.ofNodes live).indicators edges known ctx
    refine ⟨hfault.trans ?_, hshape⟩
    simp only [mem_indicators_iff]
    constructor
    · rintro ⟨hknown, hrefers⟩ (⟨-, hname, hunknown⟩ | ⟨-, hstrict, hnone⟩ | ⟨h, -⟩)
      · exact hunknown (hknown _ hname)
      · obtain ⟨m, ⟨hm, hcategory⟩, hm'⟩ := hrefers hstrict
        exact hnone m hm hcategory hm'
      · exact nomatch hmethod.symm.trans h
    · intro h
      refine ⟨fun name hname => ?_, fun hstrict => ?_⟩
      · by_contra hunknown
        exact h (.unknownName hmethod hname hunknown)
      · by_contra hnone
        exact h (.noIndicator hmethod hstrict fun m hm hcategory hm' =>
          hnone ⟨m, ⟨hm, hcategory⟩, hm'⟩)

end Compiles

def Graph.firstStop? (g : Graph) : Option Node :=
  g.liveNodes.find? fun n => n.kind == .stopLoss

/-- A live order meets a first live stop loss that fails. -/
def Graph.FailsAt (g : Graph) (options : Options) (n : Node) : Prop :=
  (∃ m ∈ g.liveNodes, m.kind = .placeBuy ∨ m.kind = .placeSell) ∧ g.firstStop? = some n ∧
    ∃ p, n.data.payload = .trading (.stopLoss p) ∧
      StopFails g.liveNodes (expand g.nodes g.edges).edges g.knownIds options n p

section Failing

variable (g : Graph) (project : String) (options : Options)

theorem Payload.role?_stopLoss_iff : q.role? = some .stopLoss ↔ q.kind = .stopLoss := by
  fun_cases Payload.kind q <;> simp [Payload.role?]

theorem Payload.role?_order_iff :
    (q.role? = some .buy ∨ q.role? = some .sell) ↔ q.kind = .placeBuy ∨ q.kind = .placeSell := by
  fun_cases Payload.kind q <;> simp [Payload.role?]

theorem Graph.head_stopLoss : (Roles.ofNodes g.liveNodes).stopLoss.head? = g.firstStop? := by
  show (withRole .stopLoss g.liveNodes).head? = _
  rw [withRole, head?_filter, Graph.firstStop?]
  congr 1
  funext n
  rw [Bool.eq_iff_iff, beq_iff_eq, beq_iff_eq, Payload.role?_stopLoss_iff]
  rfl

theorem Graph.hasEntry_iff : (Roles.ofNodes g.liveNodes).hasEntry = true ↔
    ∃ m ∈ g.liveNodes, m.kind = .placeBuy ∨ m.kind = .placeSell := by
  show (!(withRole .buy g.liveNodes).isEmpty || !(withRole .sell g.liveNodes).isEmpty) = true ↔ _
  simp only [Bool.or_eq_true, Bool.not_eq_true', isEmpty_eq_false_iff_exists_mem, withRole,
    mem_filter, beq_iff_eq, ← exists_or, ← and_or_left, Payload.role?_order_iff]
  rfl

/-- The steps of a compile fail where the step for the stop does, if there is one. -/
theorem Graph.emission_fault (ctx : Context) (hctx : ctx.options = options) :
    ((∀ n, ¬ g.FailsAt options n) →
      (g.emission (Roles.ofNodes g.liveNodes) ctx).fault = none) ∧
    ∀ n, g.FailsAt options n → ∃ d,
      (g.emission (Roles.ofNodes g.liveNodes) ctx).fault = some (.document (some n.id) d) := by
  subst hctx
  set r := Roles.ofNodes g.liveNodes with hr
  set edges := (expand g.nodes g.edges).edges
  have hplan : ∀ {s}, s ∈ plan r edges g.knownIds ctx → Safe s ∨ ∃ n, r.hasEntry = true ∧
      r.stopLoss.head? = some n ∧
      s = always (emitStopLoss n r.indicators r.priceAction edges g.knownIds ctx) := by
    intro s hs
    rw [plan_eq_cons] at hs
    rcases mem_cons.mp hs with rfl | hs
    · exact .inl fun _ => rfl
    · rcases mem_laterSteps_iff.mp hs with hs | ⟨n, hn, rfl⟩ | rfl
      · exact hs.safe_or_stop
      · exact .inl (emitManagement_safe hn)
      · exact .inl emitPass_safe
  -- the planned steps, given the node of the stop
  have hstop : ∀ {n}, r.hasEntry = true → r.stopLoss.head? = some n →
      (g.emission r ctx).fault =
        (emitStopLoss n r.indicators r.priceAction edges g.knownIds ctx).fault := by
    intro n hentry hn
    refine (fault_inOrder fun s hs => ?_).2 ?_
    · rcases hplan hs with hsafe | ⟨m, -, hm, rfl⟩
      · exact .inl hsafe
      · rw [hn] at hm
        cases hm
        exact .inr rfl
    · rw [plan_eq_cons]
      exact mem_cons_of_mem _ (mem_laterSteps_iff.mpr (.inl (.stopLoss hentry hn)))
  constructor
  · intro hnone
    by_cases hthere : ∃ n, r.hasEntry = true ∧ r.stopLoss.head? = some n
    · obtain ⟨n, hentry, hn⟩ := hthere
      obtain ⟨p, hp⟩ := Payload.of_role (role_of_mem (mem_of_head? hn))
      rw [hstop hentry hn, (emitStopLoss_fault g.liveNodes edges g.knownIds ctx hp).1]
      rw [hr, Graph.head_stopLoss] at hn
      exact fun hfails => hnone n ⟨g.hasEntry_iff.mp hentry, hn, p, hp, hfails⟩
    · refine fault_inOrder_of_safe fun s hs => ?_
      rcases hplan hs with hsafe | ⟨n, hentry, hn, -⟩
      · exact hsafe
      · exact absurd ⟨n, hentry, hn⟩ hthere
  · rintro n ⟨hentry, hn, p, hp, hfails⟩
    rw [← g.head_stopLoss] at hn
    obtain ⟨hfault, hshape⟩ := emitStopLoss_fault g.liveNodes edges g.knownIds ctx hp
    rw [hstop (g.hasEntry_iff.mpr hentry) hn]
    obtain ⟨f, hf⟩ := Option.ne_none_iff_exists'.mp (mt hfault.mp (not_not_intro hfails))
    obtain ⟨d, rfl⟩ := hshape f hf
    exact ⟨d, hf⟩

variable {g} {options}

theorem Graph.compile_ok (h : ∀ n, ¬ g.FailsAt options n) :
    ∃ c, (g.compile project options).result = .ok c := by
  have hnone := (g.emission_fault options (g.context project options) rfl).1 h
  rw [Graph.compile_eq_outcome, Emission.outcome, hnone]
  exact ⟨_, rfl⟩

theorem Graph.compile_error (h : g.FailsAt options n) :
    ∃ d, (g.compile project options).result = .error (.document (some n.id) d) := by
  obtain ⟨d, hd⟩ := (g.emission_fault options (g.context project options) rfl).2 n h
  exact ⟨d, by rw [Graph.compile_eq_outcome, Emission.outcome, hd]⟩

end Failing

def Payload.stopMethod? : Payload → Option StopMethod
  | .trading (.stopLoss p) => some p.method
  | _ => none

theorem Graph.compile_ok_of_methods {g : Graph} {options : Options}
    (h : ∀ m ∈ (expand g.nodes g.edges).nodes, m.data.payload.stopMethod? ≠ some .indicator ∧
      m.data.payload.stopMethod? ≠ some .rangeOpposite) (project : String) :
    ∃ c, (g.compile project options).result = .ok c := by
  refine Graph.compile_ok project ?_
  rintro n ⟨-, hn, p, hp, hfails⟩
  have hlive : n ∈ g.liveNodes := mem_of_find?_eq_some hn
  obtain ⟨hindicator, hrange⟩ := h n (mem_filter.mp hlive).1
  rw [hp] at hindicator hrange
  rcases hfails with ⟨hmethod, -⟩ | ⟨hmethod, -⟩ | ⟨hmethod, -⟩
  · exact hindicator (congrArg some hmethod)
  · exact hindicator (congrArg some hmethod)
  · exact hrange (congrArg some hmethod)

theorem compile_ok_of_methods {g : Graph} {options : Options}
    (hload : Graph.load document = .ok g)
    (h : ∀ m ∈ (expand g.nodes g.edges).nodes, m.data.payload.stopMethod? ≠ some .indicator ∧
      m.data.payload.stopMethod? ≠ some .rangeOpposite) (project : String) :
    ∃ c, (compile document project options).result = .ok c := by
  rw [compile, hload]
  exact Graph.compile_ok_of_methods h project

/-- **When a compile fails.** A compile of a document that can be read fails exactly if a live order
meets a first live stop loss that fails; the fault is then one of the document and carries the id of
that stop. In every other case there is a source text. -/
theorem compile_fails_iff {g : Graph} (h : Graph.load document = .ok g)
    (project : String) (options : Options) :
    ((∃ f, (compile document project options).result = .error f) ↔ ∃ n, g.FailsAt options n) ∧
    (∀ n, g.FailsAt options n → ∃ d,
      (compile document project options).result = .error (.document (some n.id) d)) ∧
    ((¬ ∃ n, g.FailsAt options n) → ∃ text,
      (compile document project options).result.map Compiled.source = .ok text) := by
  rw [compile, h]
  have hok : (¬ ∃ n, g.FailsAt options n) → ∃ c, (g.compile project options).result = .ok c :=
    fun hnone => Graph.compile_ok project (not_exists.mp hnone)
  refine ⟨⟨fun ⟨f, hf⟩ => ?_, fun ⟨n, hn⟩ => ?_⟩, fun n hn => Graph.compile_error project hn,
    fun hnone => ?_⟩
  · by_contra hnone
    obtain ⟨c, hc⟩ := hok hnone
    exact nomatch hf.symm.trans hc
  · obtain ⟨d, hd⟩ := Graph.compile_error project hn
    exact ⟨_, hd⟩
  · obtain ⟨c, hc⟩ := hok hnone
    exact ⟨c.source, by rw [hc]; rfl⟩

/-- An order and a stop that names an indicator that is not there. -/
def danglingDocument : Json :=
  .obj [("nodes", .arr [.node "buy" "place-buy",
    .node "stop" "stop-loss" [("method", .str "INDICATOR"), ("indicatorNodeId", .str "ghost")]])]

def danglingGraph : Graph := danglingDocument.graph

theorem compile_fails_dangling :
    Graph.load danglingDocument = .ok danglingGraph ∧
      ∃ d, (compile danglingDocument "Test" {}).result = .error (.document (some "stop") d) := by
  have hload : Graph.load danglingDocument = .ok danglingGraph := rfl
  refine ⟨hload, ?_⟩
  obtain ⟨-, hfails, -⟩ := compile_fails_iff hload "Test" {}
  exact hfails _ ⟨⟨_, mem_cons_self, .inl rfl⟩, rfl, _, rfl, .unknownName rfl rfl (by decide)⟩

end TradeGraph

import TradeGraph.Proofs.Extras
import TradeGraph.Proofs.Liveness
import TradeGraph.Proofs.Renaming

/-!
# The order and the number of edges

Edges count as pairs of ends. The live nodes depend on the set of pairs alone. Beyond that a program
asks for the neighbours of a close condition and of a stop at an indicator, in the order in which
edges first show them; so an edge between the ends of an earlier one changes nothing, and where
there is no such node the order does not matter either.
-/

namespace TradeGraph

open List

variable {nodes : List Node} {edges edges' more : List Edge}
variable {known : List String} {ctx : Context} {pairs : List (String × String)}

variable {g : Graph} {document : Json} {items : List Json}

/-! ## Live nodes -/

theorem mem_ends_iff {a b : String} : (a, b) ∈ edges.map Edge.ends ↔ Joined edges a b := by
  simp only [mem_map, Edge.ends, Prod.mk.injEq, Joined]

theorem joined_eq_of_ends (h : ∀ p, p ∈ edges.map Edge.ends ↔ p ∈ edges'.map Edge.ends) :
    Joined edges = Joined edges' := by
  funext a b
  rw [← mem_ends_iff, ← mem_ends_iff, h]

theorem keepLive_eq_of_joined (h : Joined edges = Joined edges') :
    keepLive nodes edges = keepLive nodes edges' := by
  refine filter_congr fun n _ => ?_
  rw [Bool.eq_iff_iff, Node.isLive_iff, Node.isLive_iff, Reached, Reached, Leads, Leads, h]

theorem joined_expand_eq (h : Joined edges = Joined edges') :
    Joined (expand nodes edges).edges = Joined (expand nodes edges').edges := by
  have hends (edges : List Edge) (a b : String) :
      (∃ e ∈ edges, a ∈ standIns nodes e.source ∧ b ∈ standIns nodes e.target) ↔
        ∃ s t, Joined edges s t ∧ a ∈ standIns nodes s ∧ b ∈ standIns nodes t := by
    constructor
    · rintro ⟨e, he, ha, hb⟩
      exact ⟨e.source, e.target, ⟨e, he, rfl, rfl⟩, ha, hb⟩
    · rintro ⟨_, _, ⟨e, he, rfl, rfl⟩, ha, hb⟩
      exact ⟨e, he, ha, hb⟩
  funext a b
  rw [eq_iff_iff, joined_expand, joined_expand, hends, hends, h]

theorem Graph.liveNodes_eq (h : Joined g.edges = Joined edges') :
    ({ g with edges := edges' } : Graph).liveNodes = g.liveNodes :=
  (keepLive_eq_of_joined (joined_expand_eq h)).symm

/-! ## Neighbours -/

theorem firstOnes_append_old {ids old rest seen : List String} (h : ∀ x ∈ old, x ∈ ids ∨ x ∈ seen) :
    firstOnes seen (ids ++ old ++ rest) = firstOnes seen (ids ++ rest) := by
  induction ids generalizing seen with
  | nil =>
    induction old with
    | nil => rfl
    | cons x old ih =>
      have hx : seen.contains x = true := by
        rcases h x mem_cons_self with hx | hx
        · cases hx
        · exact contains_iff_mem.mpr hx
      show firstOnes seen (x :: (old ++ rest)) = _
      rw [firstOnes, if_pos hx]
      exact ih fun y hy => h y (mem_cons_of_mem _ hy)
  | cons id ids ih =>
    show firstOnes seen (id :: (ids ++ old ++ rest)) = firstOnes seen (id :: (ids ++ rest))
    rw [firstOnes, firstOnes]
    by_cases hid : seen.contains id = true
    · rw [if_pos hid, if_pos hid]
      refine ih fun x hx => ?_
      rcases h x hx with hx | hx
      · rcases mem_cons.mp hx with rfl | hx
        · exact .inr (contains_iff_mem.mp hid)
        · exact .inl hx
      · exact .inr hx
    · rw [if_neg hid, if_neg hid]
      congr 1
      refine ih fun x hx => ?_
      rcases h x hx with hx | hx
      · rcases mem_cons.mp hx with rfl | hx
        · exact .inr mem_cons_self
        · exact .inl hx
      · exact .inr (mem_cons_of_mem _ hx)

theorem mem_others_iff {id x : String} :
    x ∈ edges.filterMap (Edge.other? id) ↔ Joined edges id x ∨ Joined edges x id := by
  rw [← mem_neighbours, neighbours, mem_firstOnes]
  simp only [not_mem_nil, not_false_eq_true, and_true]

theorem joined_fanOuts {a b : String} (h : ∀ a b, Joined more a b → Joined edges a b)
    (hab : Joined (more.flatMap (fanOut nodes)) a b) :
    Joined (edges.flatMap (fanOut nodes)) a b := by
  obtain ⟨e', he', hs, ht⟩ := hab
  obtain ⟨e, he, hmem⟩ := mem_flatMap.mp he'
  obtain ⟨ha, hb⟩ := joined_fanOut.mp ⟨e', hmem, hs, ht⟩
  obtain ⟨old, hold, hsource, htarget⟩ := h e.source e.target ⟨e, he, rfl, rfl⟩
  rw [← hsource] at ha
  rw [← htarget] at hb
  exact (joined_fanOut.mpr ⟨ha, hb⟩).mono fun e' he' =>
    mem_flatMap.mpr ⟨old, hold, he'⟩

/-- Edges between ends that are joined already, set after the others, change no neighbours. -/
theorem neighbours_expand_append (h : ∀ a b, Joined more a b → Joined edges a b) (id : String) :
    neighbours id (expand nodes (edges ++ more)).edges =
      neighbours id (expand nodes edges).edges := by
  simp only [neighbours, expand, flatMap_append, filterMap_append]
  refine firstOnes_append_old fun x hx => .inl ?_
  rw [mem_others_iff] at hx ⊢
  exact hx.imp (joined_fanOuts h) (joined_fanOuts h)

theorem ends_expand (h : edges.map Edge.ends = edges'.map Edge.ends) :
    (expand nodes edges).edges.map Edge.ends = (expand nodes edges').edges.map Edge.ends := by
  have hfan (edges : List Edge) : (edges.flatMap (fanOut nodes)).map Edge.ends =
      (edges.map Edge.ends).flatMap fun p =>
        (standIns nodes p.1).flatMap fun s => (standIns nodes p.2).map fun t => (s, t) := by
    rw [map_flatMap, flatMap_map]
    exact flatMap_congr fun e _ => ends_fanOut nodes e
  simp only [expand, map_append, hfan, h]

theorem neighbours_eq_of_ends (h : edges.map Edge.ends = edges'.map Edge.ends) (id : String) :
    neighbours id edges = neighbours id edges' := by
  have hends : Edge.other? id =
      (fun p => if p.1 == id then some p.2 else if p.2 == id then some p.1 else none) ∘
        Edge.ends := rfl
  rw [neighbours, neighbours, hends, ← filterMap_map, ← filterMap_map, h]

/-! ## Plans -/

theorem emitStopLoss_neighbours {n : Node} {indicators priceAction : List Node}

    (h : n.data.payload.stopMethod? = some .indicator →
      neighbours n.id edges = neighbours n.id edges') :
    emitStopLoss n indicators priceAction edges known ctx =
      emitStopLoss n indicators priceAction edges' known ctx := by
  unfold emitStopLoss
  split
  · rename_i p hp
    by_cases hmethod : p.method = .indicator
    · have hsame := h (by rw [hp, Payload.stopMethod?, hmethod])
      simp only [hmethod, emitIndicatorStop, stopIndicator, hsame]
    · -- no other method looks at the edges
      cases hcase : p.method with
      | indicator => exact absurd hcase hmethod
      | _ => rfl
  · rfl

/-- **Whose neighbours matter**: those of close conditions, and those of the stop if it is placed at
an indicator. -/
theorem plan_eq_of_neighbours {r : Roles}
    (hstop : ∀ n, r.stopLoss.head? = some n → n.data.payload.stopMethod? = some .indicator →
      neighbours n.id edges = neighbours n.id edges')
    (hclose : ∀ n ∈ r.closeCondition, neighbours n.id edges = neighbours n.id edges') :
    plan r edges known ctx = plan r edges' known ctx := by
  have hrisk : riskSteps r edges known ctx = riskSteps r edges' known ctx := by
    rw [riskSteps, riskSteps, stopStep, stopStep]
    cases hn : r.stopLoss.head? with
    | none => rfl
    | some n => simp only [emitStopLoss_neighbours (hstop n hn)]
  have hexits : (r.closeCondition.zipIdx.map fun x =>
        always (emitCloseCondition x.1 x.2 r.indicators r.priceAction edges)) =
      r.closeCondition.zipIdx.map fun x =>
        always (emitCloseCondition x.1 x.2 r.indicators r.priceAction edges') := by
    refine map_congr_left fun x hx => ?_
    have hsame := hclose x.1 (fst_mem_of_mem_zipIdx hx)
    simp only [emitCloseCondition, hsame]
  rw [plan, plan, hrisk, hexits]

/-- Two graphs that differ in edges only compile alike if the same ids are joined and the neighbours
that the plan asks for are the same. -/
theorem Graph.compile_edges (hjoined : Joined g.edges = Joined edges')
    (hstop : ∀ n, g.firstStop? = some n → n.data.payload.stopMethod? = some .indicator →
      neighbours n.id (expand g.nodes edges').edges =
        neighbours n.id (expand g.nodes g.edges).edges)
    (hclose : ∀ n ∈ g.liveNodes, n.kind = .closeCondition →
      neighbours n.id (expand g.nodes edges').edges =
        neighbours n.id (expand g.nodes g.edges).edges) (project : String) (options : Options) :
    (({ g with edges := edges' } : Graph).compile project options).result =
      (g.compile project options).result := by
  have hlive := Graph.liveNodes_eq hjoined
  rw [Graph.compile_eq_outcome, Graph.compile_eq_outcome, Graph.context, Graph.context,
    Graph.emission, Graph.emission, hlive]
  congr 2
  refine plan_eq_of_neighbours ?_ ?_
  · intro n hn
    rw [Graph.head_stopLoss] at hn
    exact hstop n hn
  · intro n hn
    obtain ⟨hmem, hrole⟩ := mem_filter.mp hn
    refine hclose n hmem ?_
    obtain ⟨p, hp⟩ := Payload.of_role (beq_iff_eq.mp hrole)
    rw [Node.kind, hp]
    rfl

/-! ## Documents -/

/-- The ends of a raw edge, if it has both. -/
def Json.ends? (raw : Json) : Option (String × String) :=
  let source := raw.entries.get "source"
  let target := raw.entries.get "target"
  if source.truthy && target.truthy then some (source.asText, target.asText) else none

def Json.rawEdges (document : Json) : List Json :=
  match document.entries.get "edges" with
  | .arr items => items
  | _ => []

/-- The document with other raw edges. -/
def Json.withEdges (document : Json) (items : List Json) : Json :=
  .obj (document.entries.insert "edges" (.arr items))

/-- A raw edge is read wherever it stands if it has both ends; they are those of the edge. -/
theorem Edge.ofJson_iff {raw : Json} {i : Nat} {p : String × String} :
    (∃ e, Edge.ofJson raw i = .ok e ∧ e.ends = p) ↔ raw.ends? = some p := by
  cases raw with
  | obj es =>
    simp only [Edge.ofJson, Edge.ofEntries, Json.ends?, Json.entries]
    by_cases hs : (Entries.get "source" es).truthy = true <;>
      by_cases ht : (Entries.get "target" es).truthy = true <;> simp [hs, ht, Edge.ends]
  | _ => exact iff_of_false (by rintro ⟨_, ⟨⟩, _⟩) (by rintro ⟨⟩)

theorem mapIndexed_edges {i : Nat} :
    (∃ edges, mapIndexed Edge.ofJson i items = .ok edges ∧ edges.map Edge.ends = pairs) ↔
      items.map Json.ends? = pairs.map some := by
  induction items generalizing i pairs with
  | nil =>
    constructor
    · rintro ⟨_, h, rfl⟩
      cases h
      rfl
    · intro h
      obtain rfl : pairs = [] := by simpa using h.symm
      exact ⟨[], rfl, rfl⟩
  | cons raw items ih =>
    constructor
    · rintro ⟨_, h, rfl⟩
      obtain ⟨e, es, he, hes, rfl⟩ := of_bind₂_eq_ok h
      rw [map_cons, map_cons, map_cons, Edge.ofJson_iff.mp ⟨e, he, rfl⟩,
        ih.mp ⟨es, hes, rfl⟩]
    · intro h
      cases pairs with
      | nil => cases h
      | cons p pairs =>
        obtain ⟨hraw, hrest⟩ := List.cons.inj h
        obtain ⟨e, he, rfl⟩ := (Edge.ofJson_iff (i := i)).mpr hraw
        obtain ⟨es, hes, rfl⟩ := (ih (i := i + 1)).mpr hrest
        refine ⟨e :: es, ?_, rfl⟩
        rw [mapIndexed, he, hes]
        rfl

theorem Graph.ends_of_load (h : Graph.load document = .ok g) :
    document.rawEdges.map Json.ends? = (g.edges.map Edge.ends).map some := by
  obtain ⟨es, rfl, -, hedges⟩ := Graph.exists_of_load h
  obtain ⟨items, hitems, hread⟩ := of_bind_eq_ok hedges
  have hraw : (Json.obj es).rawEdges = items := by
    show (match Entries.get "edges" es with | .arr items => items | _ => []) = items
    cases items with
    | nil =>
      split
      · rename_i is his
        rw [his, itemsOf_arr] at hitems
        exact Except.ok.inj hitems
      · rfl
    | cons raw rest =>
      rw [eq_arr_of_itemsOf hitems (cons_ne_nil _ _)]
  rw [hraw]
  exact mapIndexed_edges.mp ⟨g.edges, hread, rfl⟩

/-- A document whose edges are replaced by others with ends is accepted, and only the edges of its
graph change. -/
theorem Graph.load_withEdges (h : Graph.load document = .ok g)
    (hitems : items.map Json.ends? = pairs.map some) :
    ∃ edges, Graph.load (document.withEdges items) = .ok { g with edges } ∧
      edges.map Edge.ends = pairs := by
  obtain ⟨edges', hread, hends⟩ := (mapIndexed_edges (i := 0)).mpr hitems
  refine ⟨edges', ?_, hends⟩
  cases document with
  | obj es =>
    obtain ⟨nodes, hnodes, h⟩ := of_bind_eq_ok (show ofEntries es = .ok g from h)
    obtain ⟨edges, -, h⟩ := of_bind_eq_ok h
    obtain ⟨settings, hsettings, h⟩ := of_bind_eq_ok h
    cases h
    have hchanged : readEdges (.arr items) = .ok edges' := by
      rw [readEdges, itemsOf_arr]
      exact hread
    have hne (k : String) (hk : "edges" ≠ k) (v : Json) :
        (Entries.insert "edges" v es).get k = Entries.get k es := Entries.get_insert_of_ne hk
    have hedges (v : Json) : (Entries.insert "edges" v es).get "edges" = v := by
      rw [Entries.get_insert, if_pos rfl]
    have hversion (v : Json) : (Entries.insert "edges" v es).find? "version" =
        Entries.find? "version" es := Entries.find?_insert_of_ne (by decide)
    show Graph.ofEntries (Entries.insert "edges" (.arr items) es) = _
    rw [Graph.ofEntries, hedges, hchanged, hne "nodes" (by decide), hne "settings" (by decide),
      hversion, hnodes, hsettings]
    rfl
  | _ => cases h

theorem exists_pairs {ps : List (String × String)}
    (h : ∀ raw ∈ items, ∃ p ∈ ps, raw.ends? = some p) :
    ∃ pairs : List (String × String),
      items.map Json.ends? = pairs.map some ∧ ∀ p ∈ pairs, p ∈ ps := by
  induction items with
  | nil => exact ⟨[], rfl, fun _ hp => nomatch hp⟩
  | cons raw items ih =>
    obtain ⟨p, hp, hraw⟩ := h raw mem_cons_self
    obtain ⟨pairs, hpairs, hmem⟩ := ih fun r hr => h r (mem_cons_of_mem _ hr)
    exact ⟨p :: pairs, by rw [map_cons, map_cons, hraw, hpairs],
      forall_mem_cons.mpr ⟨hp, hmem⟩⟩

/-- A raw edge of a document lies between the ends of an edge of its graph. -/
theorem Graph.exists_ends (h : Graph.load document = .ok g) {raw : Json}
    (hraw : raw ∈ document.rawEdges) : ∃ p ∈ g.edges.map Edge.ends, raw.ends? = some p := by
  have hmem : raw.ends? ∈ (g.edges.map Edge.ends).map some :=
    Graph.ends_of_load h ▸ mem_map_of_mem hraw
  obtain ⟨p, hp, heq⟩ := mem_map.mp hmem
  exact ⟨p, hp, heq.symm⟩

/-- **Edges count as pairs of ends.** A document with more edges between ends that are joined
already compiles to the same program or fails in the same way. If no live node is a close condition
and the first live stop is not placed at an indicator, so does a document with its edges in any
order. -/
theorem compile_withEdges {document : Json} {g : Graph} (h : Graph.load document = .ok g) :
    (∀ more, (∀ raw ∈ more, ∃ old ∈ document.rawEdges, raw.ends? = old.ends?) →
      ∀ project options,
        (compile (document.withEdges (document.rawEdges ++ more)) project options).result =
          (compile document project options).result) ∧
    ((∀ n ∈ g.liveNodes, n.kind ≠ .closeCondition) →
      (∀ n, g.firstStop? = some n → n.data.payload.stopMethod? ≠ some .indicator) →
      ∀ items, items.Perm document.rawEdges → ∀ project options,
        (compile (document.withEdges items) project options).result =
          (compile document project options).result) := by
  have hraw := Graph.ends_of_load h
  constructor
  · intro more hmore project options
    have hknown : ∀ raw ∈ more, ∃ p ∈ g.edges.map Edge.ends, raw.ends? = some p := by
      intro raw hr
      obtain ⟨old, hold, heq⟩ := hmore raw hr
      obtain ⟨p, hp, hends⟩ := Graph.exists_ends h hold
      exact ⟨p, hp, heq.trans hends⟩
    obtain ⟨pairs, hpairs, hmem⟩ := exists_pairs hknown
    have hitems : (document.rawEdges ++ more).map Json.ends? =
        (g.edges.map Edge.ends ++ pairs).map some := by
      rw [map_append, hraw, hpairs, map_append]
    obtain ⟨edges', hload, hends⟩ := Graph.load_withEdges h hitems
    -- the edges split into those with the old ends and those that were added
    obtain ⟨old, new, rfl, hold, hnew⟩ := map_eq_append_iff.mp hends
    have hjoined : ∀ a b, Joined new a b → Joined old a b := by
      intro a b hab
      rw [← mem_ends_iff, hnew] at hab
      rw [← mem_ends_iff, hold]
      exact hmem _ hab
    have hsame (id : String) : neighbours id (expand g.nodes (old ++ new)).edges =
        neighbours id (expand g.nodes g.edges).edges :=
      (neighbours_expand_append hjoined id).trans (neighbours_eq_of_ends (ends_expand hold) id)
    rw [compile, compile, hload, h]
    refine Graph.compile_edges (joined_eq_of_ends fun p => ?_) (fun n _ _ => hsame n.id)
      (fun n _ _ => hsame n.id) project options
    rw [hends, mem_append]
    exact ⟨.inl, fun hp => hp.elim id (hmem p)⟩
  · intro hclose hstop items hperm project options
    have hknown : ∀ raw ∈ items, ∃ p ∈ g.edges.map Edge.ends, raw.ends? = some p :=
      fun raw hr => Graph.exists_ends h (hperm.mem_iff.mp hr)
    obtain ⟨pairs, hpairs, hmem⟩ := exists_pairs hknown
    obtain ⟨edges', hload, hends⟩ := Graph.load_withEdges h hpairs
    rw [compile, compile, hload, h]
    refine Graph.compile_edges (joined_eq_of_ends fun p => ?_)
      (fun n hn hmethod => absurd hmethod (hstop n hn))
      (fun n hn hkind => absurd hkind (hclose n hn)) project options
    rw [hends]
    refine ⟨fun hp => ?_, hmem p⟩
    have hsome : some p ∈ items.map Json.ends? :=
      (hperm.map Json.ends?).mem_iff.mpr (hraw ▸ mem_map_of_mem hp)
    rw [hpairs] at hsome
    obtain ⟨q, hq, heq⟩ := mem_map.mp hsome
    exact Option.some.inj heq ▸ hq

/-- An edge between two strategies, drawn a second time. -/
def secondEdge : Json :=
  .obj [("id", .str "again"), ("source", .str "turn"), ("target", .str "cross")]

theorem compile_withEdges_crossover :
    Graph.load crossoverDocument = .ok crossoverGraph ∧
      (∀ n ∈ crossoverGraph.liveNodes, n.kind ≠ .closeCondition) ∧
      (∀ n, crossoverGraph.firstStop? = some n →
        n.data.payload.stopMethod? ≠ some .indicator) ∧
      ∀ project options, (compile (crossoverDocument.withEdges (crossoverDocument.rawEdges ++
          [secondEdge, secondEdge])) project options).result =
            (compile crossoverDocument project options).result ∧
        (compile (crossoverDocument.withEdges crossoverDocument.rawEdges.reverse) project
          options).result = (compile crossoverDocument project options).result := by
  have hload : Graph.load crossoverDocument = .ok crossoverGraph := rfl
  -- what is live is among the expanded nodes, and none of those is a close condition
  have hnodes : ∀ n ∈ (expand crossoverGraph.nodes crossoverGraph.edges).nodes,
      n.kind ≠ .closeCondition ∧ n.data.payload.stopMethod? ≠ some .indicator := by decide
  have hclose : ∀ n ∈ crossoverGraph.liveNodes, n.kind ≠ .closeCondition :=
    fun n hn => (hnodes n (mem_of_mem_filter hn)).1
  have hstop : ∀ n, crossoverGraph.firstStop? = some n →
      n.data.payload.stopMethod? ≠ some .indicator :=
    fun n hn => (hnodes n (mem_of_mem_filter (mem_of_find?_eq_some hn))).2
  have hold : ∃ old ∈ crossoverDocument.rawEdges, secondEdge.ends? = old.ends? := by decide
  obtain ⟨hmore, hperm⟩ := compile_withEdges hload
  refine ⟨hload, hclose, hstop, fun project options => ⟨hmore _ ?_ project options, ?_⟩⟩
  · intro raw hraw
    obtain rfl : raw = secondEdge := by simpa using hraw
    exact hold
  · exact hperm hclose hstop _ (reverse_perm _) project options

end TradeGraph

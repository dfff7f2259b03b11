import Mathlib.Data.List.Nodup
import TradeGraph.Graph

/-!
# Loaded graphs

What a graph satisfies because a document was accepted.
-/

namespace TradeGraph

open List

/-- If a computation succeeds, its first step does, and the rest from there. -/
theorem of_bind_eq_ok {ε α β : Type} {x : Except ε α} {f : α → Except ε β} {b : β}
    (h : x >>= f = .ok b) : ∃ a, x = .ok a ∧ f a = .ok b := by
  cases x with
  | error e => cases h
  | ok a => exact ⟨a, rfl, h⟩

theorem of_bind₂_eq_ok {ε α β γ : Type} {x : Except ε α} {y : Except ε β} {f : α → β → γ} {c : γ}
    (h : (do let a ← x; let b ← y; .ok (f a b)) = .ok c) :
    ∃ a b, x = .ok a ∧ y = .ok b ∧ f a b = c := by
  obtain ⟨a, ha, h⟩ := of_bind_eq_ok h
  obtain ⟨b, hb, h⟩ := of_bind_eq_ok h
  exact ⟨a, b, ha, hb, Except.ok.inj h⟩

/-! ## Entries -/

theorem Entries.find?_eq (key : String) (es : Entries) :
    es.find? key = (List.find? (fun e => e.1 == key) es).map Prod.snd := by
  induction es with
  | nil => rfl
  | cons e es ih =>
    rw [Entries.find?, find?_cons, ih]
    cases e.1 == key <;> rfl

theorem Entries.mem_of_find? {key : String} {v : Json} {es : Entries} (h : es.find? key = some v) :
    (key, v) ∈ es := by
  rw [find?_eq] at h
  obtain ⟨e, he, rfl⟩ := Option.map_eq_some_iff.mp h
  have hkey : e.1 = key := by simpa using find?_some he
  exact hkey ▸ mem_of_find?_eq_some he

/-! ## Nodes -/

/-- A node as a document gives it, with its data if there are any. -/
def Json.node (id type : String) (data : Entries := []) : Json :=
  .obj ([("id", .str id), ("type", .str type)] ++
    if data.isEmpty then [] else [("data", .obj data)])

/-- An edge as a document gives it, after what else it says. -/
def Json.edge (source target : String) (others : Entries := []) : Json :=
  .obj (others ++ [("source", .str source), ("target", .str target)])

/-- The graph of a document that is accepted. -/
def Json.graph (document : Json) : Graph :=
  (Graph.load document).toOption.getD {}

/-- The entries of an object; any other value has none. -/
def Json.entries : Json → Entries
  | .obj es => es
  | _ => []

theorem Json.entries_eq_nil {v : Json} (h : v.truthy = false) : v.entries = [] := by
  cases v with
  | obj es => simpa [Json.truthy, Json.entries] using h
  | _ => rfl

/-- A raw node gives a node if it has an id, its data is an object or counts as absent, and the data
can be read. -/
theorem Node.ofEntries_eq_ok_iff {raw : Entries} {index : Nat} {n : Node} :
    Node.ofEntries raw index = .ok n ↔
      (raw.get "id").truthy = true ∧
      ((raw.get "data").truthy = true → raw.get "data" = .obj (raw.get "data").entries) ∧
      ∃ d, NodeData.parse (raw.get "id").asText (raw.get "type") (raw.get "data").entries = .ok d ∧
        n = ⟨(raw.get "id").asText, if (raw.get "type").truthy then (raw.get "type").asText else "",
          d, raw.get "position"⟩ := by
  have hread {es : Entries} {f : NodeData → Node} :
      (do .ok (f (← NodeData.parse (raw.get "id").asText (raw.get "type") es))) = Except.ok n ↔
        ∃ d, NodeData.parse (raw.get "id").asText (raw.get "type") es = .ok d ∧ n = f d := by
    constructor
    · intro h
      obtain ⟨d, hd, h⟩ := of_bind_eq_ok h
      exact ⟨d, hd, (Except.ok.inj h).symm⟩
    · rintro ⟨d, hd, rfl⟩
      rw [hd]
      rfl
  rw [Node.ofEntries]
  generalize raw.get "data" = data
  cases hid : (raw.get "id").truthy with
  | false => exact iff_of_false (by rintro ⟨⟩) fun h => Bool.false_ne_true h.1
  | true =>
    cases hdata : data.truthy with
    | true =>
      simp only [Bool.not_true, Bool.false_eq_true, if_false, true_and, forall_const]
      cases data with
      | obj es =>
        simp only [Json.entries, true_and]
        exact hread
      | _ => exact iff_of_false (by rintro ⟨⟩) (by rintro ⟨⟨⟩, _⟩)
    | false =>
      simp only [Json.entries_eq_nil hdata, Bool.not_true, Bool.not_false, Bool.false_eq_true,
        if_false, if_true, true_and, false_implies]
      exact hread

/-! ## Ids -/

/-- If no id occurs a second time, ids differ from each other and from those seen before. -/
theorem nodup_of_duplicateId?_eq_none {nodes : List Node} :
    ∀ {seen : List String}, duplicateId? seen nodes = none →
      (nodes.map Node.id).Nodup ∧ ∀ n ∈ nodes, n.id ∉ seen := by
  induction nodes with
  | nil => intro seen _; simp
  | cons n ns ih =>
    intro seen h
    rw [duplicateId?] at h
    by_cases hn : seen.contains n.id = true
    · rw [if_pos hn] at h
      cases h
    · rw [if_neg hn] at h
      obtain ⟨hnodup, hfresh⟩ := ih h
      refine ⟨?_, ?_⟩
      · rw [map_cons, nodup_cons]
        refine ⟨fun hmem => ?_, hnodup⟩
        obtain ⟨m, hm, hid⟩ := mem_map.mp hmem
        exact hfresh m hm (hid ▸ mem_cons_self)
      · intro m hm hseen
        rcases mem_cons.mp hm with rfl | hm
        · exact hn (contains_iff_mem.mpr hseen)
        · exact hfresh m hm (mem_cons_of_mem _ hseen)

namespace Graph

/-- A loaded graph comes from an object whose nodes and edges could be read. -/
theorem exists_of_load {document : Json} {g : Graph} (h : load document = .ok g) :
    ∃ es : Entries, document = .obj es ∧ readNodes (es.get "nodes") = .ok g.nodes ∧
      readEdges (es.get "edges") = .ok g.edges := by
  cases document with
  | obj es =>
    obtain ⟨nodes, hnodes, h⟩ := of_bind_eq_ok (show ofEntries es = .ok g from h)
    obtain ⟨edges, hedges, h⟩ := of_bind_eq_ok h
    obtain ⟨settings, -, h⟩ := of_bind_eq_ok h
    cases h
    exact ⟨es, rfl, hnodes, hedges⟩
  | _ => cases h

theorem readNodes_eq_ok_iff {raw : Json} {nodes : List Node} :
    readNodes raw = .ok nodes ↔ ∃ items, itemsOf raw = .ok items ∧
      mapIndexed Node.ofJson 0 items = .ok nodes ∧ duplicateId? [] nodes = none := by
  constructor
  · intro h
    obtain ⟨items, hitems, h⟩ := of_bind_eq_ok h
    obtain ⟨read, hread, h⟩ := of_bind_eq_ok h
    cases hdup : duplicateId? [] read with
    | some id =>
      rw [hdup] at h
      cases h
    | none =>
      rw [hdup] at h
      cases h
      exact ⟨items, hitems, hread, hdup⟩
  · rintro ⟨items, hitems, hread, hdup⟩
    simp only [readNodes, hitems, hread, hdup, bind, Except.bind]

theorem ids_nodup {document : Json} {g : Graph} (h : load document = .ok g) :
    (g.nodes.map Node.id).Nodup := by
  obtain ⟨es, -, hnodes, -⟩ := exists_of_load h
  obtain ⟨items, -, -, hdup⟩ := readNodes_eq_ok_iff.mp hnodes
  exact (nodup_of_duplicateId?_eq_none hdup).1

end Graph

end TradeGraph

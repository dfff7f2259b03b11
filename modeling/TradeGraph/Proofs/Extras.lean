import Mathlib.Data.List.Find
import TradeGraph.Proofs.Ceiling
import TradeGraph.Proofs.Lexical
import TradeGraph.Proofs.Limits
import TradeGraph.Proofs.Matching
import TradeGraph.Proofs.Refresh

/-!
# Entries that no field takes

The data of a node may hold entries that its kind does not know. They are kept, and with two
exceptions nothing looks at them: a document with another such entry is accepted, and it compiles to
the same program or fails in the same way. The exceptions are an entry that tells pending orders to
cancel each other, and the comparison of an indicator with one that a strategy brought in.
-/

namespace TradeGraph

open List Mql Relator

variable {key : String} {value : Json} {es : Entries}
variable {k id : String} {p : Program} {d : NodeData} {i : Nat} {document : Json} {ls : List String}
  {ctx : Context} {tick : List Stmt}

variable {nodes : List Node}

/-! ## Reading -/

namespace Entries

theorem find?_insert (k : String) :
    (es.insert key value).find? k = if key = k then some value else es.find? k := by
  induction es with
  | nil => simp only [insert, find?, beq_iff_eq]
  | cons e es ih =>
    obtain ⟨k', v⟩ := e
    rw [insert]
    split
    · rename_i hk'
      rw [find?, find?, beq_iff_eq.mp hk']
      simp only [beq_iff_eq]
      split <;> rfl
    · rename_i hk'
      rw [find?, find?, ih]
      simp only [beq_iff_eq] at hk' ⊢
      split
      · rename_i hk
        rw [if_neg fun h => hk' (hk.trans h.symm)]
      · rfl

theorem find?_insert_of_ne (h : key ≠ k) :
    (es.insert key value).find? k = es.find? k := by
  rw [find?_insert, if_neg h]

theorem has_insert_of_ne (h : key ≠ k) : (es.insert key value).has k = es.has k := by
  rw [has, has, find?_insert_of_ne h]

theorem get_insert (k : String) :
    (es.insert key value).get k = if key = k then value else es.get k := by
  rw [get, find?_insert]
  split <;> rfl

theorem get_insert_of_ne (h : key ≠ k) : (es.insert key value).get k = es.get k := by
  rw [get_insert, if_neg h]

/-- Entries are set before or after a selection that does not look at the key. -/
theorem filter_insert {p : String × Json → Bool} (hp : ∀ v, p (key, v) = true) :
    (es.insert key value).filter p = Entries.insert key value (es.filter p) := by
  induction es with
  | nil => simp only [insert, filter_cons, hp, if_true, filter_nil]
  | cons e es ih =>
    obtain ⟨k, v⟩ := e
    rw [insert]
    split
    · rename_i hk
      obtain rfl : k = key := beq_iff_eq.mp hk
      simp only [filter_cons, hp, if_true, insert, hk]
    · rename_i hk
      cases hkept : p (k, v) with
      | true => simp only [filter_cons, hkept, if_true, insert, hk, ih, Bool.false_eq_true,
          if_false]
      | false => simp only [filter_cons, hkept, ih, Bool.false_eq_true, if_false]

end Entries

/-- No field looks for the key. -/
def Schema.Ignores (s : Schema) (key : String) : Prop :=
  ∀ f ∈ s, key ≠ f.key ∧ key ≠ f.long

instance (s : Schema) (key : String) : Decidable (s.Ignores key) :=
  inferInstanceAs (Decidable (∀ f ∈ s, key ≠ f.key ∧ key ≠ f.long))

theorem Field.keyIn_insert {f : Field} (h : key ≠ f.key) :
    f.keyIn (es.insert key value) = f.keyIn es := by
  rw [keyIn, keyIn, Entries.has_insert_of_ne h]

theorem Field.read_insert {f : Field} (h : key ≠ f.key ∧ key ≠ f.long) :
    f.read (es.insert key value) = f.read es := by
  have hkey : key ≠ f.keyIn es := by
    rw [keyIn]
    split
    · exact h.1
    · exact h.2
  rw [read, read, keyIn_insert h.1, Entries.find?_insert_of_ne hkey]

namespace Schema

variable {s : Schema}

theorem decode_insert (h : s.Ignores key) : s.decode (es.insert key value) = s.decode es := by
  induction s with
  | nil => rfl
  | cons f s ih =>
    rw [decode, decode, Field.read_insert (h f mem_cons_self),
      ih fun f hf => h f (mem_cons_of_mem _ hf)]

theorem takes_insert (h : s.Ignores key) : s.takes (es.insert key value) = s.takes es := by
  funext k
  rw [takes, takes, Bool.eq_iff_iff, any_eq_true, any_eq_true]
  refine exists_congr fun f => and_congr_right fun hf => ?_
  rw [Field.keyIn_insert (h f hf).1]

theorem takes_of_ignores (h : s.Ignores key) : s.takes es key = false := by
  rw [takes, any_eq_false]
  intro f hf
  rw [beq_iff_eq, Field.keyIn]
  split
  · exact (h f hf).1.symm
  · exact (h f hf).2.symm

theorem extras_insert (h : s.Ignores key) :
    s.extras (es.insert key value) = (s.extras es).insert key value := by
  rw [extras, takes_insert h]
  exact Entries.filter_insert fun _ => congrArg not (takes_of_ignores h)

end Schema

/-- No field of the kind looks for the key, nor does the search for the kind. -/
def Kind.Ignores (k : Kind) (key : String) : Prop :=
  key ∉ kindKeys.map Prod.fst ∧ (Common.codec.pair k.shape.codec).schema.Ignores key

instance (k : Kind) (key : String) : Decidable (k.Ignores key) :=
  inferInstanceAs (Decidable (_ ∧ _))

theorem Kind.Ignores.ne_category {k : Kind} (h : k.Ignores key) : key ≠ "category" :=
  (h.2 (Field.maybeText "category" "category")
    (mem_append_left _ (mem_cons_of_mem _ mem_cons_self))).1

theorem Kind.resolve_congr {es' : Entries} (hkeys : ∀ x ∈ kindKeys, es'.find? x.1 = es.find? x.1)
    (hcategory : es'.get "category" = es.get "category") (type : Json) :
    Kind.resolve type es' = Kind.resolve type es := by
  rw [resolve, resolve, hcategory]
  generalize hfound' : kindKeys.find? _ = found'
  generalize hfound : kindKeys.find? _ = found
  obtain rfl : found' = found := by
    rw [← hfound', ← hfound]
    exact find?_congr fun x hx => congrArg Option.isSome (hkeys x hx)
  cases found' with
  | none => rfl
  | some x => simp only [Entries.get, hkeys x (mem_of_find?_eq_some hfound')]

theorem Kind.resolve_insert {k : Kind} (h : k.Ignores key) (type : Json) :
    Kind.resolve type (es.insert key value) = Kind.resolve type es :=
  resolve_congr (fun x hx => Entries.find?_insert_of_ne fun heq : key = x.1 =>
      h.1 (heq ▸ mem_map_of_mem hx))
    (Entries.get_insert_of_ne h.ne_category) type

/-- The data with another entry besides the fields. -/
def NodeData.withExtra (key : String) (value : Json) (d : NodeData) : NodeData :=
  { d with extras := d.extras.insert key value }

/-- The node with another entry besides its fields. -/
def Node.withExtra (key : String) (value : Json) (n : Node) : Node :=
  { n with data := n.data.withExtra key value }

theorem NodeData.read_insert {k : Kind} (hkey : k.Ignores key) (h : NodeData.read k es = .ok d) :
    NodeData.read k (es.insert key value) = .ok (d.withExtra key value) := by
  obtain ⟨common, body, hdecode, hconflict, rfl⟩ := NodeData.read_eq_ok_iff.mp h
  refine NodeData.read_eq_ok_iff.mpr ⟨common, body, ?_, hconflict, ?_⟩
  · rw [← hdecode, Codec.decode, Codec.decode, Schema.decode_insert hkey.2]
  · rw [Schema.extras_insert hkey.2]
    rfl

theorem NodeData.parse_insert {type : Json}
    (hkey : d.payload.kind.Ignores key) (h : NodeData.parse id type es = .ok d) :
    NodeData.parse id type (es.insert key value) = .ok (d.withExtra key value) := by
  obtain ⟨k, hk, hread⟩ := NodeData.parse_eq_ok_iff.mp h
  have hkind : d.payload.kind = k := by
    obtain ⟨common, body, -, -, rfl⟩ := NodeData.read_eq_ok_iff.mp hread
    exact k.kind_make body
  rw [hkind] at hkey
  exact NodeData.parse_eq_ok_iff.mpr
    ⟨k, (Kind.resolve_insert hkey type).trans hk, NodeData.read_insert hkey hread⟩

/-! ## Documents -/

/-- Set an entry in the data of a raw node. -/
def Json.withDatum (raw : Json) (key : String) (value : Json) : Json :=
  let data := (raw.entries.get "data").entries
  .obj (raw.entries.insert "data" (.obj (data.insert key value)))

/-- Set an entry in the data of the node at a place of a document. -/
def Json.withEntry (document : Json) (i : Nat) (key : String) (value : Json) : Json :=
  match document.entries.get "nodes" with
  | .arr items =>
    .obj (document.entries.insert "nodes"
      (.arr (items.modify i fun raw => raw.withDatum key value)))
  | _ => document

theorem Node.ofJson_withDatum {raw : Json} {index : Nat} {n : Node} (hkey : n.kind.Ignores key)
    (h : Node.ofJson raw index = .ok n) :
    Node.ofJson (raw.withDatum key value) index = .ok (n.withExtra key value) := by
  cases raw with
  | obj raw =>
    obtain ⟨hid, -, d, hd, rfl⟩ := Node.ofEntries_eq_ok_iff.mp h
    refine Node.ofEntries_eq_ok_iff.mpr ?_
    have hne (k : String) (hk : "data" ≠ k) (v : Json) :
        (Entries.insert "data" v raw).get k = Entries.get k raw := Entries.get_insert_of_ne hk
    simp only [Json.entries, Entries.get_insert, if_true, hne "id" (by decide),
      hne "type" (by decide), hne "position" (by decide)]
    exact ⟨hid, fun _ => trivial, _, NodeData.parse_insert hkey hd, rfl⟩
  | _ => cases h

/-- A list with one item changed is read as before, with the result for that item changed. -/
theorem mapIndexed_modify {α β : Type} {f : α → Nat → Except Fault β} {F : α → α} {G : β → β}
    {as : List α} {bs : List β} {j : Nat} (h : mapIndexed f j as = .ok bs)
    (hchange : ∀ a b, bs[i]? = some b → f a (j + i) = .ok b → f (F a) (j + i) = .ok (G b)) :
    mapIndexed f j (as.modify i F) = .ok (bs.modify i G) := by
  induction as generalizing i j bs with
  | nil =>
    cases h
    simp only [modify_nil]
    rfl
  | cons a as ih =>
    obtain ⟨b, bs, hb, hbs, rfl⟩ := of_bind₂_eq_ok h
    cases i with
    | zero =>
      have hfirst : f (F a) j = .ok (G b) := hchange a b rfl hb
      rw [modify_zero_cons, modify_zero_cons, mapIndexed, hfirst, hbs]
      rfl
    | succ i =>
      have hrest := ih hbs fun a b hget hf => by
        have hplace : j + 1 + i = j + (i + 1) := by omega
        rw [hplace] at hf ⊢
        exact hchange a b hget hf
      rw [modify_succ_cons, modify_succ_cons, mapIndexed, hb, hrest]
      rfl

theorem duplicateId?_eq {seen : List String} {nodes' : List Node}
    (h : nodes.map Node.id = nodes'.map Node.id) :
    duplicateId? seen nodes = duplicateId? seen nodes' := by
  induction nodes generalizing seen nodes' with
  | nil =>
    cases nodes' with
    | nil => rfl
    | cons => cases h
  | cons n ns ih =>
    cases nodes' with
    | nil => cases h
    | cons m ms =>
      obtain ⟨hid, hrest⟩ := List.cons.inj h
      rw [duplicateId?, duplicateId?, hid, ih hrest]

/-- The graph with another entry in the data of the node at a place. -/
def Graph.withExtra (g : Graph) (i : Nat) (key : String) (value : Json) : Graph :=
  { g with nodes := g.nodes.modify i (Node.withExtra key value) }

theorem ids_modify (i : Nat) :
    (nodes.modify i (Node.withExtra key value)).map Node.id = nodes.map Node.id := by
  induction nodes generalizing i with
  | nil => rw [modify_nil]
  | cons n ns ih =>
    cases i with
    | zero => rfl
    | succ i => rw [modify_succ_cons, map_cons, map_cons, ih]

theorem itemsOf_arr (items : List Json) : itemsOf (.arr items) = .ok items := by
  cases items <;> rfl

theorem eq_arr_of_itemsOf {v : Json} {items : List Json} (h : itemsOf v = .ok items)
    (hne : items ≠ []) : v = .arr items := by
  cases v with
  | arr is =>
    rw [itemsOf_arr] at h
    exact congrArg Json.arr (Except.ok.inj h)
  | _ =>
    unfold itemsOf at h
    split at h
    · cases h
      exact absurd rfl hne
    · cases h

/-- **A document with another entry that no field takes is accepted**, and its graph has that entry.
-/
theorem Graph.load_withEntry {g : Graph} (h : Graph.load document = .ok g)
    {n : Node} (hn : g.nodes[i]? = some n) (hkey : n.kind.Ignores key) :
    Graph.load (document.withEntry i key value) = .ok (g.withExtra i key value) := by
  cases document with
  | obj es =>
    obtain ⟨nodes, hnodes, h⟩ := of_bind_eq_ok (show ofEntries es = .ok g from h)
    obtain ⟨edges, settings, hedges, hsettings, rfl⟩ := of_bind₂_eq_ok h
    obtain ⟨items, hitems, hread, hdup⟩ := readNodes_eq_ok_iff.mp hnodes
    -- a missing list counts as an empty one, but here the list holds `n`
    have harr : Entries.get "nodes" es = .arr items := by
      refine eq_arr_of_itemsOf hitems fun hnil => ?_
      rw [hnil] at hread
      cases hread
      cases hn
    have hchanged : readNodes (.arr (items.modify i fun raw => raw.withDatum key value)) =
        .ok (nodes.modify i (Node.withExtra key value)) := by
      refine readNodes_eq_ok_iff.mpr ⟨_, itemsOf_arr _, ?_, ?_⟩
      · refine mapIndexed_modify hread fun raw m hm hraw => Node.ofJson_withDatum ?_ hraw
        obtain rfl : n = m := Option.some.inj (hn.symm.trans hm)
        exact hkey
      · rw [duplicateId?_eq (ids_modify i), hdup]
    have hdocument : (Json.obj es).withEntry i key value = .obj (Entries.insert "nodes"
        (.arr (items.modify i fun raw => raw.withDatum key value)) es) := by
      rw [Json.withEntry, show (Json.obj es).entries = es from rfl, harr]
    have hne (k : String) (hk : "nodes" ≠ k) (v : Json) :
        (Entries.insert "nodes" v es).get k = Entries.get k es := Entries.get_insert_of_ne hk
    have hversion (v : Json) : (Entries.insert "nodes" v es).find? "version" =
        Entries.find? "version" es := Entries.find?_insert_of_ne (by decide)
    rw [hdocument, Graph.load, Graph.ofEntries, Entries.get_insert, if_pos rfl, hchanged,
      hne "edges" (by decide), hne "settings" (by decide), hversion, hedges, hsettings]
    rfl
  | _ => cases h

/-! ## Compiling -/

/-- The second node is the first one, or the first is a certain node and the second has another
entry. -/
def Node.Extended (n₀ : Node) (key : String) (value : Json) (n m : Node) : Prop :=
  m = n ∨ n = n₀ ∧ m = n₀.withExtra key value

theorem Node.same_eq_false {a b : Node} (h : a.id ≠ b.id) : a.same b = false := by
  simp only [Node.same, beq_eq_false_iff_ne.mpr h, Bool.false_and]

theorem Payload.matches_self (q : Payload) : q.Matches Eq q := by
  have hrel {P : String → String → Prop} (hP : ∀ a, P a a) : ∀ x : Option String, Option.Rel P x x
    | none => .none
    | some a => .some (hP a)
  by_cases hindicator : q.role? = some .indicator
  · obtain ⟨signal, indicator, rfl⟩ := Payload.of_role hindicator
    exact .indicator ⟨rfl, hrel (fun _ => ⟨rfl, Iff.rfl⟩) _⟩
  · by_cases hstop : q.role? = some .stopLoss
    · obtain ⟨p, rfl⟩ := Payload.of_role hstop
      exact .stop ⟨rfl, hrel (fun _ => rfl) _⟩
    · exact .other hindicator hstop

theorem biUnique_eq : BiUnique (Eq : String → String → Prop) :=
  ⟨fun _ _ _ h h' => h.trans h'.symm, fun _ _ _ h h' => h.symm.trans h'⟩

section Extended

variable {n₀ n m : Node} {nodes nodes' : List Node} {edges : List Edge}

theorem Node.Extended.matches (h : Node.Extended n₀ key value n m) :
    n.Matches Eq (Node.Extended n₀ key value) m := by
  have hextended := h
  rcases h with rfl | ⟨rfl, rfl⟩ <;>
    exact ⟨rfl, rfl, rfl, Payload.matches_self _, rfl, hextended⟩

theorem Node.Extended.expand_eq (h : Node.Extended n₀ key value n m) : n.expand = m.expand := by
  rcases h with rfl | ⟨rfl, rfl⟩ <;> rfl

theorem Node.Extended.isComposite_eq (h : Node.Extended n₀ key value n m) :
    n.isComposite = m.isComposite := by
  rcases h with rfl | ⟨rfl, rfl⟩ <;> rfl

theorem forall₂_modify (h : nodes[i]? = some n₀) :
    Forall₂ (Node.Extended n₀ key value) nodes
      (nodes.modify i (Node.withExtra key value)) := by
  induction nodes generalizing i with
  | nil => cases h
  | cons n ns ih =>
    cases i with
    | zero =>
      obtain rfl : n = n₀ := Option.some.inj h
      exact .cons (.inr ⟨rfl, rfl⟩) (forall₂_same.mpr fun _ _ => .inl rfl)
    | succ i => exact .cons (.inl rfl) (ih h)

variable (h : Forall₂ (Node.Extended n₀ key value) nodes nodes')

include h

/-- The expansion of a strategy does not carry its entries, so the entry stays where it was. -/
theorem expand_nodes_extended : Forall₂ (Node.Extended n₀ key value)
    (expand nodes edges).nodes (expand nodes' edges).nodes := by
  refine rel_flatMap h fun n m hnm => ?_
  rw [expandNode, expandNode, ← hnm.expand_eq]
  cases n.expand with
  | none => exact .cons hnm .nil
  | some s => exact forall₂_same.mpr fun _ _ => .inl rfl

theorem standIns_extended : standIns nodes = standIns nodes' := by
  funext id
  have hfound : Option.Rel (Node.Extended n₀ key value)
      (nodes.filter fun n => n.isComposite && n.id == id).getLast?
      (nodes'.filter fun n => n.isComposite && n.id == id).getLast? := by
    refine rel_getLast? (forall₂_filter (fun n m hnm => ?_) h)
    rw [hnm.isComposite_eq, show n.id = m.id from hnm.matches.id]
  rw [standIns, standIns]
  generalize (nodes.filter _).getLast? = x, (nodes'.filter _).getLast? = y at hfound
  cases hfound with
  | none => rfl
  | some hnm => simp only [hnm.expand_eq]

theorem expand_edges_extended : (expand nodes edges).edges = (expand nodes' edges).edges := by
  have hfan : fanOut nodes = fanOut nodes' := by
    funext e
    simp only [fanOut, standIns_extended h]
  have hown : (nodes.flatMap fun n => (n.expand.map Subgraph.edges).getD []) =
      nodes'.flatMap fun n => (n.expand.map Subgraph.edges).getD [] := by
    refine forall₂_eq_eq_eq ▸ rel_flatMap h fun n m hnm => ?_
    rw [hnm.expand_eq, forall₂_eq_eq_eq]
  simp only [expand, hfan, hown]

end Extended

/-- A node whose id belongs to no part of a strategy is the only one with that id. -/
theorem pairwise_expand {edges : List Edge} (hnodup : (nodes.map Node.id).Nodup)
    (hid : id ∉ partIds nodes) :
    (expand nodes edges).nodes.Pairwise fun a b => ¬ (a.id = id ∧ b.id = id) := by
  have hown {c a : Node} (hc : c ∈ nodes) (ha : a ∈ expandNode c) (heq : a.id = id) :
      c.id = id := by
    cases hcomp : c.isComposite with
    | true => exact absurd (mem_partIds.mpr ⟨c, hc, hcomp, a, ha, heq⟩) hid
    | false =>
      rw [expandNode_other hcomp, mem_singleton] at ha
      rw [← ha, heq]
  refine pairwise_flatMap.mpr ⟨fun c hc => ?_, ?_⟩
  · cases hcomp : c.isComposite with
    | true =>
      refine pairwise_of_forall_mem_list fun a ha b _ hab => ?_
      exact hid (mem_partIds.mpr ⟨c, hc, hcomp, a, ha, hab.1⟩)
    | false =>
      rw [expandNode_other hcomp]
      exact pairwise_singleton _ _
  · refine (pairwise_map.mp hnodup).imp_of_mem fun hc hd hne a ha b hb hab => ?_
    exact hne ((hown hc ha hab.1).trans (hown hd hb hab.2).symm)

section Agreeing

variable {n₀ : Node} {live live' : List Node}
  (h : Forall₂ (Node.Matches Eq (Node.Extended n₀ key value)) live live')

include h

/-- Indicators keep their numbers if no other one has the id of the node. -/
theorem numbers_extended (hunique : n₀.data.payload.role? = some .indicator →
      live.Pairwise fun a b => ¬ (a.id = n₀.id ∧ b.id = n₀.id)) :
    SameNumbers (withRole .indicator live) (withRole .indicator live') := by
  refine numbers_eq_of_same (withRole_matches h .indicator)
    fun i j k l x y hij hk _ hx _ hkl hxy => ?_
  have hapart (hrole : n₀.data.payload.role? = some .indicator) :
      ¬ (k.id = n₀.id ∧ x.id = n₀.id) := by
    obtain ⟨hi, rfl⟩ := List.getElem?_eq_some_iff.mp hk
    obtain ⟨hj, rfl⟩ := List.getElem?_eq_some_iff.mp hx
    exact pairwise_iff_getElem.mp ((hunique hrole).filter _) i j hi hj hij
  have hdiffer (hne : k.id ≠ x.id) : k.same x = l.same y := by
    rw [Node.same_eq_false hne, Node.same_eq_false (hkl.id ▸ hxy.id ▸ hne)]
  have hkrole := role_of_mem (mem_of_getElem? hk)
  have hxrole := role_of_mem (mem_of_getElem? hx)
  -- two nodes that both stay compare as before; one that changes is alone with its id
  rcases hkl.extras with rfl | ⟨rfl, -⟩
  · rcases hxy.extras with rfl | ⟨rfl, -⟩
    · rfl
    · exact hdiffer fun heq => hapart hxrole ⟨heq, rfl⟩
  · exact hdiffer fun heq => hapart hkrole ⟨rfl, heq.symm⟩

theorem cancels_extended (hcancels : key = "cancel_opposite" → n₀ ∈ live →
      n₀.data.payload.role? = some .priceAction → value.truthy = n₀.data.hasExtra key) :
    (withRole .priceAction live).any Node.cancelsOpposite =
      (withRole .priceAction live').any Node.cancelsOpposite := by
  refine any_eq (fun n m hnm => ?_)
    ((forall₂_and_left _ _).mpr ⟨fun n hn => hn, withRole_matches h .priceAction⟩)
  obtain ⟨hmem, hmatch⟩ := hnm
  rcases hmatch.extras with rfl | ⟨rfl, rfl⟩
  · rfl
  · have hextra : n.data.hasExtra "cancel_opposite" =
        (n.withExtra key value).data.hasExtra "cancel_opposite" := by
      rw [NodeData.hasExtra, NodeData.hasExtra, Node.withExtra, NodeData.withExtra,
        Entries.get_insert]
      split
      · rename_i hkey
        rw [hcancels hkey (mem_of_mem_filter hmem) (role_of_mem hmem),
          NodeData.hasExtra, hkey]
      · rfl
    rw [Node.cancelsOpposite, Node.cancelsOpposite, ← hextra]
    rfl

end Agreeing

/-! ## Files -/

/-- The lines of the tick handler stand in the file, the rest of which does not depend on them. -/
theorem Program.source_tick (p : Program) (ctx : Context) :
    ∃ before after, ∀ tick : List Stmt, (Program.source { p with tick } ctx).toList ++ ['\n'] =
      before ++ terminated (indent 1 (Stmt.block tick)) ++ after := by
  let start := banner "Expert tick function" ++
    ["void OnTick()", "\x7b"] ++ indent 1 (Stmt.block (Source.tickStart (p.warmup ctx)))
  let sections := [Source.header ctx, Source.includes, Source.inputs p.inputs,
    Source.globals (p.globals.map Global.text), Source.onInit p.initLines,
    Source.onDeinit p.deinitLines]
  let helpers := Source.helpers (p.helpers.map fun h => h.body.written)
  refine ⟨terminated sections ++ terminated start, terminated ["\x7d", ""] ++ terminated [helpers],
    fun tick => ?_⟩
  have hhandler : Source.onTick (Stmt.block tick) (p.warmup ctx) =
      Text.lines (start ++ indent 1 (Stmt.block tick) ++ ["\x7d", ""]) := by
    simp [start, Source.onTick, Source.handler, Source.titled, braces, indent]
  have htick : terminated [Source.onTick (Stmt.block tick) (p.warmup ctx)] =
      terminated start ++ terminated (indent 1 (Stmt.block tick)) ++ terminated ["\x7d", ""] := by
    rw [hhandler, ← terminated_append, ← terminated_append, terminated_cons]
    exact lines_toList (by simp)
  have hsource : Program.source { p with tick } ctx = Text.lines
      (sections ++ [Source.onTick (Stmt.block tick) (p.warmup ctx)] ++ [helpers]) := rfl
  rw [hsource, lines_toList (by simp), terminated_append, terminated_append, htick]
  simp only [List.append_assoc]

/-- Files that differ in their tick handlers only are the same if its lines are. -/
theorem Program.source_tick_inj {tick' : List Stmt}
    (h : Program.source { p with tick } ctx = Program.source { p with tick := tick' } ctx) :
    terminated (indent 1 (Stmt.block tick)) = terminated (indent 1 (Stmt.block tick')) := by
  obtain ⟨before, after, hsource⟩ := p.source_tick ctx
  have heq := hsource tick
  rw [h, hsource tick'] at heq
  exact (append_cancel_left (append_cancel_right heq)).symm

theorem Program.source_append_ne {more : List Stmt} (h : Stmt.block more ≠ []) :
    Program.source { p with tick } ctx ≠ Program.source { p with tick := tick ++ more } ctx := by
  intro heq
  have hlines := Program.source_tick_inj heq
  rw [Stmt.block_append, indent, indent, map_append, terminated_append] at hlines
  have hnil := self_eq_append_right.mp hlines
  cases hblock : Stmt.block more with
  | nil => exact h hblock
  | cons l ls =>
    rw [hblock, map_cons, terminated_cons] at hnil
    simp at hnil

/-! ## The theorem -/

/-- **Entries that no field takes are ignored.** A document with another entry in the data of a
node, under a key that no field of the node has, is accepted as well and compiles to the same
program or fails with the same fault. Two entries count: one that lets a live price action cancel
the opposite of a pending order, and any on an indicator that bears the id of a part of a strategy.
-/
theorem compile_withEntry {g : Graph} (h : Graph.load document = .ok g)
    {n : Node} (hn : g.nodes[i]? = some n) {key : String} (hkey : n.kind.Ignores key) {value : Json}
    (hcancels : key = "cancel_opposite" → n.data.payload.role? = some .priceAction →
      n ∈ g.liveNodes → (∃ m ∈ g.liveNodes, m.isPendingOrder = true) →
        value.truthy = n.data.hasExtra key)
    (hown : n.data.payload.role? = some .indicator → n.id ∉ partIds g.nodes) :
    (∃ g', Graph.load (document.withEntry i key value) = .ok g') ∧
      ∀ project options, (compile (document.withEntry i key value) project options).result =
        (compile document project options).result := by
  have hload : Graph.load (document.withEntry i key value) = .ok (g.withExtra i key value) :=
    Graph.load_withEntry h hn hkey
  refine ⟨⟨_, hload⟩, fun project options => ?_⟩
  have hnodes : Forall₂ (Node.Extended n key value) g.nodes (g.withExtra i key value).nodes :=
    forall₂_modify hn
  have hmatches : Forall₂ (Node.Matches Eq (Node.Extended n key value))
      (expand g.nodes g.edges).nodes (expand (g.withExtra i key value).nodes g.edges).nodes :=
    (expand_nodes_extended hnodes).imp fun _ _ => Node.Extended.matches
  have hedges : Forall₂ (Edge.Matches Eq) (expand g.nodes g.edges).edges
      (expand (g.withExtra i key value).nodes g.edges).edges :=
    expand_edges_extended hnodes ▸ forall₂_same.mpr fun _ _ => ⟨rfl, rfl⟩
  have hlive : Forall₂ (Node.Matches Eq (Node.Extended n key value)) g.liveNodes
      (g.withExtra i key value).liveNodes := keepLive_matches biUnique_eq hmatches hedges
  have hextras : ExtrasAgree g.liveNodes (g.withExtra i key value).liveNodes :=
    { numbers := numbers_extended hlive fun hrole =>
        (pairwise_expand (Graph.ids_nodup h) (hown hrole)).filter _
      cancels := fun hpending => cancels_extended hlive fun hk hmem hrole =>
        hcancels hk hrole hmem hpending }
  have hids : Forall₂ Eq (g.nodes.map Node.id) ((g.withExtra i key value).nodes.map Node.id) :=
    forall₂_eq_eq_eq ▸ (ids_modify i).symm
  rw [compile, compile, h, hload]
  refine ((Graph.compile_matches biUnique_eq hids hmatches hedges rfl hextras ?_ project
    options).eq_of_eq).symm
  intro _ _ _ name name' _ _ _ _ heq
  rw [heq]

/-- A stop at an average, beside a strategy with averages of its own and a pattern. -/
def notedDocument : Json :=
  .obj [("nodes", .arr [.node "average" "moving-average", .node "pattern" "candlestick-pattern",
    .node "cross" "ema-crossover-entry",
    .node "stop" "stop-loss" [("method", .str "INDICATOR"), ("indicatorNodeId", .str "average")]])]

theorem compile_withEntry_noted :
    ∃ g n, Graph.load notedDocument = .ok g ∧ g.nodes[0]? = some n ∧
      n.kind.Ignores "cancel_opposite" ∧ n.data.payload.role? = some .indicator ∧
      n.id ∉ partIds g.nodes ∧
      (∃ g', Graph.load (notedDocument.withEntry 0 "cancel_opposite" (.bool true)) = .ok g') ∧
      ∀ project options,
        (compile (notedDocument.withEntry 0 "cancel_opposite" (.bool true)) project
        options).result =
          (compile notedDocument project options).result := by
  have hload : Graph.load notedDocument = .ok notedDocument.graph := rfl
  have hid : "average" ∉ partIds notedDocument.graph.nodes := by decide
  exact ⟨_, _, hload, rfl, by decide, rfl, hid,
    compile_withEntry hload rfl (by decide) (fun _ hrole => nomatch hrole) fun _ => hid⟩

/-- A pattern beside an order that waits. -/
def opposingDocument : Json :=
  .obj [("nodes", .arr [.node "pattern" "candlestick-pattern",
    .node "buy" "place-buy" [("orderType", .str "STOP")]])]

/-- A strategy and an average that is just like one of its own, at which a stop is placed. -/
def twinDocument : Json :=
  .obj [("nodes", .arr [
    .node "stop" "stop-loss" [("method", .str "INDICATOR"), ("indicatorNodeId", .str "x__ma-fast")],
    .node "x" "ema-crossover-entry",
    .node "x__ma-fast" "moving-average" [("label", .str "Fast EMA(50)"), ("timeframe", .str "H1"),
      ("signalMode", .str "candle_close"), ("entryStrategyType", .str "ema-crossover"),
      ("entryStrategyId", .str "x"), ("role", .str "fast"), ("period", .int 50),
      ("method", .str "EMA")]])]

/-- Not all entries are ignored: a pattern cancels pending orders, and an average that differs from
the one of the strategy has a number of its own. -/
theorem extra_entries_show :
    (∃ g n c c', Graph.load opposingDocument = .ok g ∧ g.nodes[0]? = some n ∧
      n.kind.Ignores "cancel_opposite" ∧ (compile opposingDocument "Test" {}).result = .ok c ∧
      (compile (opposingDocument.withEntry 0 "cancel_opposite" (.bool true)) "Test" {}).result =
        .ok c' ∧ c.source ≠ c'.source) ∧
    ∃ g n, Graph.load twinDocument = .ok g ∧ g.nodes[2]? = some n ∧ n.kind.Ignores "note" ∧
      (compile twinDocument "Test" {}).result ≠
        (compile (twinDocument.withEntry 2 "note" (.int 1)) "Test" {}).result := by
  constructor
  · have hok : (compile opposingDocument "Test" {}).result.toOption.map
      (fun _ => ()) = some () := by
      decide +kernel
    obtain ⟨c, hc, -⟩ := Compilation.exists_of_map hok
    -- the programs are compared as trees: printing them here would have to be evaluated
    have hmore : (compile (opposingDocument.withEntry 0 "cancel_opposite" (.bool true)) "Test"
        {}).result.toOption.map id = (compile opposingDocument "Test" {}).result.toOption.map
          fun c => { c with program :=
            { c.program with tick := c.program.tick ++ cancelStmts } } := rfl
    rw [hc] at hmore
    obtain ⟨c', hc', hprogram⟩ := Compilation.exists_of_map hmore
    refine ⟨_, _, c, c', rfl, rfl, by decide, hc, hc', ?_⟩
    rw [show c' = _ from hprogram]
    exact Program.source_append_ne (by decide)
  · refine ⟨_, _, rfl, rfl, by decide, fun heq => ?_⟩
    have htick := congrArg (fun r => r.toOption.map fun c => c.program.tickLines[4]?) heq
    revert htick
    decide +kernel

end TradeGraph

import Mathlib.Data.List.Forall2
import TradeGraph.Proofs.ClosedEntry
import TradeGraph.Proofs.Failure

/-!
# Graphs that match up to their ids

Ids name nodes and nothing else: they are compared with each other, and they appear in messages. So
two graphs whose ids correspond one to one are searched, sorted and looked up in the same way, and
every step of the compiler emits the same code for both. Entries that no field takes may differ
where nothing looks at them.
-/

namespace TradeGraph

open List

open Relator

variable {S : String → String → Prop} {E : Node → Node → Prop} {e e' : Emission} {a a' : String}

/-! ## Lists item by item -/

section Lists

variable {α β : Type} {R : α → β → Prop} {as : List α} {bs : List β} {x : Option α} {y : Option β}

theorem forall₂_zipIdx (h : Forall₂ R as bs) (k : Nat) :
    Forall₂ (fun a b => R a.1 b.1 ∧ a.2 = b.2) (as.zipIdx k) (bs.zipIdx k) := by
  induction h generalizing k with
  | nil => exact .nil
  | cons hab _ ih => exact .cons ⟨hab, rfl⟩ (ih (k + 1))

theorem forall₂_map_zipIdx {γ δ : Type} {Q : γ → δ → Prop} {f : α × Nat → γ} {g : β × Nat → δ}
    (hfg : ∀ a b i, R a b → Q (f (a, i)) (g (b, i))) (h : Forall₂ R as bs) :
    Forall₂ Q (as.zipIdx.map f) (bs.zipIdx.map g) := by
  refine forall₂_map_left_iff.mpr (forall₂_map_right_iff.mpr ?_)
  refine (forall₂_zipIdx h 0).imp fun ⟨a, i⟩ ⟨b, j⟩ hab => ?_
  obtain ⟨hab, rfl⟩ : R a b ∧ i = j := hab
  exact hfg a b i hab

theorem isEmpty_eq (h : Forall₂ R as bs) : as.isEmpty = bs.isEmpty := by
  cases h <;> rfl

theorem rel_head? (h : Forall₂ R as bs) : Option.Rel R as.head? bs.head? := by
  cases h with
  | nil => exact .none
  | cons hab _ => exact .some hab

theorem rel_getLast? (h : Forall₂ R as bs) : Option.Rel R as.getLast? bs.getLast? := by
  rw [← head?_reverse, ← head?_reverse]
  exact rel_head? (forall₂_reverse_iff.mpr h)

theorem rel_getElem? (h : Forall₂ R as bs) (i : Nat) : Option.Rel R as[i]? bs[i]? := by
  induction h generalizing i with
  | nil => exact .none
  | cons hab _ ih =>
    cases i with
    | zero => exact .some hab
    | succ i => exact ih i

theorem rel_imp {R' : α → β → Prop} (himp : ∀ a b, R a b → R' a b)
    (h : Option.Rel R x y) : Option.Rel R' x y := by
  cases h with
  | none => exact .none
  | some hab => exact .some (himp _ _ hab)

theorem rel_bind {γ δ : Type} {Q : γ → δ → Prop} {f : α → Option γ} {g : β → Option δ}
    (hfg : ∀ a b, R a b → Option.Rel Q (f a) (g b))
    (h : Option.Rel R x y) : Option.Rel Q (x.bind f) (y.bind g) := by
  cases h with
  | none => exact .none
  | some hab => exact hfg _ _ hab

theorem map_eq_of_rel {γ : Type} {f : α → γ} {g : β → γ}
    (hfg : ∀ a b, R a b → f a = g b) (h : Option.Rel R x y) : x.map f = y.map g := by
  cases h with
  | none => rfl
  | some hab => exact congrArg some (hfg _ _ hab)

theorem isSome_eq_of_rel (h : Option.Rel R x y) :
    x.isSome = y.isSome := by
  cases h <;> rfl

theorem findSome?_eq {γ : Type} {f : α → Option γ} {g : β → Option γ}
    (hfg : ∀ a b, R a b → f a = g b) (h : Forall₂ R as bs) :
    as.findSome? f = bs.findSome? g := by
  induction h with
  | nil => rfl
  | cons hab _ ih => rw [findSome?_cons, findSome?_cons, hfg _ _ hab, ih]

theorem forall₂_ite {c : Prop} [Decidable c] (h : Forall₂ R as bs) :
    Forall₂ R (if c then as else []) (if c then bs else []) := by
  split
  · exact h
  · exact .nil

variable {p : α → Bool} {q : β → Bool} (hpq : ∀ a b, R a b → p a = q b)

include hpq

theorem forall₂_filter (h : Forall₂ R as bs) :
    Forall₂ R (as.filter p) (bs.filter q) :=
  rel_filter (fun a b hab => by
    show p a = true ↔ q b = true
    rw [hpq a b hab]) h

theorem findIdx?_eq (h : Forall₂ R as bs) : as.findIdx? p = bs.findIdx? q := by
  induction h with
  | nil => rfl
  | cons hab _ ih => rw [findIdx?_cons, findIdx?_cons, hpq _ _ hab, ih]

theorem any_eq (h : Forall₂ R as bs) : as.any p = bs.any q := by
  induction h with
  | nil => rfl
  | cons hab _ ih => rw [any_cons, any_cons, hpq _ _ hab, ih]

end Lists

/-! ## Searches -/

section Searches

variable (hS : BiUnique S) {b b' : String}

/-- The edges lead between corresponding ids. -/
def Edge.Matches (S : String → String → Prop) (e e' : Edge) : Prop :=
  S e.source e'.source ∧ S e.target e'.target

abbrev EdgesMatch (S : String → String → Prop) : List Edge → List Edge → Prop :=
  Forall₂ (Edge.Matches S)

variable {edges edges' : List Edge} {ids ids' seen seen' : List String}

include hS

theorem beq_of_rel (ha : S a a') (hb : S b b') : (a == b) = (a' == b') := by
  rw [Bool.eq_iff_iff, beq_iff_eq, beq_iff_eq]
  exact rel_eq hS ha hb

theorem contains_of_rel (hids : Forall₂ S ids ids') (ha : S a a') :
    ids.contains a = ids'.contains a' := by
  rw [Bool.eq_iff_iff, contains_iff_mem, contains_iff_mem]
  exact rel_mem hS ha hids

theorem leaving_matches (ha : S a a') (h : EdgesMatch S edges edges') :
    EdgesMatch S (leaving a edges) (leaving a' edges') :=
  forall₂_filter (fun _ _ he => beq_of_rel hS he.1 ha) h

theorem notLeaving_matches (ha : S a a') (h : EdgesMatch S edges edges') :
    EdgesMatch S (notLeaving a edges) (notLeaving a' edges') :=
  forall₂_filter (fun _ _ he => by rw [bne, bne, beq_of_rel hS he.1 ha]) h

theorem closure_matches (h : EdgesMatch S edges edges') (hids : Forall₂ S ids ids') :
    Forall₂ S (closure edges ids) (closure edges' ids') := by
  induction edges, ids using closure.induct generalizing edges' ids' with
  | case1 edges =>
    cases hids
    rw [closure, closure]
    exact .nil
  | case2 edges id rest ih =>
    cases hids with
    | cons hid hrest =>
      rw [closure, closure]
      refine .cons hid (ih (notLeaving_matches hS hid h) ?_)
      exact rel_append (rel_map (fun _ _ he => he.2) (leaving_matches hS hid h)) hrest

theorem firstOnes_matches (hseen : Forall₂ S seen seen') (hids : Forall₂ S ids ids') :
    Forall₂ S (firstOnes seen ids) (firstOnes seen' ids') := by
  induction hids generalizing seen seen' with
  | nil => exact .nil
  | cons hid _ ih =>
    rw [firstOnes, firstOnes, contains_of_rel hS hseen hid]
    split
    · exact ih hseen
    · exact .cons hid (ih (.cons hid hseen))

theorem neighbours_matches (ha : S a a') (h : EdgesMatch S edges edges') :
    Forall₂ S (neighbours a edges) (neighbours a' edges') := by
  refine firstOnes_matches hS .nil (rel_filterMap (fun e e' he => ?_) h)
  rw [Edge.other?, Edge.other?, beq_of_rel hS he.1 ha, beq_of_rel hS he.2 ha]
  split
  · exact .some he.2
  · split
    · exact .some he.1
    · exact .none

end Searches

/-! ## Nodes -/

/-- The signals differ only in the strategies that they belong to. -/
structure Signal.Matches (S : String → String → Prop) (s s' : Signal) : Prop where
  rest : s' = { s with entryStrategyId := s'.entryStrategyId }
  strategy : Option.Rel (fun a b => S a b ∧ (a = "" ↔ b = "")) s.entryStrategyId s'.entryStrategyId

/-- The stops differ only in the indicators that they name. -/
structure StopLoss.Matches (S : String → String → Prop) (p p' : StopLoss) : Prop where
  rest : p' = { p with indicatorNodeId := p'.indicatorNodeId }
  name : Option.Rel S p.indicatorNodeId p'.indicatorNodeId

/-- The payloads differ only in corresponding ids. -/
inductive Payload.Matches (S : String → String → Prop) : Payload → Payload → Prop
  | indicator {s s' : Signal} {a : Indicator} : s.Matches S s' →
      Matches S (.indicator s a) (.indicator s' a)
  | stop {p p' : StopLoss} : p.Matches S p' →
      Matches S (.trading (.stopLoss p)) (.trading (.stopLoss p'))
  | other {q : Payload} : q.role? ≠ some .indicator → q.role? ≠ some .stopLoss → Matches S q q

/-- The nodes differ only in corresponding ids, and in entries that no field takes as far as the
second relation allows. -/
structure Node.Matches (S : String → String → Prop) (E : Node → Node → Prop) (n m : Node) :
    Prop where
  id : S n.id m.id
  type : n.type = m.type
  common : n.data.common = m.data.common
  payload : n.data.payload.Matches S m.data.payload
  position : n.position = m.position
  extras : E n m

abbrev NodesMatch (S : String → String → Prop) (E : Node → Node → Prop) :
    List Node → List Node → Prop :=
  Forall₂ (Node.Matches S E)

def Node.SameExtras (n m : Node) : Prop :=
  n.data.extras = m.data.extras

section Nodes

variable {n m : Node} {q q' : Payload}

theorem Payload.Matches.kind_eq (h : q.Matches S q') : q.kind = q'.kind := by
  cases h with
  | @indicator _ _ a => cases a <;> rfl
  | stop => rfl
  | other => rfl

theorem Payload.Matches.role?_eq (h : q.Matches S q') : q.role? = q'.role? := by
  cases h <;> rfl

theorem Node.Matches.kind_eq (h : n.Matches S E m) : n.kind = m.kind :=
  h.payload.kind_eq

structure Node.SameData (n m : Node) : Prop where
  common : n.data.common = m.data.common
  payload : n.data.payload = m.data.payload

theorem Node.Matches.sameData (h : n.Matches S E m) {role : Role}
    (hrole : n.data.payload.role? = some role) (hother : role ≠ .indicator ∧ role ≠ .stopLoss) :
    n.SameData m := by
  refine ⟨h.common, ?_⟩
  have hpayload := h.payload
  generalize n.data.payload = q, m.data.payload = q' at hpayload hrole
  cases hpayload with
  | indicator => exact absurd (Option.some.inj hrole).symm hother.1
  | stop => exact absurd (Option.some.inj hrole).symm hother.2
  | other => rfl

variable (hS : BiUnique S) {nodes nodes' : List Node} {edges edges' : List Edge}

theorem ids_matches (h : NodesMatch S E nodes nodes') :
    Forall₂ S (nodes.map Node.id) (nodes'.map Node.id) :=
  rel_map (fun _ _ hn => hn.id) h

theorem withRole_matches (h : NodesMatch S E nodes nodes') (role : Role) :
    NodesMatch S E (withRole role nodes) (withRole role nodes') :=
  forall₂_filter (fun _ _ hn => by rw [hn.payload.role?_eq]) h

include hS

theorem reachable_matches (h : NodesMatch S E nodes nodes') (hedges : EdgesMatch S edges edges') :
    Forall₂ S (reachable nodes edges) (reachable nodes' edges') := by
  have hroots : Forall₂ S (rootIds nodes) (rootIds nodes') :=
    rel_map (fun _ _ hn => hn.id) (forall₂_filter (fun n m hn => by
      rw [Node.isRoot, Node.isRoot, Node.category, Node.category, hn.kind_eq]) h)
  rw [reachable_eq, reachable_eq]
  have hnil : rootIds nodes = [] ↔ rootIds nodes' = [] := by
    rw [← length_eq_zero_iff, ← length_eq_zero_iff, hroots.length_eq]
  simp only [hnil]
  split
  · exact ids_matches h
  · exact closure_matches hS hedges hroots

theorem keepLive_matches (h : NodesMatch S E nodes nodes') (hedges : EdgesMatch S edges edges') :
    NodesMatch S E (keepLive nodes edges) (keepLive nodes' edges') := by
  refine forall₂_filter (fun n m hn => ?_) h
  rw [Node.isLive, Node.isLive, contains_of_rel hS (reachable_matches hS h hedges) hn.id,
    Node.isAlwaysLive, Node.isAlwaysLive, Node.category, Node.category, hn.kind_eq]

/-! ## Lookups -/

theorem lastIndex?_matches (h : NodesMatch S E nodes nodes') (ha : S a a') :
    lastIndex? nodes a = lastIndex? nodes' a' :=
  map_eq_of_rel (fun _ _ hxy => hxy.2) (rel_getLast?
    (forall₂_filter (fun _ _ hxy => beq_of_rel hS hxy.1.id ha) (forall₂_zipIdx h 0)))

end Nodes

/-! ### Equality of nodes -/

section Same

/-- The values under a key are the same, or they name corresponding strategies. -/
inductive Json.Matches (S : String → String → Prop) (key : String) : Json → Json → Prop
  | same {v : Json} : key ≠ "entryStrategyId" → Matches S key v v
  | strategy {x y : Option String} : key = "entryStrategyId" → Option.Rel S x y →
      Matches S key ((FieldType.optional .text).write x) ((FieldType.optional .text).write y)

/-- The entries differ only in corresponding strategies. -/
def Entries.Matches (S : String → String → Prop) : Entries → Entries → Prop :=
  Forall₂ fun e e' => e.1 = e'.1 ∧ Json.Matches S e.1 e.2 e'.2

theorem Entries.Matches.find? {es es' : Entries} (h : es.Matches S es') (key : String) :
    Option.Rel (Json.Matches S key) (es.find? key) (es'.find? key) := by
  induction h with
  | nil => exact .none
  | @cons e e' _ _ he _ ih =>
    obtain ⟨k, v⟩ := e
    obtain ⟨k', v'⟩ := e'
    obtain ⟨rfl, hv⟩ : k = k' ∧ Json.Matches S k v v' := he
    rw [Entries.find?, Entries.find?]
    split
    · rename_i hk
      exact .some (beq_iff_eq.mp hk ▸ hv)
    · exact ih

theorem Schema.encode_matches (s : Schema) (r : Record s)
    (h : "entryStrategyId" ∉ s.map Field.key) : (s.encode r).Matches S (s.encode r) := by
  induction s with
  | nil => exact .nil
  | cons f s ih =>
    rw [map_cons, mem_cons, not_or] at h
    exact .cons ⟨rfl, .same (Ne.symm h.1)⟩ (ih r.2 h.2)

theorem Signal.Matches.encode {s s' : Signal} (h : s.Matches S s') :
    (Signal.codec.encode s).Matches S (Signal.codec.encode s') := by
  have hid : Option.Rel S s.entryStrategyId s'.entryStrategyId :=
    rel_imp (fun _ _ hab => hab.1) h.strategy
  rw [h.rest]
  exact .cons ⟨rfl, .same (show "timeframe" ≠ _ by decide)⟩
    (.cons ⟨rfl, .same (show "signalMode" ≠ _ by decide)⟩
      (.cons ⟨rfl, .same (show "entryStrategyType" ≠ _ by decide)⟩
        (.cons ⟨rfl, .strategy rfl hid⟩ (Schema.encode_matches _ _ (by decide)))))

theorem Node.Matches.fields {n m : Node} (h : n.Matches S E m)
    (hrole : n.data.payload.role? = some .indicator) :
    n.data.fields.Matches S m.data.fields := by
  have hpayload := h.payload
  rw [NodeData.fields, NodeData.fields, ← h.common]
  refine rel_append (Schema.encode_matches _ _ (by decide)) ?_
  generalize n.data.payload = q, m.data.payload = q' at hpayload hrole
  cases hpayload with
  | stop => cases hrole
  | other hindicator => exact absurd hrole hindicator
  | @indicator s s' a hs =>
    cases a <;> simp only [Payload.encode, Codec.encode_pair] <;>
      exact rel_append hs.encode (Schema.encode_matches _ _ (by decide))

variable (hS : BiUnique S)

include hS

theorem Json.Matches.same_eq {key : String} {v v' w w' : Json} (hv : Json.Matches S key v v')
    (hw : Json.Matches S key w w') : v.same w = v'.same w' := by
  cases hv with
  | same hkey =>
    cases hw with
    | same => rfl
    | strategy heq => exact absurd heq hkey
  | strategy heq hxy =>
    cases hw with
    | same hkey => exact absurd heq hkey
    | strategy _ hzw =>
      cases hxy with
      | none => cases hzw <;> rfl
      | some hab =>
        cases hzw with
        | none => rfl
        | some hcd => exact beq_of_rel hS hab hcd

theorem Entries.Matches.sameEntries_eq {as as' bs bs' : Entries} (ha : as.Matches S as')
    (hb : bs.Matches S bs') : Json.sameEntries as bs = Json.sameEntries as' bs' := by
  induction ha with
  | nil => rfl
  | @cons e e' _ _ he _ ih =>
    obtain ⟨k, v⟩ := e
    obtain ⟨k', v'⟩ := e'
    obtain ⟨rfl, hv⟩ : k = k' ∧ Json.Matches S k v v' := he
    have hfind := hb.find? k
    rw [Json.sameEntries, Json.sameEntries, ih]
    generalize bs.find? k = x, bs'.find? k = y at hfind
    cases hfind with
    | none => rfl
    | some hw => simp only [hv.same_eq hS hw]

/-- Of two indicators the same is said exactly if it is said of those that match them. -/
theorem Node.same_matches {n m k l : Node} (hn : n.Matches S Node.SameExtras m)
    (hk : k.Matches S Node.SameExtras l)
    (hnrole : n.data.payload.role? = some .indicator)
    (hkrole : k.data.payload.role? = some .indicator) : n.same k = m.same l := by
  have hfields : (Json.obj n.data.fields).same (.obj k.data.fields) =
      (Json.obj m.data.fields).same (.obj l.data.fields) := by
    have hnf := hn.fields hnrole
    have hkf := hk.fields hkrole
    rw [Json.same, Json.same, Forall₂.length_eq hnf, Forall₂.length_eq hkf,
      hnf.sameEntries_eq hS hkf]
  rw [Node.same, Node.same, beq_of_rel hS hn.id hk.id, hn.type, hk.type, hn.kind_eq, hk.kind_eq,
    hfields, show n.data.extras = m.data.extras from hn.extras,
    show k.data.extras = l.data.extras from hk.extras, hn.position, hk.position]

end Same

/-! ## Stops and exits -/

/-- The same faults, up to the ids that they name. -/
inductive Fault.Matches (S : String → String → Prop) : Fault → Fault → Prop
  | same (f : Fault) : Matches S f f
  | node {id id' : String} {d : DocumentFault} : S id id' → Matches S (.inNode id d) (.inNode id' d)
  | name {id id' name name' : String} : S id id' → S name name' →
      Matches S (.inNode id (.unknownIndicator name)) (.inNode id' (.unknownIndicator name'))

/-- The same code, and matching faults in both or none in either. -/
structure Emission.Matches (S : String → String → Prop) (e e' : Emission) : Prop where
  code : e.code = e'.code
  fault : Option.Rel (Fault.Matches S) e.fault e'.fault

theorem Emission.matches_of_eq (hcode : e.code = e'.code)
    (hfault : e.fault = e'.fault) : e.Matches S e' := by
  refine ⟨hcode, ?_⟩
  rw [hfault]
  cases e'.fault with
  | none => exact .none
  | some f => exact .some (.same f)

theorem Emission.Matches.refl (e : Emission) : e.Matches S e :=
  Emission.matches_of_eq rfl rfl

section Stops

abbrev SameNumbers (nodes nodes' : List Node) : Prop :=
  ∀ place, (numbered? nodes place).map Numbered.index = (numbered? nodes' place).map Numbered.index

variable (hS : BiUnique S) {n m : Node}
  {indicators indicators' priceAction priceAction' : List Node} {edges edges' : List Edge}
  {known known' : List String}

include hS

/-- Stops at corresponding ids refer to the same place, or the names of both are unknown. The empty
text is no name, so it must be told apart from names on both sides. -/
theorem stopIndicator_matches {id id' : String} (hid : S id id') {p p' : StopLoss}
    (hp : p.Matches S p')
    (hempty : ∀ name name', p.indicatorNodeId = some name → S name name' →
      (name = "" ↔ name' = ""))
    (hindicators : NodesMatch S E indicators indicators')
    (hedges : EdgesMatch S edges edges') (hknown : Forall₂ S known known') :
    (∃ place, stopIndicator id p indicators edges known = .ok place ∧
        stopIndicator id' p' indicators' edges' known' = .ok place) ∨
      ∃ f f', stopIndicator id p indicators edges known = .error f ∧
        stopIndicator id' p' indicators' edges' known' = .error f' ∧ f.Matches S f' := by
  have hlinked : (neighbours id edges).findSome? (lastIndex? indicators) =
      (neighbours id' edges').findSome? (lastIndex? indicators') :=
    findSome?_eq (fun _ _ hab => lastIndex?_matches hS hindicators hab)
      (neighbours_matches hS hid hedges)
  have hname := hp.name
  rw [stopIndicator, stopIndicator, hlinked]
  generalize p.indicatorNodeId = x, p'.indicatorNodeId = y at hname hempty
  cases hname with
  | none => exact .inl ⟨_, rfl, rfl⟩
  | @some name name' hab =>
    have hisEmpty : name.isEmpty = name'.isEmpty := by
      rw [Bool.eq_iff_iff, String.isEmpty_iff, String.isEmpty_iff]
      exact hempty name name' rfl hab
    simp only [hisEmpty, contains_of_rel hS hknown hab, lastIndex?_matches hS hindicators hab]
    split
    · exact .inl ⟨_, rfl, rfl⟩
    · split
      · exact .inr ⟨_, _, rfl, rfl, .name hid hab⟩
      · exact .inl ⟨_, rfl, rfl⟩

omit hS in
theorem numbered?_matches (hindicators : NodesMatch S E indicators indicators')
    (hnumbers : SameNumbers indicators indicators') (place : Nat) :
    Option.Rel (fun h h' => h.node.Matches S E h'.node ∧ h.index = h'.index)
      (numbered? indicators place) (numbered? indicators' place) := by
  have hplace := rel_getElem? hindicators place
  have hnumber := hnumbers place
  rw [numbered?, numbered?] at hnumber ⊢
  generalize indicators[place]? = x, indicators'[place]? = y at hplace hnumber
  cases hplace with
  | none => exact .none
  | some hkl => exact .some ⟨hkl, Option.some.inj hnumber⟩

omit hS in
theorem numbers_eq_of_same {R : Node → Node → Prop}
    (hindicators : Forall₂ R indicators indicators')
    (hsame : ∀ (i j : Nat) k l x y, i < j → indicators[i]? = some k → indicators'[i]? = some l →
      indicators[j]? = some x → indicators'[j]? = some y → R k l → R x y → k.same x = l.same y) :
    SameNumbers indicators indicators' := by
  intro place
  have hplace := rel_getElem? hindicators place
  rw [numbered?, numbered?]
  cases hx : indicators[place]? with
  | none =>
    rw [hx] at hplace
    cases hy : indicators'[place]? with
    | none => rfl
    | some y => rw [hy] at hplace; cases hplace
  | some x =>
    rw [hx] at hplace
    cases hy : indicators'[place]? with
    | none => rw [hy] at hplace; cases hplace
    | some y =>
      rw [hy] at hplace
      have hxy : R x y := by cases hplace; assumption
      -- the number is the place of the first node that says the same, at the latest this one
      have htake : Forall₂ (fun k l => k.same x = l.same y) (indicators.take place)
          (indicators'.take place) := by
        obtain ⟨hlength, hget⟩ := forall₂_iff_get.mp (forall₂_take place hindicators)
        refine forall₂_iff_get.mpr ⟨hlength, fun i hi hi' => ?_⟩
        have hlt : i < place := lt_of_lt_of_le hi (length_take_le place indicators)
        refine hsame i place _ _ x y hlt ?_ ?_ hx hy (hget i hi hi') hxy
        · rw [get_eq_getElem, getElem_take, getElem?_eq_getElem]
        · rw [get_eq_getElem, getElem_take, getElem?_eq_getElem]
      simp only [Option.map_some, findIdx?_eq (fun _ _ hkl => hkl) htake]

theorem numbers_eq (hindicators : NodesMatch S Node.SameExtras indicators indicators')
    (hrole : Role.All .indicator indicators) : SameNumbers indicators indicators' :=
  numbers_eq_of_same hindicators fun _ _ k _ x _ _ hk _ hx _ hkl hxy =>
    Node.same_matches hS hkl hxy (hrole k (mem_of_getElem? hk))
      (hrole x (mem_of_getElem? hx))

omit hS in
theorem Node.input_eq (h : n.data.common = m.data.common) (field : String) (name : Mql.Ident)
    (type : String) (value : Scalar) (comment : String) (group : Option String) :
    n.input field name type value comment group = m.input field name type value comment group := by
  rw [Node.input, Node.input, Node.isOptimizable, Node.isOptimizable, h]

omit hS in
theorem indicatorStop_eq (h : n.data.common = m.data.common) {hit hit' : Numbered}
    (hhit : hit.node.Matches S E hit'.node) (hindex : hit.index = hit'.index) (fixedPips : Float) :
    indicatorStop n fixedPips hit = indicatorStop m fixedPips hit' := by
  have hpayload := hhit.payload
  rw [indicatorStop, indicatorStop, hhit.kind_eq, hindex]
  simp only [fixedStop, Node.doubleInput, Node.input_eq h]
  congr 1
  generalize hit.node.data.payload = q, hit'.node.data.payload = q' at hpayload
  cases hpayload with
  | @indicator _ _ a => cases a <;> rfl
  | stop => rfl
  | other => rfl

theorem emitIndicatorStop_matches (h : n.Matches S E m) {p p' : StopLoss} (hp : p.Matches S p')
    (hempty : ∀ name name', p.indicatorNodeId = some name → S name name' →
      (name = "" ↔ name' = ""))
    (hindicators : NodesMatch S E indicators indicators')
    (hnumbers : SameNumbers indicators indicators')
    (hedges : EdgesMatch S edges edges') (hknown : Forall₂ S known known')
    (ctx : Context) :
    (emitIndicatorStop n p indicators edges known ctx).Matches S
      (emitIndicatorStop m p' indicators' edges' known' ctx) := by
  rw [emitIndicatorStop, emitIndicatorStop]
  rcases stopIndicator_matches hS h.id hp hempty hindicators hedges hknown with
    ⟨place, hx, hy⟩ | ⟨f, f', hx, hy, hf⟩
  · have hhit : Option.Rel (fun h h' => h.node.Matches S E h'.node ∧ h.index = h'.index)
        (place.bind (numbered? indicators)) (place.bind (numbered? indicators')) := by
      cases place with
      | none => exact .none
      | some place => exact numbered?_matches hindicators hnumbers place
    simp only [hx, hy]
    generalize place.bind (numbered? indicators) = x, place.bind (numbered? indicators') = y at hhit
    cases hhit with
    | some hhit =>
      have hpips : p'.fixedPips = p.fixedPips := by rw [hp.rest]
      refine ⟨?_, .none⟩
      rw [hpips]
      exact indicatorStop_eq h.common hhit.1 hhit.2 _
    | none =>
      simp only
      split
      · exact ⟨rfl, .some (.node h.id)⟩
      · exact ⟨rfl, .none⟩
  · simp only [hx, hy]
    exact ⟨rfl, .some hf⟩

/-- Matching stops have the same code. The names that they give must be empty on both sides or on
none, if they measure by an indicator. -/
theorem emitStopLoss_matches (h : n.Matches S E m)
    (hempty : ∀ p name name', n.data.payload = .trading (.stopLoss p) → p.method = .indicator →
      p.indicatorNodeId = some name → S name name' → (name = "" ↔ name' = ""))
    (hindicators : NodesMatch S E indicators indicators')
    (hnumbers : SameNumbers indicators indicators')
    (hpriceAction : NodesMatch S E priceAction priceAction')
    (hedges : EdgesMatch S edges edges') (hknown : Forall₂ S known known')
    (ctx : Context) :
    (emitStopLoss n indicators priceAction edges known ctx).Matches S
      (emitStopLoss m indicators' priceAction' edges' known' ctx) := by
  have hpayload := h.payload
  have hrange : priceAction.findIdx? Node.isRangeBreakout =
      priceAction'.findIdx? Node.isRangeBreakout :=
    findIdx?_eq (fun a b hab => by rw [Node.isRangeBreakout, Node.isRangeBreakout, hab.kind_eq])
      hpriceAction
  rw [emitStopLoss, emitStopLoss, hrange, h.kind_eq]
  generalize n.data.payload = q, m.data.payload = q' at hpayload hempty
  cases hpayload with
  | @stop p p' hp =>
    -- only a stop at an indicator reads the field in which the two may differ
    obtain ⟨x, hx⟩ : ∃ x, p' = { p with indicatorNodeId := x } := ⟨_, hp.rest⟩
    subst hx
    simp only
    cases hmethod : p.method with
    | fixedPips => exact ⟨by simp only [fixedStop, Node.doubleInput, Node.input_eq h.common], .none⟩
    | percent => exact ⟨by simp only [percentStop, Node.doubleInput, Node.input_eq h.common], .none⟩
    | atrBased =>
      refine ⟨?_, .none⟩
      simp only [atrStop, Node.intInput, Node.doubleInput, Node.input_eq h.common]
    | rangeOpposite =>
      cases priceAction'.findIdx? Node.isRangeBreakout with
      | some i => exact ⟨rfl, .none⟩
      | none => exact ⟨rfl, .some (.node h.id)⟩
    | indicator =>
      obtain ⟨hcode, hfault⟩ := emitIndicatorStop_matches hS h hp
        (fun name name' hname => hempty p name name' rfl hmethod hname) hindicators hnumbers hedges
        hknown ctx
      rw [hmethod] at hcode hfault
      exact ⟨congrArg ({ stopMethod := some StopMethod.indicator } ++ ·) hcode, hfault⟩
  | indicator hs => exact .refl _
  | other hindicator hstop =>
    split
    · exact absurd rfl hstop
    · exact .refl _

end Stops

/-! ## Signals -/

/-- The optimizer may vary the same, the signals match, and the indicators are the same. -/
def IndicatorMatches (S : String → String → Prop) (x y : Node × Signal × Indicator) : Prop :=
  x.1.data.common = y.1.data.common ∧ x.2.1.Matches S y.2.1 ∧ x.2.2 = y.2.2

section Signals

variable {s s' : Signal}
  {signals signals' : List Signal}
  {nodes nodes' : List (Node × Signal × Indicator)} {indicators indicators' : List Node}

theorem Node.Matches.indicator? {n m : Node} (h : n.Matches S E m) :
    Option.Rel (IndicatorMatches S) n.indicator? m.indicator? := by
  have hpayload := h.payload
  rw [Node.indicator?, Node.indicator?]
  generalize n.data.payload = q, m.data.payload = q' at hpayload
  cases hpayload with
  | indicator hs => exact .some ⟨h.common, hs, rfl⟩
  | stop => exact .none
  | other hindicator =>
    split
    · exact absurd rfl hindicator
    · exact .none

theorem mapM_indicator?_matches (h : NodesMatch S E indicators indicators') :
    Option.Rel (Forall₂ (IndicatorMatches S)) (indicators.mapM Node.indicator?)
      (indicators'.mapM Node.indicator?) := by
  induction h with
  | nil => exact .some .nil
  | @cons n m ns ms hn _ ih =>
    have hfirst := hn.indicator?
    rw [mapM_cons, mapM_cons]
    generalize n.indicator? = x, m.indicator? = y at hfirst
    cases hfirst with
    | none => exact .none
    | some hab =>
      generalize ns.mapM Node.indicator? = xs, ms.mapM Node.indicator? = ys at ih
      cases ih with
      | none => exact .none
      | some hrest => exact .some (.cons hab hrest)

theorem Signal.Matches.leg? (h : s.Matches S s') :
    Option.Rel (fun a b => S a.1 b.1 ∧ a.2 = b.2) s.leg? s'.leg? := by
  have hstrategy := h.strategy
  rw [Signal.leg?, Signal.leg?]
  rw [show s'.entryStrategyType = s.entryStrategyType by rw [h.rest],
    show s'.role = s.role by rw [h.rest]]
  generalize s.entryStrategyId = x, s'.entryStrategyId = y, s.entryStrategyType = type,
    s.role = role at hstrategy
  cases hstrategy with
  | none =>
    split
    · rename_i hnone
      cases hnone
    · exact .none
  | @some a b hab =>
    have hempty : a.isEmpty = b.isEmpty := by
      rw [Bool.eq_iff_iff, String.isEmpty_iff, String.isEmpty_iff]
      exact hab.2
    split
    · rename_i heq
      cases heq
      simp only [hempty]
      split
      · exact .none
      · split
        · exact .some ⟨hab.1, rfl⟩
        · split
          · exact .some ⟨hab.1, rfl⟩
          · exact .none
    · rename_i hother
      split
      · exact (hother a _ rfl rfl rfl).elim
      · exact .none

variable (hS : BiUnique S)

include hS

theorem legIndex?_matches (h : Forall₂ (Signal.Matches S) signals signals') (ha : S a a')
    (fast : Bool) : legIndex? signals a fast = legIndex? signals' a' fast := by
  refine map_eq_of_rel (fun _ _ hxy => hxy.2) (rel_getLast?
    (forall₂_filter (fun x y hxy => ?_) (forall₂_zipIdx h 0)))
  have hleg := hxy.1.leg?
  show (x.1.leg? == some (a, fast)) = (y.1.leg? == some (a', fast))
  generalize x.1.leg? = l, y.1.leg? = l' at hleg
  cases hleg with
  | none => rfl
  | @some b b' hb =>
    rw [Bool.eq_iff_iff, beq_iff_eq, beq_iff_eq, Option.some_inj, Option.some_inj, Prod.ext_iff,
      Prod.ext_iff, hb.2]
    exact and_congr_left' (rel_eq hS hb.1 ha)

theorem pairAt?_matches (h : Forall₂ (Signal.Matches S) signals signals') (i : Nat) :
    pairAt? signals i = pairAt? signals' i := by
  have hleg : Option.Rel (fun a b => S a.1 b.1 ∧ a.2 = b.2) (signals[i]?.bind Signal.leg?)
      (signals'[i]?.bind Signal.leg?) :=
    rel_bind (fun _ _ hs => hs.leg?) (rel_getElem? h i)
  rw [pairAt?, pairAt?]
  generalize signals[i]?.bind Signal.leg? = x, signals'[i]?.bind Signal.leg? = y at hleg
  cases hleg with
  | none => rfl
  | @some a b hab =>
    simp only [crossoverPair?, legIndex?_matches hS h hab.1]

theorem indicatorPart_eq (h : Forall₂ (IndicatorMatches S) nodes nodes') (i : Nat)
    {entry entry' : Node × Signal × Indicator} (hentry : IndicatorMatches S entry entry')
    (program : Program) :
    indicatorPart nodes i entry program = indicatorPart nodes' i entry' program := by
  obtain ⟨n, s, a⟩ := entry
  obtain ⟨m, s', a'⟩ := entry'
  obtain ⟨hcommon, hs, rfl⟩ : n.data.common = m.data.common ∧ s.Matches S s' ∧ a = a' := hentry
  simp only [indicatorPart]
  generalize hpair : pairAt? _ i = pair
  generalize hpair' : pairAt? _ i = pair'
  obtain rfl : pair = pair' := by
    rw [← hpair, ← hpair']
    exact pairAt?_matches hS (rel_map (fun _ _ hxy => hxy.2.1) h) i
  cases pair with
  | some pair =>
    obtain ⟨fast, slow⟩ := pair
    have hleg : IndicatorMatches S (nodes.getD fast (n, s, a)) (nodes'.getD fast (m, s', a)) := by
      have hplace := rel_getElem? h fast
      rw [getD_eq_getElem?_getD, getD_eq_getElem?_getD]
      generalize nodes[fast]? = x, nodes'[fast]? = y at hplace
      cases hplace with
      | none => exact ⟨hcommon, hs, rfl⟩
      | some hxy => exact hxy
    have hseparation : (nodes'.getD fast (m, s', a)).2.1.minEmaSeparation =
        (nodes.getD fast (n, s, a)).2.1.minEmaSeparation := by rw [hleg.2.1.rest]
    simp only [hseparation, Node.doubleInput, Node.input_eq hleg.1]
  | none =>
    obtain ⟨x, rfl⟩ : ∃ x, s' = { s with entryStrategyId := x } := ⟨_, hs.rest⟩
    simp only [Node.doubleInput, Node.input_eq hcommon]
    cases a <;> rfl

theorem signalParts_eq (h : Forall₂ (IndicatorMatches S) nodes nodes')
    {rest rest' : List (Node × Signal × Indicator)}
    (hrest : Forall₂ (IndicatorMatches S) rest rest') (i : Nat) (program : Program) :
    signalParts nodes i rest program = signalParts nodes' i rest' program := by
  induction hrest generalizing i program with
  | nil => rfl
  | cons hentry _ ih => simp only [signalParts, indicatorPart_eq hS h i hentry, ih]

end Signals

/-! ## Steps -/

section SameData

variable {n m : Node} {nodes nodes' : List Node} {ctx : Context}

@[elab_as_elim]
theorem Node.SameData.elim {motive : Node → Node → Prop} (h : n.SameData m)
    (same : ∀ id id' type type' common payload extras extras' position position',
      motive ⟨id, type, ⟨common, payload, extras⟩, position⟩
        ⟨id', type', ⟨common, payload, extras'⟩, position'⟩) : motive n m := by
  obtain ⟨id, type, ⟨common, payload, extras⟩, position⟩ := n
  obtain ⟨id', type', ⟨common', payload', extras'⟩, position'⟩ := m
  obtain ⟨rfl, rfl⟩ : common = common' ∧ payload = payload' := ⟨h.common, h.payload⟩
  exact same _ _ _ _ _ _ _ _ _ _

theorem timingBody_eq (h : n.SameData m) (flag : Mql.Ident) :
    timingBody n flag = timingBody m flag := by
  rw [timingBody, timingBody, Node.kind, Node.kind, h.payload]

theorem emitTiming_eq (h : Forall₂ Node.SameData nodes nodes') :
    emitTiming nodes = emitTiming nodes' := by
  have hscopes {ns ms : List Node} (h : Forall₂ Node.SameData ns ms) (k : Nat) :
      timingScopes k ns = timingScopes k ms := by
    induction h generalizing k with
    | nil => rfl
    | cons hn _ ih => simp only [timingScopes, timingBody_eq hn, ih]
  cases h with
  | nil => rfl
  | cons hn hrest =>
    cases hrest with
    | nil => simp only [emitTiming, timingBody_eq hn]
    | cons hk hrest =>
      simp only [emitTiming, hscopes (.cons hn (.cons hk hrest)), length_cons, hrest.length_eq]

theorem emitSpread_eq (h : Forall₂ Node.SameData nodes nodes') :
    emitSpread nodes = emitSpread nodes' := by
  have hpips : nodes.filterMap Node.maxSpread? = nodes'.filterMap Node.maxSpread? := by
    induction h with
    | nil => rfl
    | @cons n m _ _ hn _ ih =>
      have hself : n.maxSpread? = m.maxSpread? := by
        rw [Node.maxSpread?, Node.maxSpread?, hn.payload]
      rw [filterMap_cons, filterMap_cons, hself, ih]
  rw [emitSpread, emitSpread, hpips]

theorem closeTimeCheck_eq (h : n.SameData m) (p : TimeExit) (i : Nat) (program : Program) :
    closeTimeCheck n p i ctx program = closeTimeCheck m p i ctx program :=
  h.elim (fun _ _ _ _ _ _ _ _ _ _ => rfl)

theorem emitCloseTimeGate_eq (h : Forall₂ Node.SameData nodes nodes') :
    emitCloseTimeGate nodes ctx = emitCloseTimeGate nodes' ctx := by
  have hchecks (k : Nat) (program : Program) :
      closeTimeChecks ctx k nodes program = closeTimeChecks ctx k nodes' program := by
    induction h generalizing k program with
    | nil => rfl
    | @cons n m _ _ hn _ ih =>
      have hself : n.closeTime? = m.closeTime? := by
        rw [Node.closeTime?, Node.closeTime?, hn.payload]
      simp only [closeTimeChecks, hself, closeTimeCheck_eq hn, ih]
  funext program
  rw [emitCloseTimeGate, emitCloseTimeGate, hchecks]

theorem emitPriceAction_matches (h : n.SameData m) (i : Nat) :
    (emitPriceAction n i).Matches S (emitPriceAction m i) := by
  refine h.elim fun _ _ _ _ _ payload _ _ _ _ => ?_
  cases payload with
  | priceAction timeframe action => cases action <;> exact Emission.matches_of_eq rfl rfl
  | _ => exact Emission.matches_of_eq rfl rfl

theorem emitTakeProfit_eq (h : n.SameData m) : emitTakeProfit n = emitTakeProfit m := by
  refine h.elim fun _ _ _ _ _ payload _ _ _ _ => ?_
  cases payload with
  | trading action => cases action <;> rfl
  | _ => rfl

theorem emitOrder_eq (h : n.SameData m) (side : Side) : emitOrder side n = emitOrder side m := by
  refine h.elim fun _ _ _ _ _ payload _ _ _ _ => ?_
  cases payload with
  | trading action => cases action <;> rfl
  | _ => rfl

theorem emitTimeExit_eq (h : n.SameData m) (i : Nat) :
    emitTimeExit n i ctx = emitTimeExit m i ctx := by
  refine h.elim fun _ _ _ _ _ payload _ _ _ _ => ?_
  cases payload with
  | trading action => cases action <;> rfl
  | _ => rfl

theorem emitManagement_matches (h : n.SameData m) (program : Program) :
    (emitManagement n program).Matches S (emitManagement m program) := by
  refine h.elim fun _ _ _ _ _ payload _ _ _ _ => ?_
  cases payload with
  | management rule => cases rule <;> exact Emission.matches_of_eq rfl rfl
  | _ => exact Emission.matches_of_eq rfl rfl

end SameData

section Steps

variable (hS : BiUnique S) {n m : Node}
  {indicators indicators' priceAction priceAction' : List Node} {edges edges' : List Edge}
  {known known' : List String} {ctx : Context}

theorem emitIndicator_matches (h : n.Matches S E m) (i : Nat) :
    (emitIndicator n i).Matches S (emitIndicator m i) := by
  have hpayload := h.payload
  rw [emitIndicator, emitIndicator, h.kind_eq]
  generalize n.data.payload = q, m.data.payload = q' at hpayload
  cases hpayload with
  | @indicator s s' a hs =>
    have hcode (timeframe : Option String) :
        indicatorCode n i timeframe a = indicatorCode m i timeframe a := by
      cases a <;> simp only [indicatorCode, Node.intInput, Node.doubleInput, Node.input_eq h.common]
    refine ⟨?_, .none⟩
    simp only [hcode, show s'.timeframe = s.timeframe by rw [hs.rest]]
  | stop => exact .refl _
  | other hindicator =>
    split
    · exact absurd rfl hindicator
    · exact .refl _

theorem priceActionParts_eq (h : Forall₂ Node.SameData priceAction priceAction') (i : Nat) :
    priceActionParts i priceAction = priceActionParts i priceAction' := by
  induction h generalizing i with
  | nil => rfl
  | @cons n m _ _ hn _ ih =>
    simp only [priceActionParts, Node.kind, hn.payload, ih]

theorem orderSizes_eq {orders orders' : Orders}
    (hbuy : Option.Rel Node.SameData orders.buy orders'.buy)
    (hsell : Option.Rel Node.SameData orders.sell orders'.sell) :
    orderSizes orders = orderSizes orders' := by
  have hsizing {n m : Node} (h : n.SameData m) : n.sizing? = m.sizing? := by
    rw [Node.sizing?, Node.sizing?, h.payload]
  rw [orderSizes, orderSizes]
  generalize orders.buy = x, orders'.buy = y at hbuy
  generalize orders.sell = z, orders'.sell = w at hsell
  cases hbuy with
  | none =>
    cases hsell with
    | none => rfl
    | some hn => simp only [hsizing hn]
  | some hm =>
    cases hsell with
    | none => simp only [hsizing hm]
    | some hn => simp only [hsizing hm, hsizing hn]

include hS

theorem allConditions_eq (hindicators : NodesMatch S E indicators indicators')
    (hpriceAction : Forall₂ Node.SameData priceAction priceAction') (program : Program) :
    allConditions indicators priceAction program =
      allConditions indicators' priceAction' program := by
  have hmap := mapM_indicator?_matches hindicators
  rw [allConditions, allConditions, priceActionParts_eq hpriceAction]
  generalize indicators.mapM Node.indicator? = x, indicators'.mapM Node.indicator? = y at hmap
  cases hmap with
  | none => rfl
  | some h => simp only [signalParts_eq hS h h]

omit hS in
theorem entryOrders_eq {program : Program} {inputs : List Input} {sizes : List (Side × Sizing)}
    (hcancels : (∃ x ∈ sizes, x.2.isPending = true) →
      priceAction.any Node.cancelsOpposite = priceAction'.any Node.cancelsOpposite) :
    entryOrders ctx program inputs sizes priceAction =
      entryOrders ctx program inputs sizes priceAction' := by
  rw [entryOrders, entryOrders]
  generalize hpending : sizes.filter _ = pending
  cases pending with
  | nil => rfl
  | cons x xs =>
    have hx := mem_filter.mp (hpending ▸ mem_cons_self (a := x))
    rw [hcancels ⟨x, hx⟩]

theorem emitEntry_eq (hindicators : NodesMatch S E indicators indicators')
    (hpriceAction : Forall₂ Node.SameData priceAction priceAction')
    {orders orders' : Orders}
    (hcancels : (∃ side n s, orders.of side = some n ∧ n.sizing? = some s ∧ s.isPending = true) →
      priceAction.any Node.cancelsOpposite = priceAction'.any Node.cancelsOpposite)
    (hbuy : Option.Rel Node.SameData orders.buy orders'.buy)
    (hsell : Option.Rel Node.SameData orders.sell orders'.sell) :
    emitEntry indicators priceAction orders ctx =
      emitEntry indicators' priceAction' orders' ctx := by
  funext program
  have hopening : entryOpening ctx orders = entryOpening ctx orders' := by
    funext c
    simp only [entryOpening, conditionStmts, isSome_eq_of_rel hbuy, isSome_eq_of_rel hsell]
  have hsizes := orderSizes_eq hbuy hsell
  rw [emitEntry, emitEntry, allConditions_eq hS hindicators hpriceAction, hopening, ← hsizes,
    ← Option.not_isSome, ← Option.not_isSome, ← Option.not_isSome, ← Option.not_isSome,
    isSome_eq_of_rel hbuy, isSome_eq_of_rel hsell]
  cases horders : orderSizes orders with
  | error f => rfl
  | ok sizes =>
    have hrest (inputs : List Input) : entryOrders ctx program inputs sizes priceAction =
        entryOrders ctx program inputs sizes priceAction' := by
      refine entryOrders_eq fun h => hcancels ?_
      obtain ⟨⟨side, s⟩, hs, hpending⟩ := h
      obtain ⟨n, hn, hsizing⟩ := sizing_of_mem_orderSizes horders hs
      exact ⟨side, n, s, hn, hsizing, hpending⟩
    simp only [hrest]

theorem exitSignal_eq (hindicators : NodesMatch S E indicators indicators')
    (hpriceAction : NodesMatch S E priceAction priceAction') (ha : S a a') :
    exitSignal indicators priceAction a = exitSignal indicators' priceAction' a' := by
  rw [exitSignal, exitSignal, lastIndex?_matches hS hindicators ha,
    lastIndex?_matches hS hpriceAction ha]
  cases lastIndex? indicators' a' with
  | some i =>
    have hplace : Option.Rel (IndicatorMatches S) (indicators[i]?.bind Node.indicator?)
        (indicators'[i]?.bind Node.indicator?) :=
      rel_bind (fun _ _ hn => hn.indicator?) (rel_getElem? hindicators i)
    simp only
    generalize indicators[i]?.bind Node.indicator? = x, indicators'[i]?.bind Node.indicator? = y
      at hplace
    cases hplace with
    | none => rfl
    | @some x y hxy =>
      obtain ⟨n, s, a⟩ := x
      obtain ⟨m, s', a'⟩ := y
      obtain ⟨-, hs, rfl⟩ : n.data.common = m.data.common ∧ s.Matches S s' ∧ a = a' := hxy
      have hreversal : a.reversal i s = a.reversal i s' := by
        rw [hs.rest]
        cases a <;> rfl
      simp only [hreversal]
  | none =>
    cases lastIndex? priceAction' a' with
    | none => rfl
    | some i =>
      have hplace := rel_getElem? hpriceAction i
      simp only
      generalize priceAction[i]? = x, priceAction'[i]? = y at hplace
      cases hplace with
      | none => rfl
      | @some n m hn =>
        have hpayload := hn.payload
        simp only [hn.kind_eq]
        generalize n.data.payload = q, m.data.payload = q' at hpayload
        cases hpayload <;> rfl

theorem exitSignals_eq (hindicators : NodesMatch S E indicators indicators')
    (hpriceAction : NodesMatch S E priceAction priceAction')
    {ids ids' : List String} (h : Forall₂ S ids ids') :
    exitSignals indicators priceAction ids = exitSignals indicators' priceAction' ids' := by
  induction h with
  | nil => rfl
  | cons ha _ ih => rw [exitSignals, exitSignals, exitSignal_eq hS hindicators hpriceAction ha, ih]

theorem emitCloseCondition_matches (h : n.SameData m) (hid : S n.id m.id) (i : Nat)
    (hindicators : NodesMatch S E indicators indicators')
    (hpriceAction : NodesMatch S E priceAction priceAction')
    (hedges : EdgesMatch S edges edges') :
    (emitCloseCondition n i indicators priceAction edges).Matches S
      (emitCloseCondition m i indicators' priceAction' edges') := by
  have hkind : n.kind = m.kind := congrArg Payload.kind h.payload
  rw [emitCloseCondition, emitCloseCondition, h.payload, hkind,
    exitSignals_eq hS hindicators hpriceAction (neighbours_matches hS hid hedges)]
  split
  · split
    · exact .refl _
    · split <;> exact Emission.matches_of_eq rfl rfl
  · exact .refl _

end Steps

/-! ## Plans -/

/-- The steps emit the same code after every program, and fail with matching faults. -/
def Step.Matches (S : String → String → Prop) (s s' : Step) : Prop :=
  ∀ program, (s program).Matches S (s' program)

theorem Step.matches_of_eq {s s' : Step} (h : s = s') : s.Matches S s' := fun program => by
  rw [h]
  exact .refl _

theorem always_matches (h : e.Matches S e') :
    Step.Matches S (always e) (always e') := fun _ => h

theorem Emission.inOrder_matches {ss ss' : List Step} (h : Forall₂ (Step.Matches S) ss ss')
    (program : Program) : (inOrder ss program).Matches S (inOrder ss' program) := by
  induction h generalizing program with
  | nil => exact .refl _
  | @cons s s' _ _ hs _ ih =>
    obtain ⟨hcode, hfault⟩ := hs program
    rw [inOrder, inOrder]
    generalize hx : (s program).fault = x, hy : (s' program).fault = y at hfault
    cases hfault with
    | some hf =>
      -- both stop here, with the code up to the fault
      refine ⟨hcode, ?_⟩
      simp only [hx, hy]
      exact .some hf
    | none =>
      simp only [hcode]
      exact ⟨congrArg ((s' program).code ++ ·) (ih _).code, (ih _).fault⟩

/-- The same program, or matching faults. -/
inductive OutcomeMatches (S : String → String → Prop) :
    Except Fault Compiled → Except Fault Compiled → Prop
  | ok (c : Compiled) : OutcomeMatches S (.ok c) (.ok c)
  | error {f f' : Fault} : f.Matches S f' → OutcomeMatches S (.error f) (.error f')

theorem OutcomeMatches.ok_iff {x y : Except Fault Compiled} (h : OutcomeMatches S x y)
    (c : Compiled) : x = .ok c ↔ y = .ok c := by
  cases h with
  | ok => exact Iff.rfl
  | error => exact iff_of_false nofun nofun

theorem OutcomeMatches.eq_of_eq {x y : Except Fault Compiled} (h : OutcomeMatches Eq x y) :
    x = y := by
  cases h with
  | ok => rfl
  | error hf =>
    cases hf with
    | same => rfl
    | node hid => rw [hid]
    | name hid hname => rw [hid, hname]

theorem Emission.Matches.outcome (h : e.Matches S e') (ctx : Context) :
    OutcomeMatches S (e.outcome ctx) (e'.outcome ctx) := by
  have hfault := h.fault
  rw [Emission.outcome, Emission.outcome, h.code]
  generalize e.fault = x, e'.fault = y at hfault
  cases hfault with
  | none => exact .ok _
  | some hf => exact .error hf

section Plans

variable (hS : BiUnique S)
  {live live' : List Node}
  {edges edges' : List Edge} {known known' : List String} {ctx : Context}
  (h : NodesMatch S E live live')

include h

theorem withRole_sameData (role : Role) (hother : role ≠ .indicator ∧ role ≠ .stopLoss) :
    Forall₂ (fun n m => S n.id m.id ∧ n.SameData m) (withRole role live)
      (withRole role live') := by
  have hrole : Role.All role (withRole role live) := fun _ => role_of_mem
  refine ((forall₂_and_left _ _).mpr ⟨hrole, withRole_matches h role⟩).imp fun n m hn => ?_
  exact ⟨hn.2.id, hn.2.sameData hn.1 hother⟩

theorem context_eq (project : String) (settings : Settings) (options : Options) :
    Context.build project settings options (Roles.ofNodes live).timing =
      Context.build project settings options (Roles.ofNodes live').timing := by
  have htiming := withRole_sameData h .timing (by decide)
  have hrole : Role.All .timing (withRole .timing live) := fun _ => role_of_mem
  have hany : (withRole .timing live).any Node.usesServerTime =
      (withRole .timing live').any Node.usesServerTime := by
    refine any_eq (fun n m hn => ?_) ((forall₂_and_left _ _).mpr ⟨hrole, htiming⟩)
    obtain ⟨useServerTime, rule, hpayload⟩ := Payload.of_role hn.1
    rw [Node.usesServerTime, Node.usesServerTime, ← hn.2.2.payload, hpayload]
  simp only [Context.build, Roles.ofNodes, hany, isEmpty_eq htiming]

omit h in
def Node.isPendingOrder (n : Node) : Bool :=
  n.sizing?.any Sizing.isPending

/-- Entries kept besides the fields show in two ways: in the numbers of indicators and in whether a
pending order cancels its opposite. -/
structure ExtrasAgree (live live' : List Node) : Prop where
  numbers : ∀ place, (numbered? (withRole .indicator live) place).map Numbered.index =
    (numbered? (withRole .indicator live') place).map Numbered.index
  cancels : (∃ n ∈ live, n.isPendingOrder = true) →
    (withRole .priceAction live).any Node.cancelsOpposite =
      (withRole .priceAction live').any Node.cancelsOpposite

/-- If the first stop names the indicator it is placed at, the name is empty on both sides or on
none. -/
def StopNamed (S : String → String → Prop) (live : List Node) : Prop :=
  (Roles.ofNodes live).hasEntry = true →
    ∀ n p name name', (Roles.ofNodes live).stopLoss.head? = some n →
      n.data.payload = .trading (.stopLoss p) → p.method = .indicator →
        p.indicatorNodeId = some name → S name name' → (name = "" ↔ name' = "")

theorem first_sameData (role : Role) (hother : role ≠ .indicator ∧ role ≠ .stopLoss) :
    Option.Rel Node.SameData (withRole role live).head? (withRole role live').head? :=
  rel_imp (fun _ _ hn => hn.2) (rel_head? (withRole_sameData h role hother))

include hS

omit h hS in
theorem exists_pendingOrder (hpending : ∃ side n s, (Roles.ofNodes live).orders.of side = some n ∧
    n.sizing? = some s ∧ s.isPending = true) : ∃ n ∈ live, n.isPendingOrder = true := by
  obtain ⟨side, n, s, hn, hs, hpending⟩ := hpending
  refine ⟨n, ?_, by rw [Node.isPendingOrder, hs]; exact hpending⟩
  cases side with
  | buy => exact mem_of_mem_filter (mem_of_head? hn)
  | sell => exact mem_of_mem_filter (mem_of_head? hn)

theorem riskSteps_matches (hextras : ExtrasAgree live live') (hempty : StopNamed S live)
    (hedges : EdgesMatch S edges edges') (hknown : Forall₂ S known known') :
    Forall₂ (Step.Matches S) (riskSteps (Roles.ofNodes live) edges known ctx)
      (riskSteps (Roles.ofNodes live') edges' known' ctx) := by
  have horders {x y : Option Node} (hxy : Option.Rel Node.SameData x y) (side : Side) :
      Forall₂ (Step.Matches S) (x.toList.map (emitOrder side)) (y.toList.map (emitOrder side)) := by
    cases hxy with
    | none => exact .nil
    | some hn => exact .cons (Step.matches_of_eq (emitOrder_eq hn side)) .nil
  have hentry : (Roles.ofNodes live).hasEntry = (Roles.ofNodes live').hasEntry := by
    simp only [Roles.hasEntry, Roles.ofNodes, isEmpty_eq (withRole_matches h _)]
  rw [riskSteps, riskSteps, hentry]
  split
  · exact .nil
  · rename_i hsome
    replace hempty := hempty (by rw [hentry]; simpa using hsome)
    refine .cons ?_ (.cons ?_ (rel_append (horders (first_sameData h .buy (by decide)) .buy)
      (horders (first_sameData h .sell (by decide)) .sell)))
    · rw [stopStep, stopStep]
      have hstop : Option.Rel (Node.Matches S E) (Roles.ofNodes live).stopLoss.head?
          (Roles.ofNodes live').stopLoss.head? := rel_head? (withRole_matches h .stopLoss)
      generalize (Roles.ofNodes live).stopLoss.head? = x,
        (Roles.ofNodes live').stopLoss.head? = y at hstop hempty
      cases hstop with
      | none => exact fun _ => .refl _
      | @some n m hn =>
        exact fun _ => emitStopLoss_matches hS hn (fun p name name' => hempty n p name name' rfl)
          (withRole_matches h .indicator) hextras.numbers
          (withRole_matches h .priceAction) hedges hknown ctx
    · rw [targetStep, targetStep]
      have htarget : Option.Rel Node.SameData (Roles.ofNodes live).takeProfit.head?
          (Roles.ofNodes live').takeProfit.head? := first_sameData h .takeProfit (by decide)
      generalize (Roles.ofNodes live).takeProfit.head? = x,
        (Roles.ofNodes live').takeProfit.head? = y at htarget
      cases htarget with
      | none => exact fun _ => .refl _
      | some hn => exact Step.matches_of_eq (emitTakeProfit_eq hn)

/-- **The plans of matching nodes match**, step by step. Only the name that the first stop gives
must be empty on both sides or on none. -/
theorem plan_matches (hextras : ExtrasAgree live live') (hempty : StopNamed S live)
    (hedges : EdgesMatch S edges edges') (hknown : Forall₂ S known known') :
    Forall₂ (Step.Matches S) (plan (Roles.ofNodes live) edges known ctx)
      (plan (Roles.ofNodes live') edges' known' ctx) := by
  have hindicators := withRole_matches h .indicator
  have hactions := withRole_matches h .priceAction
  have hdata (role : Role) (hother : role ≠ .indicator ∧ role ≠ .stopLoss) :
      Forall₂ Node.SameData (withRole role live) (withRole role live') :=
    (withRole_sameData h role hother).imp fun _ _ hn => hn.2
  have hentry : Step.Matches S
      (emitEntry (Roles.ofNodes live).indicators (Roles.ofNodes live).priceAction
        (Roles.ofNodes live).orders ctx)
      (emitEntry (Roles.ofNodes live').indicators (Roles.ofNodes live').priceAction
        (Roles.ofNodes live').orders ctx) :=
    Step.matches_of_eq (emitEntry_eq hS hindicators (hdata .priceAction (by decide))
      (fun hpending => hextras.cancels (exists_pendingOrder hpending))
      (first_sameData h .buy (by decide)) (first_sameData h .sell (by decide)))
  refine rel_append (rel_append (rel_append (rel_append (rel_append
    (rel_append (rel_append (rel_append
      (.cons (Step.matches_of_eq rfl) (.cons ?_ (.cons ?_ (.cons ?_ .nil)))) ?_) ?_)
      (riskSteps_matches hS h hextras hempty hedges hknown)) (.cons hentry .nil)) ?_) ?_) ?_)
    (.cons (Step.matches_of_eq rfl) .nil)
  · exact Step.matches_of_eq (congrArg always (emitSpread_eq (hdata .spread (by decide))))
  · exact Step.matches_of_eq (congrArg always (emitTiming_eq (hdata .timing (by decide))))
  · exact Step.matches_of_eq (emitCloseTimeGate_eq (hdata .timeExit (by decide)))
  · refine forall₂_map_zipIdx (fun n m i hn => ?_) hindicators
    exact always_matches (emitIndicator_matches hn i)
  · refine forall₂_map_zipIdx (fun n m i hn => ?_) (hdata .priceAction (by decide))
    exact always_matches (emitPriceAction_matches hn i)
  · refine forall₂_map_zipIdx (fun n m i hn => ?_) (withRole_sameData h .closeCondition (by decide))
    exact always_matches (emitCloseCondition_matches hS hn.2 hn.1 i hindicators hactions hedges)
  · refine forall₂_map_zipIdx (fun n m i hn => ?_) (hdata .timeExit (by decide))
    exact Step.matches_of_eq (emitTimeExit_eq hn i)
  · refine forall₂_map_left_iff.mpr (forall₂_map_right_iff.mpr ?_)
    exact (hdata .management (by decide)).imp fun n m hn => emitManagement_matches hn

end Plans

/-- Nodes that match in all their entries agree in what the entries show. -/
theorem ExtrasAgree.of_sameExtras (hS : BiUnique S)
    {live live' : List Node} (h : NodesMatch S Node.SameExtras live live') :
    ExtrasAgree live live' where
  numbers := numbers_eq hS (withRole_matches h .indicator) fun _ => role_of_mem
  cancels _ := by
    have hrole : Role.All .priceAction (withRole .priceAction live) := fun _ => role_of_mem
    refine any_eq (fun n m hn => ?_)
      ((forall₂_and_left _ _).mpr ⟨hrole, withRole_matches h .priceAction⟩)
    have hextras : n.data.extras = m.data.extras := hn.2.extras
    have hpayload := (hn.2.sameData hn.1 (by decide)).payload
    rw [Node.cancelsOpposite, Node.cancelsOpposite, NodeData.hasExtra, NodeData.hasExtra, hextras,
      hpayload]

/-- **Graphs that match compile alike**: if the nodes and edges after expansion match, both compile
to the same program or fail with matching faults. -/
theorem Graph.compile_matches (hS : BiUnique S) {g g' : Graph}
    (hids : Forall₂ S (g.nodes.map Node.id) (g'.nodes.map Node.id))
    (hnodes : NodesMatch S E (expand g.nodes g.edges).nodes (expand g'.nodes g'.edges).nodes)
    (hedges : EdgesMatch S (expand g.nodes g.edges).edges (expand g'.nodes g'.edges).edges)
    (hsettings : g.settings = g'.settings) (hextras : ExtrasAgree g.liveNodes g'.liveNodes)
    (hempty : StopNamed S g.liveNodes) (project : String) (options : Options) :
    OutcomeMatches S (g.compile project options).result (g'.compile project options).result := by
  have hlive : NodesMatch S E g.liveNodes g'.liveNodes :=
    keepLive_matches hS hnodes hedges
  have hcontext : g.context project options = g'.context project options := by
    rw [Graph.context, Graph.context, hsettings]
    exact context_eq hlive project g'.settings options
  have hemission : (g.emission (Roles.ofNodes g.liveNodes) (g.context project options)).Matches S
      (g'.emission (Roles.ofNodes g'.liveNodes) (g.context project options)) :=
    Emission.inOrder_matches (plan_matches hS hlive hextras hempty hedges
      (rel_append hids (ids_matches hnodes))) {}
  rw [Graph.compile_eq_outcome, Graph.compile_eq_outcome, ← hcontext]
  exact hemission.outcome _

end TradeGraph

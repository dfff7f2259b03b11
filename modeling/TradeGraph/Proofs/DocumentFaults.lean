import TradeGraph.Proofs.Decimals
import TradeGraph.Proofs.Loading

/-!
# Faults of documents

The program that reads documents tells one class of faults to its user, those of the document. If
lists are lists of objects, names of kinds are texts and numbers in settings are finite, there are
no others: ids, ends of edges, fields and settings may be any values, and are refused in an orderly
way.
-/

namespace TradeGraph

variable {α β : Type} {v : Json} {es : Entries}
variable {P : α → Prop} {x : Except Fault α} {type : Json}

/-! ## Outcomes -/

/-- There is a result, with a property, or else a fault of the document. -/
def Told (P : α → Prop) : Except Fault α → Prop
  | .ok a => P a
  | .error f => ∃ node fault, f = .document node fault

theorem Told.bind {Q : β → Prop} {f : α → Except Fault β}
    (hx : Told P x) (hf : ∀ a, P a → Told Q (f a)) : Told Q (x >>= f) := by
  cases x with
  | error e => exact hx
  | ok a => exact hf a hx

theorem Told.mono {Q : α → Prop} (hx : Told P x) (h : ∀ a, P a → Q a) :
    Told Q x := by
  cases x with
  | error e => exact hx
  | ok a => exact h a hx

theorem mapIndexed_told {γ : Type} {k : α → γ} {g : β → γ} {P : β → Prop}
    {f : α → Nat → Except Fault β} {as : List α}
    (h : ∀ a ∈ as, ∀ i, Told (fun b => g b = k a ∧ P b) (f a i)) (i : Nat) :
    Told (fun bs => bs.map g = as.map k ∧ ∀ b ∈ bs, P b) (mapIndexed f i as) := by
  induction as generalizing i with
  | nil => exact ⟨rfl, List.forall_mem_nil _⟩
  | cons a as ih =>
    obtain ⟨ha, has⟩ := List.forall_mem_cons.mp h
    refine (ha i).bind fun b ⟨hb, hp⟩ => (ih has (i + 1)).bind fun bs ⟨hbs, hps⟩ => ?_
    exact ⟨congrArg₂ List.cons hb hbs, List.forall_mem_cons.mpr ⟨hp, hps⟩⟩

/-! ## Values -/

def Json.isObject : Json → Bool
  | .obj _ => true
  | _ => false

/-- A list of objects, or nothing. -/
def Json.isObjects : Json → Bool
  | .null => true
  | .arr items => items.all Json.isObject
  | _ => false

/-- The items of a list; any other value has none. -/
def Json.items : Json → List Json
  | .arr items => items
  | _ => []

/-- A text, or nothing. -/
def Json.isName : Json → Bool
  | .null | .str _ => true
  | _ => false

/-- Is the value no number, or one that is or has a finite double? -/
def Json.inRange : Json → Bool
  | .int n => Double.isFinite (Double.ofInt n)
  | .float x => Double.isFinite x
  | _ => true

theorem itemsOf_eq (h : v.isObjects = true) : itemsOf v = .ok v.items := by
  cases v with
  | null => rfl
  | arr items => cases items <;> rfl
  | _ => cases h

theorem Json.eq_obj_of_isObjects (h : v.isObjects = true) : ∀ x ∈ v.items, x = .obj x.entries := by
  cases v with
  | arr items =>
    intro x hx
    have hobj := List.all_eq_true.mp h x hx
    cases x <;> first | rfl | cases hobj
  | _ => exact fun x hx => nomatch hx

theorem Double.text_ne_empty (x : Float) : text x ≠ "" := by
  intro h
  have hfinite := isDecimal_text x
  rw [h, isFinite] at hfinite
  rw [text] at h
  cases hparts : parts x with
  | nan => simp [hparts] at h
  | infinite negative => cases negative <;> simp [hparts] at h
  | finite =>
    rw [hparts] at hfinite
    cases hfinite

theorem Json.asText_ne_empty (h : v.truthy = true) : v.asText ≠ "" := by
  cases v with
  | null => cases h
  | bool b => cases b <;> decide
  | int n =>
    intro hempty
    have hdecimal := isDecimal_int n
    rw [show toString n = "" from hempty] at hdecimal
    cases hdecimal
  | float x => exact Double.text_ne_empty x
  | str s => simpa [Json.truthy, Json.asText] using h
  | arr items => simp [Json.asText, Json.shown]
  | obj entries => simp [Json.asText, Json.shown]

/-! ## Nodes and edges -/

theorem Kind.ofType_told (htype : type.isName = true) (category : Json) :
    Told (fun _ => True) (Kind.ofType type category) := by
  cases type with
  | null => exact ⟨_, _, rfl⟩
  | str s =>
    rw [Kind.ofType]
    split
    · exact ⟨_, _, rfl⟩
    · cases Kind.ofTypeName? s with
      | none => exact ⟨_, _, rfl⟩
      | some k => trivial
  | _ => cases htype

theorem Kind.inCategory?_told (htype : type.isName = true) (c : Category) :
    Told (fun _ => True) (Kind.inCategory? c type) := by
  unfold Kind.inCategory?
  cases type with
  | null => simp [Kind.named?, Json.truthy, Told]
  | str s =>
    split
    · exact True.intro
    · split <;> exact True.intro
  | _ => cases htype

theorem Kind.resolve_told (htype : type.isName = true)
    (hcategory : (es.get "category").isName = true) :
    Told (fun _ => True) (Kind.resolve type es) := by
  rw [Kind.resolve]
  split
  · rename_i key c _
    dsimp only
    cases Kind.named? c (es.get key) with
    | none => exact ⟨_, _, rfl⟩
    | some k => trivial
  · generalize es.get "category" = category at hcategory
    cases category with
    | null => exact Kind.ofType_told htype _
    | str s =>
      dsimp only
      split
      · refine (Kind.inCategory?_told htype _).bind fun k _ => ?_
        cases k with
        | none => exact Kind.ofType_told htype _
        | some k => trivial
      · exact Kind.ofType_told htype _
    | _ => cases hcategory

theorem NodeData.parse_told (htype : type.isName = true)
    (hcategory : (es.get "category").isName = true) (id : String) :
    Told (fun _ => True) (NodeData.parse id type es) := by
  have hkind := Kind.resolve_told htype hcategory
  rw [NodeData.parse]
  cases hresolve : Kind.resolve type es with
  | error f =>
    rw [hresolve] at hkind
    obtain ⟨node, fault, rfl⟩ := hkind
    exact ⟨_, _, rfl⟩
  | ok k =>
    dsimp only
    cases NodeData.read k es with
    | error fault => exact ⟨_, _, rfl⟩
    | ok d => trivial

theorem Node.ofEntries_told (htype : (es.get "type").isName = true)
    (hcategory : ((es.get "data").entries.get "category").isName = true) (index : Nat) :
    Told (fun n => n.id = (es.get "id").asText ∧ n.id ≠ "") (Node.ofEntries es index) := by
  rw [Node.ofEntries]
  split
  · exact ⟨_, _, rfl⟩
  · rename_i hid
    have hne : (es.get "id").asText ≠ "" := Json.asText_ne_empty (by simpa using hid)
    have hdata {data : Entries} (h : (data.get "category").isName = true) (make : NodeData → Node)
        (hid : ∀ d, (make d).id = (es.get "id").asText) :
        Told (fun n => n.id = (es.get "id").asText ∧ n.id ≠ "")
          (NodeData.parse (es.get "id").asText (es.get "type") data >>= fun d => .ok (make d)) :=
      (NodeData.parse_told htype h _).bind fun d _ => ⟨hid d, hid d ▸ hne⟩
    dsimp only
    split
    · exact hdata rfl _ fun _ => rfl
    · split
      · rename_i h
        rw [h] at hcategory
        exact hdata hcategory _ fun _ => rfl
      · exact ⟨_, _, rfl⟩

theorem Edge.ofEntries_told (es : Entries) (index : Nat) :
    Told (fun e => (e.source, e.target) = ((es.get "source").asText, (es.get "target").asText))
      (Edge.ofEntries es index) := by
  rw [Edge.ofEntries]
  split
  · exact ⟨_, _, rfl⟩
  · rfl

/-! ## Settings -/

/-- The value of a setting is the one given, or the initial one if none is. -/
def Settings.Takes (es : Entries) (key : String) (cast : Json → Except Cast.Failure α)
    (initial a : α) :
    Prop :=
  ∃ given, Settings.one es key cast = .ok given ∧ a = given.getD initial

/-- The settings of an object: at least one trade is open at a time, the mode has its word, and each
side has a ceiling, by default that of all trades. -/
structure Settings.Filled (es : Entries) (s : Settings) : Prop where
  trades : 1 ≤ s.maxOpenTrades
  mode : Settings.Takes es "conditionMode" Cast.text "AND" s.conditionMode.word
  buys : Settings.Takes es "maxBuyPositions" Cast.integer s.maxOpenTrades s.maxBuyPositions
  sells : Settings.Takes es "maxSellPositions" Cast.integer s.maxOpenTrades s.maxSellPositions

theorem Cast.integer_inRange (h : v.inRange = true) : Cast.integer v ≠ .error .outOfRange := by
  cases v with
  | float x =>
    rw [Json.inRange, Double.isFinite] at h
    rw [Cast.integer]
    split <;> simp_all
  | str s =>
    rw [Cast.integer]
    split <;> rintro ⟨⟩
  | _ => rintro ⟨⟩

theorem Cast.number_inRange (h : v.inRange = true) : Cast.number v ≠ .error .outOfRange := by
  cases v with
  | int n =>
    rw [Cast.number, if_pos (show Double.isFinite _ = true from h)]
    exact nofun
  | str s =>
    rw [Cast.number]
    split <;> exact nofun
  | _ => exact nofun

theorem Settings.one_told {key : String} {cast : Json → Except Cast.Failure α}
    (h : cast (es.get key) ≠ .error .outOfRange) :
    Told (fun a => Settings.one es key cast = .ok a) (Settings.one es key cast) := by
  cases hone : Settings.one es key cast with
  | ok a => rfl
  | error f =>
    rw [Settings.one] at hone
    split at hone
    · cases hone
    · split at hone
      · cases hone
      · cases hone
        exact ⟨_, _, rfl⟩
      · exact absurd ‹_› h

theorem Settings.mode_told (w : String) : Told (fun m => m.word = w) (Settings.mode w) := by
  rw [Settings.mode]
  split
  · exact (beq_iff_eq.mp ‹_›).symm
  · split
    · exact (beq_iff_eq.mp ‹_›).symm
    · exact ⟨_, _, rfl⟩

theorem Settings.ofEntries_told (h : ∀ x ∈ es, x.2.inRange = true) :
    Told (Settings.Filled es) (Settings.ofEntries es) := by
  have hrange (key : String) : (es.get key).inRange = true := by
    rw [Entries.get]
    cases hfind : es.find? key with
    | none => rfl
    | some v => exact h _ (Entries.mem_of_find? hfind)
  have hinteger (key : String) := one_told (Cast.integer_inRange (hrange key))
  have hnumber (key : String) := one_told (Cast.number_inRange (hrange key))
  have htext (key : String) : Told _ (one es key Cast.text) := one_told nofun
  have hflag : Cast.flag (es.get "allowHedging") ≠ .error .outOfRange := by
    cases es.get "allowHedging" <;> exact nofun
  refine (hinteger _).bind fun magic _ => (htext _).bind fun comment _ => ?_
  refine (hinteger _).bind fun trades _ => (one_told hflag).bind fun hedging _ => ?_
  refine (hinteger _).bind fun buys hbuys => (hinteger _).bind fun sells hsells => ?_
  refine (htext _).bind fun word hword => (hinteger _).bind fun daily _ => ?_
  refine (hnumber _).bind fun profit _ => (hnumber _).bind fun loss _ => ?_
  refine (mode_told _).bind fun mode hmode => ?_
  dsimp only
  split
  · exact ⟨_, _, rfl⟩
  · exact ⟨Int.not_lt.mp ‹_›, ⟨word, hword, hmode⟩, ⟨buys, hbuys, rfl⟩, ⟨sells, hsells, rfl⟩⟩

theorem Settings.read_told (htable : v = .null ∨ v.isObject = true)
    (h : ∀ x ∈ v.entries, x.2.inRange = true) :
    Told (Settings.Filled v.entries) (Settings.read v) := by
  have hnone : Settings.Filled [] {} :=
    ⟨by decide, ⟨none, rfl, rfl⟩, ⟨none, rfl, rfl⟩, ⟨none, rfl, rfl⟩⟩
  cases v with
  | null => exact hnone
  | obj es =>
    cases es with
    | nil => exact hnone
    | cons e es => exact ofEntries_told h
  | _ => simp [Json.isObject] at htable

/-! ## Documents -/

/-- A document of the expected form: lists of objects, names of kinds that are texts, and settings
whose numbers are finite. Each of them may be absent. -/
structure Entries.Regular (es : Entries) : Prop where
  nodes : (es.get "nodes").isObjects = true
  edges : (es.get "edges").isObjects = true
  types : ∀ x ∈ (es.get "nodes").items, (x.entries.get "type").isName = true
  categories : ∀ x ∈ (es.get "nodes").items,
    ((x.entries.get "data").entries.get "category").isName = true
  settings : es.get "settings" = .null ∨ (es.get "settings").isObject = true
  numbers : ∀ x ∈ (es.get "settings").entries, x.2.inRange = true

theorem Graph.readNodes_told (h : es.Regular) :
    Told (fun nodes => nodes.map Node.id = (es.get "nodes").items.map
        (fun x => (x.entries.get "id").asText) ∧ (∀ n ∈ nodes, n.id ≠ "") ∧
        (nodes.map Node.id).Nodup)
      (Graph.readNodes (es.get "nodes")) := by
  rw [Graph.readNodes, itemsOf_eq h.nodes]
  refine (mapIndexed_told (g := Node.id) (k := fun x => (x.entries.get "id").asText)
    (P := fun n => n.id ≠ "") (fun x hx i => ?_) 0).bind fun nodes hnodes => ?_
  · rw [Json.eq_obj_of_isObjects h.nodes x hx]
    exact Node.ofEntries_told (h.types x hx) (h.categories x hx) i
  · split
    · exact ⟨_, _, rfl⟩
    · exact ⟨hnodes.1, hnodes.2, (nodup_of_duplicateId?_eq_none ‹_›).1⟩

theorem Graph.readEdges_told (h : v.isObjects = true) :
    Told (fun edges => edges.map (fun e => (e.source, e.target)) = v.items.map
        (fun x => ((x.entries.get "source").asText, (x.entries.get "target").asText)))
      (Graph.readEdges v) := by
  rw [Graph.readEdges, itemsOf_eq h]
  refine (mapIndexed_told (P := fun _ => True) (fun x hx i => ?_) 0).mono fun _ => And.left
  rw [Json.eq_obj_of_isObjects h x hx]
  exact (Edge.ofEntries_told _ i).mono fun e he => ⟨he, trivial⟩

/-- **Faults of documents are told as such.** A document of the expected form gives a graph or has a
fault of the document, whatever values its ids, fields and settings have. A graph has the nodes and
the edges of the document in its order, ids that are not empty and differ from each other, a mode,
room for one trade and a ceiling for each side. -/
theorem load_told (h : es.Regular) :
    Told (fun g =>
      g.nodes.map Node.id = (es.get "nodes").items.map (fun x => (x.entries.get "id").asText) ∧
      g.edges.map (fun e => (e.source, e.target)) = (es.get "edges").items.map
        (fun x => ((x.entries.get "source").asText, (x.entries.get "target").asText)) ∧
      (∀ n ∈ g.nodes, n.id ≠ "") ∧ (g.nodes.map Node.id).Nodup ∧
      (g.settings.conditionMode.word = "AND" ∨ g.settings.conditionMode.word = "OR") ∧
      g.settings.Filled (es.get "settings").entries) (Graph.load (.obj es)) := by
  refine (Graph.readNodes_told h).bind fun nodes ⟨hids, hne, hnodup⟩ => ?_
  refine (Graph.readEdges_told h.edges).bind fun edges hedges => ?_
  refine (Settings.read_told h.settings h.numbers).bind fun settings hsettings => ?_
  refine ⟨hids, hedges, hne, hnodup, ?_, hsettings⟩
  cases settings.conditionMode
  · exact .inl rfl
  · exact .inr rfl

/-- A document with ids that are no texts and settings that are texts. -/
def oddDocument : Entries :=
  [("nodes", .arr
      [.obj [("id", .int 7), ("type", .str "always"), ("data", .null)],
        .obj [("id", .bool true),
          ("data", .obj [("category", .str "indicator"), ("indicatorType", .str "rsi")])]]),
    ("edges", .arr [.obj [("source", .int 7), ("target", .float 1.5)]]),
    ("settings", .obj [("maxOpenTrades", .str " 3 "), ("conditionMode", .str "OR"),
      ("maxDailyLossPercent", .int 5)])]

theorem load_told_odd :
    oddDocument.Regular ∧ ∃ g, Graph.load (.obj oddDocument) = .ok g ∧
      g.nodes.map Node.id = ["7", "True"] ∧
        g.settings.Filled (oddDocument.get "settings").entries := by
  have hregular : oddDocument.Regular := ⟨rfl, rfl, by decide, by decide, .inr rfl, by decide⟩
  have htold := load_told hregular
  have hsome : (Graph.load (.obj oddDocument)).toOption.isSome = true := by decide +kernel
  refine ⟨hregular, ?_⟩
  cases hload : Graph.load (.obj oddDocument) with
  | error f =>
    rw [hload] at hsome
    cases hsome
  | ok g =>
    rw [hload] at htold
    exact ⟨g, rfl, htold.1, htold.2.2.2.2.2⟩

end TradeGraph

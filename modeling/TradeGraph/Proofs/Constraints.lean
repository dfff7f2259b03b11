import TradeGraph.Proofs.Limits
import TradeGraph.Proofs.Rounding

/-!
# Constraints of kinds

Every kind of node declares its fields: their types, limits and vocabularies. The nodes of a
document are checked when they are read, those that expansion makes are not, but both kinds of nodes
write entries that a check of the declarations accepts. Levels and periods that must lie apart do so
too.
-/

namespace TradeGraph

open List

variable {es : Entries} {t : FieldType} {v : Json} {path : List String}
variable {s : Schema} {bounds : List (Bound Int)} {n : Int} {a : t.Value} {r : Record s}
  {p : Payload}

/-! ## Declared fields -/

/-- Is the number of minutes or hours within a part of a slot? -/
def TimeSlot.admitsPart (key : String) (high : Int) : String × Json → Bool
  | (k, .int n) => k == key && decide (0 ≤ n) && decide (n ≤ high)
  | _ => false

def TimeSlot.admits : Json → Bool
  | .obj [a, b, c, d] =>
    admitsPart "startHour" 23 a && admitsPart "startMinute" 59 b && admitsPart "endHour" 23 c &&
      admitsPart "endMinute" 59 d
  | _ => false

/-- Is the value one of the type, within its limits? -/
def FieldType.admits : FieldType → Json → Bool
  | .text, .str _ => true
  | .flag, .bool _ => true
  | .integer bounds, .int n => bounds.all (Bound.holdsInt n)
  | .number bounds, .float x => bounds.all (Bound.holdsFloat x)
  | @FieldType.choice α _, .str w => ((Vocabulary.all : List α).map Vocabulary.word).contains w
  | .optional _, .null => true
  | .optional t, v => t.admits v
  | .list t, .arr vs => vs.all t.admits
  | .flags, .obj es => es.all fun e => (e.2 matches .bool _)
  | .slot, v => TimeSlot.admits v
  | _, _ => false

/-- Do the entries have the declared fields, in order, with values of their types? -/
def Schema.admits : Schema → Entries → Bool
  | [], [] => true
  | f :: s, (key, v) :: es => key == f.key && f.type.admits v && admits s es
  | _, _ => false

theorem Schema.admits_append (q : Record s) (t : Schema) (es : Entries) :
    Schema.admits (s ++ t) (s.encode q ++ es) = (s.admits (s.encode q) && t.admits es) := by
  induction s with
  | nil => rfl
  | cons f s ih =>
    obtain ⟨a, q⟩ := q
    simp only [cons_append, Schema.encode, Schema.admits, ih q, Bool.and_assoc]

/-! ## Values that were read -/

theorem all_holdsInt :
    bounds.all (Bound.holdsInt n) = (brokenInt? bounds n).isNone := by
  rw [Bool.eq_iff_iff, Option.isNone_iff_eq_none, brokenInt?, find?_eq_none, all_eq_true]
  simp

theorem all_holdsFloat {bounds : List (Bound Float)} {x : Float} :
    bounds.all (Bound.holdsFloat x) = (brokenFloat? bounds x).isNone := by
  rw [Bool.eq_iff_iff, Option.isNone_iff_eq_none, brokenFloat?, find?_eq_none,
    all_eq_true]
  simp

theorem FieldType.admits_optional (h : t.admits v = true) :
    (FieldType.optional t).admits v = true := by
  cases v <;> first | rfl | exact h

theorem brokenInt?_of_readInteger
    (h : readInteger bounds path v = .ok n) : brokenInt? bounds n = none := by
  rw [readInteger] at h
  split at h
  · cases h
  · split at h
    · cases h
    · cases h
      assumption

theorem TimeSlot.readPart_range {key long : String} {high : Int} (hhigh : 0 ≤ high)
    (h : readPart path es key long high = .ok n) : 0 ≤ n ∧ n ≤ high := by
  have hread {path : List String} {v : Json}
      (h : readInteger (Bound.between 0 high) path v = .ok n) : 0 ≤ n ∧ n ≤ high := by
    have hnone := find?_eq_none.mp (brokenInt?_of_readInteger h)
    have hmost := hnone (.atMost high) (by simp [Bound.between])
    have hleast := hnone (.atLeast 0) (by simp [Bound.between])
    simp only [Bound.holdsInt] at hmost hleast
    exact ⟨by simpa using hleast, by simpa using hmost⟩
  rw [readPart] at h
  split at h
  · exact hread h
  · split at h
    · exact hread h
    · cases h
      exact ⟨Int.le_refl 0, hhigh⟩

theorem TimeSlot.range_of_read {s : TimeSlot} (h : TimeSlot.read path v = .ok s) :
    ((0 ≤ s.startHour ∧ s.startHour ≤ 23) ∧ 0 ≤ s.startMinute ∧ s.startMinute ≤ 59) ∧
      (0 ≤ s.endHour ∧ s.endHour ≤ 23) ∧ 0 ≤ s.endMinute ∧ s.endMinute ≤ 59 := by
  cases v with
  | obj es =>
    obtain ⟨⟨⟨a, b⟩, c, d⟩, hboth, rfl⟩ := Checked.exists_of_map h
    obtain ⟨hstart, hend⟩ := Checked.both_eq_ok hboth
    obtain ⟨ha, hb⟩ := Checked.both_eq_ok hstart
    obtain ⟨hc, hd⟩ := Checked.both_eq_ok hend
    exact ⟨⟨readPart_range (by decide) ha, readPart_range (by decide) hb⟩,
      readPart_range (by decide) hc, readPart_range (by decide) hd⟩
  | _ => cases h

theorem FieldType.exists_word_of_read {α : Type} [Vocabulary α] {a : α}
    (h : FieldType.read (.choice α) path v = .ok a) : ∃ w, Vocabulary.ofWord? w = some a := by
  unfold FieldType.read at h
  split at h
  · rename_i w
    refine ⟨w, ?_⟩
    cases hw : (Vocabulary.ofWord? w : Option α) <;> rw [hw] at h <;> cases h
    rfl
  · cases h

theorem FieldType.admits_of_read (h : t.read path v = .ok a) :
    t.admits (t.write a) = true := by
  induction t generalizing path v with
  | text | flag => rfl
  | integer bounds =>
    show bounds.all (Bound.holdsInt a) = true
    rw [all_holdsInt]
    exact FieldType.read_keeps h
  | number bounds =>
    show bounds.all (Bound.holdsFloat a) = true
    rw [all_holdsFloat]
    exact FieldType.read_keeps h
  | choice α =>
    obtain ⟨w, hw⟩ := exists_word_of_read h
    show List.contains _ _ = true
    rw [contains_iff_mem]
    exact mem_map_of_mem (mem_of_find?_eq_some hw)
  | optional t ih =>
    unfold FieldType.read at h
    split at h
    · cases h
      rfl
    · obtain ⟨b, hb, rfl⟩ := Checked.exists_of_map h
      exact FieldType.admits_optional (ih hb)
  | list t ih =>
    unfold FieldType.read at h
    split at h
    · show List.all (List.map t.write a) t.admits = true
      rw [all_map, all_eq_true]
      intro b hb
      obtain ⟨⟨x, i⟩, -, hx⟩ := mem_map.mp (Checked.mem_of_sequence h b hb)
      exact ih hx
    · cases h
  | flags =>
    show List.all (List.map _ a) _ = true
    rw [all_map, all_eq_true]
    exact fun _ _ => rfl
  | slot =>
    show TimeSlot.admits (TimeSlot.write a) = true
    simp [TimeSlot.write, TimeSlot.admits, TimeSlot.admitsPart, TimeSlot.range_of_read h]

/-- A record that was read is written with the declared fields if the initial one is. -/
theorem Schema.admits_of_decode
    (hinitial : s.admits (s.encode (Record.initial s)) = true) (h : s.decode es = .ok r) :
    s.admits (s.encode r) = true := by
  induction s with
  | nil => rfl
  | cons f s ih =>
    obtain ⟨a, r⟩ := r
    obtain ⟨hread, hrest⟩ := Checked.both_eq_ok h
    simp only [Record.initial, Schema.encode, Schema.admits, beq_self_eq_true, Bool.true_and,
      Bool.and_eq_true] at hinitial ⊢
    refine ⟨?_, ih hinitial.2 hrest⟩
    rw [Field.read] at hread
    split at hread
    · exact FieldType.admits_of_read hread
    · cases hread
      exact hinitial.1

/-! ## Values within limits -/

/-- All members of the vocabularies are listed, so that limits are all there is to check. Slots are
left out: their limits are not those of a field. -/
def FieldType.Complete : FieldType → Prop
  | @FieldType.choice α _ => ∀ a : α, a ∈ (Vocabulary.all : List α)
  | .optional t | .list t => t.Complete
  | .slot => False
  | _ => True

theorem FieldType.admits_of_keeps (hcomplete : t.Complete) (h : t.keeps a = true) :
    t.admits (t.write a) = true := by
  induction t with
  | text | flag => rfl
  | integer bounds => exact all_holdsInt.trans h
  | number bounds => exact all_holdsFloat.trans h
  | choice α => exact contains_iff_mem.mpr (mem_map_of_mem (hcomplete a))
  | optional t ih =>
    cases a with
    | none => rfl
    | some a => exact FieldType.admits_optional (ih hcomplete h)
  | list t ih =>
    show List.all (List.map t.write a) t.admits = true
    rw [all_map, all_eq_true]
    exact fun b hb => ih hcomplete (all_eq_true.mp h b hb)
  | flags =>
    show List.all (List.map _ a) _ = true
    rw [all_map, all_eq_true]
    exact fun _ _ => rfl
  | slot => exact hcomplete.elim

theorem Schema.admits_of_keeps (hcomplete : ∀ f ∈ s, f.type.Complete)
    (h : s.keeps r = true) : s.admits (s.encode r) = true := by
  induction s with
  | nil => rfl
  | cons f s ih =>
    obtain ⟨a, r⟩ := r
    rw [Schema.keeps, Bool.and_eq_true] at h
    simp only [Schema.encode, Schema.admits, beq_self_eq_true, Bool.true_and, Bool.and_eq_true]
    exact ⟨FieldType.admits_of_keeps (hcomplete f mem_cons_self) h.1,
      ih (fun g hg => hcomplete g (mem_cons_of_mem _ hg)) h.2⟩

theorem Kind.complete {k : Kind} (h : k ≠ .customTimes) :
    ∀ f ∈ k.shape.codec.schema, f.type.Complete := by
  cases k
  case customTimes => exact absurd rfl h
  all_goals
    repeat' first
      | exact forall_mem_nil _
      | refine forall_mem_cons.mpr ⟨?_, ?_⟩
      | exact trivial
      | exact fun a => by cases a <;> decide

/-! ## Nodes -/

/-- Do the fields of a node fit the declarations of its kind? -/
def NodeData.conforms (d : NodeData) : Bool :=
  Schema.admits (Common.codec.schema ++ d.payload.kind.shape.codec.schema) d.fields

theorem Kind.initial_admits (k : Kind) :
    k.shape.codec.schema.admits (k.shape.codec.schema.encode (Record.initial _)) = true := by
  by_cases hk : k = .customTimes
  · subst hk
    decide +kernel
  · exact Schema.admits_of_keeps (Kind.complete hk) k.initial_keeps

theorem Common.admits_encode (common : Common) :
    Common.codec.schema.admits (Common.codec.encode common) = true := by
  refine Schema.admits_of_keeps ?_ ?_
  · simp [Common.codec, FieldType.Complete]
  · cases h : common.optimizableFields <;> simp [Common.codec, Schema.keeps, FieldType.keeps, h]

theorem NodeData.conforms_eq (d : NodeData) :
    d.conforms = d.payload.kind.shape.codec.schema.admits d.payload.encode := by
  rw [NodeData.conforms, NodeData.fields, Codec.encode, Schema.admits_append]
  exact (congrArg (· && _) d.common.admits_encode).trans (Bool.true_and _)

theorem NodeData.conforms_of_read {k : Kind} {d : NodeData} (h : NodeData.read k es = .ok d) :
    d.conforms = true ∧ d.payload.conflict? = none := by
  obtain ⟨common, body, hdecode, hconflict, rfl⟩ := NodeData.read_eq_ok_iff.mp h
  rw [NodeData.conforms_eq, Kind.kind_make, Kind.encode_make]
  refine ⟨?_, hconflict⟩
  obtain ⟨r, hr, hbody⟩ := Checked.exists_of_map hdecode
  have hadmits := Schema.admits_of_decode (s := Common.codec.schema ++ k.shape.codec.schema)
    (by rw [Record.initial_append, Schema.encode_append, Schema.admits_append,
      k.initial_admits]; decide)
    hr
  rw [← Record.append_split Common.codec.schema r, Schema.encode_append, Schema.admits_append,
    Bool.and_eq_true] at hadmits
  have hsame : k.shape.codec.ofRecord (Record.split Common.codec.schema r).2 = body :=
    congrArg Prod.snd hbody
  rw [← hsame, Codec.encode, Kind.toRecord_ofRecord]
  exact hadmits.2

theorem Payload.Kept.admits (h : p.Kept) (hk : p.kind ≠ .customTimes) :
    p.kind.shape.codec.schema.admits p.encode = true := by
  obtain ⟨b, hmake, hkeeps⟩ := h
  have hencode : p.encode = p.kind.shape.codec.encode b := by
    rw [← Kind.encode_make, hmake]
  rw [hencode]
  exact Schema.admits_of_keeps (Kind.complete hk) hkeeps

/-! ## Levels and periods -/

def LevelsApart (overbought oversold : Float) : Prop :=
  overbought.isNaN = false → oversold.isNaN = false → oversold < overbought

/-- Levels and periods are in order. -/
def Payload.Apart : Payload → Prop
  | .indicator _ (.rsi p) => LevelsApart p.overboughtLevel p.oversoldLevel
  | .indicator _ (.stochastic p) => LevelsApart p.overboughtLevel p.oversoldLevel
  | .indicator _ (.cci p) => LevelsApart p.overboughtLevel p.oversoldLevel
  | .indicator _ (.macd p) => p.fastPeriod < p.slowPeriod
  | _ => True

theorem levelsApart_of_levelConflict {overbought oversold : Float}
    (h : Payload.levelConflict? overbought oversold = none) : LevelsApart overbought oversold := by
  intro hover hunder
  refine Double.lt_of_not_le hunder hover fun hle => ?_
  rw [Payload.levelConflict?, if_pos hle] at h
  cases h

theorem Payload.apart_of_conflict (h : p.conflict? = none) : p.Apart := by
  unfold Payload.Apart
  split
  · exact levelsApart_of_levelConflict h
  · exact levelsApart_of_levelConflict h
  · exact levelsApart_of_levelConflict h
  · rw [Payload.conflict?] at h
    split at h
    · cases h
    · omega
  · trivial

theorem levelsApart_pullback {x : Float} (hpos : 0.0 < x) (hx : x < 50.0) :
    LevelsApart (100.0 - x) x := by
  have hm : 0 < 100 * 2 ^ 46 := by decide
  have hhalf : (50.0 : Float).toModel.unpack = .finite .positive (100 * 2 ^ 46) (-46 - 1) hm := rfl
  have hwhole : (100.0 : Float).toModel.unpack = .finite .positive (100 * 2 ^ 46) (-46) hm := rfl
  exact fun _ _ =>
    Double.lt_sub_of_lt_half hhalf hwhole (by decide) (by decide) (by decide) hpos hx

/-- The signals of a strategy whose fields are not in conflict lie apart. -/
theorem Origin.signals_apart (o : Origin) {plan : EntryPlan} {signals : EntrySignals}
    (hconflict : (Payload.entry plan signals).conflict? = none) (hkeeps : signals.keeps = true) :
    ∀ p ∈ o.signals plan signals, p.payload.Apart := by
  cases signals
  -- one goal for each signal
  all_goals
    simp only [Origin.signals, Origin.emaCrossover, Origin.trendPullback, Origin.rsiReversal,
      Origin.macdCrossover, Origin.rangeBreakout, Origin.trendFilter, mem_append, mem_cons,
      not_mem_nil, mem_ite_nil_right, or_false, or_imp, and_imp, forall_and, forall_eq]
    and_intros
  all_goals
    try rintro _ hused rfl
    try trivial
  · -- the levels are compared only if they are used, and only then there is this part
    intro hover hunder
    refine Double.lt_of_not_le hunder hover fun hle => ?_
    rw [Payload.conflict?] at hconflict
    split at hconflict
    · cases hconflict
    · rw [if_pos ⟨hused, hle⟩] at hconflict
      cases hconflict
  · simp only [EntrySignals.keeps, Codec.keeps, TrendPullback.codec, Schema.keeps, FieldType.keeps,
      Bool.and_eq_true, ← all_holdsFloat, all_cons, Bound.holdsFloat, decide_eq_true_eq] at hkeeps
    -- there is one level, checked by its limits alone; the other is computed from it
    exact levelsApart_pullback hkeeps.2.2.1.2.1 hkeeps.2.2.1.1
  · exact levelsApart_of_levelConflict hconflict
  · rw [Payload.conflict?] at hconflict
    split at hconflict
    · cases hconflict
    · exact Int.not_le.mp ‹_›

theorem conforms_of_mem_expandNode {c v : Node} (hcomp : c.isComposite = true)
    (hkept : c.data.payload.Kept) (hconflict : c.data.payload.conflict? = none)
    (hv : v ∈ expandNode c) : v.data.conforms = true ∧ v.data.payload.Apart := by
  constructor
  · rw [NodeData.conforms_eq]
    refine (kept_of_mem_expandNode hkept hv).admits fun hkind => ?_
    have hcategory := category_of_mem_expandNode hcomp hv
    rw [Node.category, Node.kind, hkind] at hcategory
    revert hcategory
    decide
  · obtain ⟨plan, signals, hp⟩ := Node.isComposite_iff.mp hcomp
    rw [hp] at hkept hconflict
    rw [expandNode_eq_parts hp] at hv
    obtain ⟨p, hmem, rfl⟩ := mem_map.mp hv
    exact Origin.forall_mem_parts (P := fun p => p.payload.Apart)
      (Origin.signals_apart _ hconflict hkept.entry.2) (fun _ => trivial) trivial trivial p hmem

/-- **Every node satisfies the constraints of its kind.** In the expanded graph of a document that
can be read, every node, be it from the document or made from a strategy, has the declared fields
with values of their types, within their limits and vocabularies, and its levels and periods lie
apart. -/
theorem nodes_conform {document : Json} {g : Graph} (h : Graph.load document = .ok g) {v : Node}
    (hv : v ∈ (expand g.nodes g.edges).nodes) :
    v.data.conforms = true ∧ v.data.payload.Apart := by
  obtain ⟨c, hc, hv⟩ := mem_flatMap.mp hv
  obtain ⟨k, es, hread⟩ := Graph.exists_read_of_load h hc
  obtain ⟨hconforms, hconflict⟩ := NodeData.conforms_of_read hread
  cases hcomp : c.isComposite with
  | true => exact conforms_of_mem_expandNode hcomp (NodeData.read_kept hread) hconflict hv
  | false =>
    rw [expandNode_other hcomp, mem_singleton] at hv
    subst hv
    exact ⟨hconforms, Payload.apart_of_conflict hconflict⟩

/-- A strategy at the edge of its limits beside slots of a day. -/
def pullbackDocument : Json :=
  .obj [("nodes", .arr [.node "clock" "custom-times"
      [("timeSlots", .arr [.obj [("startHour", .int 23), ("end_minute", .str "59")]])],
    .node "pull" "trend-pullback-entry"
      [("rsi_pullback_level", .float 49.99999999999999), ("useAdxFilter", .str "yes")]])]

def pullbackGraph : Graph := pullbackDocument.graph

theorem nodes_conform_pullback :
    Graph.load pullbackDocument = .ok pullbackGraph ∧
      ∃ v ∈ (expand pullbackGraph.nodes pullbackGraph.edges).nodes, v.id = "pull__rsi" ∧
        v.data.conforms = true ∧ v.data.payload.Apart := by
  have hload : Graph.load pullbackDocument = .ok pullbackGraph := by
    have hsome : (Graph.load pullbackDocument).toOption.isSome = true := by decide +kernel
    rw [pullbackGraph, Json.graph]
    cases h : Graph.load pullbackDocument with
    | error f =>
      rw [h] at hsome
      cases hsome
    | ok g => rfl
  obtain ⟨v, hv, hid⟩ : ∃ v ∈ (expand pullbackGraph.nodes pullbackGraph.edges).nodes,
      v.id = "pull__rsi" := by decide +kernel
  exact ⟨hload, v, hv, hid, nodes_conform hload hv⟩

end TradeGraph

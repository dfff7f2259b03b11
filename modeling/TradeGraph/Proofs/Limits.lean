import TradeGraph.Proofs.Decimals
import TradeGraph.Proofs.Expansion

/-!
# Limits of fields

Reading a document checks every field against its limits, and the initial values keep theirs.
Expansion copies fields only between fields with the same limits, so every node of an expanded graph
keeps the limits of its kind.
-/

namespace TradeGraph

open List

variable {es : Entries} {document : Json} {d : NodeData} {α β : Type}
variable {g : Graph} {signals : EntrySignals}
variable {n : Node} {x : Checked α} {b : β} {as : List α} {k : Kind}

/-! ## Limits -/

namespace Bound

variable {α : Type}

def limit : Bound α → α
  | .atMost b | .below b | .atLeast b | .above b => b

/-- Does the limit hold numbers down? -/
def isUpper : Bound α → Bool
  | .atMost _ | .below _ => true
  | .atLeast _ | .above _ => false

/-- Is there a limit of either kind, at a number that passes a test? -/
def isTight (lower upper : α → Bool) (bounds : List (Bound α)) : Bool :=
  (bounds.any fun b => !b.isUpper && lower b.limit) &&
    bounds.any fun b => b.isUpper && upper b.limit

end Bound

/-- An integer of thirty-two bits. -/
def IsInt32 (n : Int) : Prop :=
  -2147483648 ≤ n ∧ n ≤ 2147483647

instance (n : Int) : Decidable (IsInt32 n) :=
  inferInstanceAs (Decidable (_ ∧ _))

theorem isInt32_of_isTight {bounds : List (Bound Int)}
    (htight : Bound.isTight (fun n => IsInt32 n) (fun n => IsInt32 n) bounds = true) {n : Int}
    (h : brokenInt? bounds n = none) : IsInt32 n := by
  rw [brokenInt?, find?_eq_none] at h
  rw [Bound.isTight, Bool.and_eq_true, any_eq_true, any_eq_true] at htight
  obtain ⟨⟨l, hl, hlower⟩, u, hu, hupper⟩ := htight
  rw [Bool.and_eq_true, decide_eq_true_iff] at hlower hupper
  have hlow : l.limit ≤ n := by
    have hn := h l hl
    cases l with
    | atLeast b => simpa [Bound.holdsInt, Bound.limit] using hn
    | above b => exact Int.le_of_lt (by simpa [Bound.holdsInt, Bound.limit] using hn)
    | atMost | below => cases hlower.1
  have hhigh : n ≤ u.limit := by
    have hn := h u hu
    cases u with
    | atMost b => simpa [Bound.holdsInt, Bound.limit] using hn
    | below b => exact Int.le_of_lt (by simpa [Bound.holdsInt, Bound.limit] using hn)
    | atLeast | above => cases hupper.1
  exact ⟨Int.le_trans hlower.2.1 hlow, Int.le_trans hhigh hupper.2.2⟩

theorem isFinite_of_isTight {bounds : List (Bound Float)}
    (htight : Bound.isTight Double.isFinite Double.isFinite bounds = true) {x : Float}
    (h : brokenFloat? bounds x = none) : Double.isFinite x = true := by
  rw [brokenFloat?, find?_eq_none] at h
  rw [Bound.isTight, Bool.and_eq_true, any_eq_true, any_eq_true] at htight
  obtain ⟨⟨l, hl, hlower⟩, u, hu, hupper⟩ := htight
  rw [Bool.and_eq_true] at hlower hupper
  have hlow : Double.AtMost l.limit x := by
    have hx := h l hl
    cases l with
    | atLeast b => exact Double.atMost_of_le (by simpa [Bound.holdsFloat, Bound.limit] using hx)
    | above b => exact Double.atMost_of_lt (by simpa [Bound.holdsFloat, Bound.limit] using hx)
    | atMost | below => cases hlower.1
  have hhigh : Double.AtMost x u.limit := by
    have hx := h u hu
    cases u with
    | atMost b => exact Double.atMost_of_le (by simpa [Bound.holdsFloat, Bound.limit] using hx)
    | below b => exact Double.atMost_of_lt (by simpa [Bound.holdsFloat, Bound.limit] using hx)
    | atLeast | above => cases hupper.1
  exact Double.isFinite_of_atMost hlow hhigh hlower.2 hupper.2

/-! ## Records -/

/-- Does a value keep its limits? -/
def FieldType.keeps : (t : FieldType) → t.Value → Bool
  | .integer bounds, n => (brokenInt? bounds n).isNone
  | .number bounds, x => (brokenFloat? bounds x).isNone
  | .optional t, a => a.all t.keeps
  | .list t, as => as.all t.keeps
  | .text, _ => true
  | .flag, _ => true
  | @FieldType.choice _ _, _ => true
  | .flags, _ => true
  | .slot, _ => true

/-- Do the values of a record keep their limits? -/
def Schema.keeps : (s : Schema) → Record s → Bool
  | [], _ => true
  | f :: s, (a, r) => f.type.keeps a && keeps s r

theorem Checked.both_eq_ok {y : Checked β} {a : α}
    (h : x.both y = .ok (a, b)) : x = .ok a ∧ y = .ok b := by
  cases x <;> cases y <;> cases h
  exact ⟨rfl, rfl⟩

theorem Checked.exists_of_map {f : α → β} (h : Except.map f x = .ok b) :
    ∃ a, x = .ok a ∧ f a = b := by
  cases x with
  | error e => cases h
  | ok a => exact ⟨a, rfl, Except.ok.inj h⟩

theorem Checked.mem_of_sequence {cs : List (Checked α)}
    (h : Checked.sequence cs = .ok as) : ∀ a ∈ as, .ok a ∈ cs := by
  induction cs generalizing as with
  | nil =>
    cases h
    exact fun _ ha => nomatch ha
  | cons c cs ih =>
    obtain ⟨⟨a, rest⟩, hboth, rfl⟩ := Checked.exists_of_map h
    obtain ⟨rfl, hrest⟩ := Checked.both_eq_ok hboth
    intro b hb
    rcases mem_cons.mp hb with rfl | hb
    · exact mem_cons_self
    · exact mem_cons_of_mem _ (ih hrest b hb)

theorem FieldType.read_keeps {t : FieldType} {path : List String} {v : Json} {a : t.Value}
    (h : t.read path v = .ok a) : t.keeps a = true := by
  induction t generalizing path v with
  | text | flag | choice | flags | slot => rw [FieldType.keeps]
  | integer bounds =>
    rw [FieldType.keeps]
    rw [FieldType.read, readInteger] at h
    split at h
    · cases h
    · split at h
      · cases h
      · cases h
        simp [*]
  | number bounds =>
    rw [FieldType.keeps]
    rw [FieldType.read, readNumber] at h
    split at h
    · cases h
    · split at h
      · cases h
      · cases h
        simp [*]
  | optional t ih =>
    rw [FieldType.keeps]
    unfold FieldType.read at h
    split at h
    · cases h
      rfl
    · obtain ⟨b, hb, rfl⟩ := Checked.exists_of_map h
      exact ih hb
  | list t ih =>
    rw [FieldType.keeps, all_eq_true]
    unfold FieldType.read at h
    split at h
    · intro b hb
      obtain ⟨⟨x, i⟩, -, hx⟩ := mem_map.mp (Checked.mem_of_sequence h b hb)
      exact ih hx
    · cases h

theorem Schema.decode_keeps {s : Schema} {r : Record s}
    (hinitial : s.keeps (Record.initial s) = true) (h : s.decode es = .ok r) :
    s.keeps r = true := by
  induction s with
  | nil => rfl
  | cons f s ih =>
    obtain ⟨a, r⟩ := r
    obtain ⟨hread, hrest⟩ := Checked.both_eq_ok h
    rw [Record.initial, Schema.keeps, Bool.and_eq_true] at hinitial
    rw [Schema.keeps, Bool.and_eq_true]
    refine ⟨?_, ih hinitial.2 hrest⟩
    rw [Field.read] at hread
    split at hread
    · exact FieldType.read_keeps hread
    · cases hread
      exact hinitial.1

theorem Schema.keeps_append {s t : Schema} (q : Record s) (r : Record t) :
    Schema.keeps (s ++ t) (Record.append q r) = (s.keeps q && t.keeps r) := by
  induction s with
  | nil => rfl
  | cons f s ih =>
    obtain ⟨a, q⟩ := q
    rw [Schema.keeps, Bool.and_assoc, ← ih q]
    rfl

theorem Record.initial_append (s t : Schema) :
    Record.initial (s ++ t) = Record.append (Record.initial s) (Record.initial t) := by
  induction s with
  | nil => rfl
  | cons f s ih => exact congrArg (Prod.mk f.initial) ih

theorem Record.append_split (s : Schema) {t : Schema} (r : Record (s ++ t)) :
    Record.append (Record.split s r).1 (Record.split s r).2 = r := by
  induction s with
  | nil => rfl
  | cons f s ih => exact congrArg (Prod.mk r.1) (ih r.2)

/-- Do the fields of a value keep their limits? -/
def Codec.keeps {α : Type} (c : Codec α) (a : α) : Bool :=
  c.schema.keeps (c.toRecord a)

theorem Codec.keeps_pair (c : Codec α) (d : Codec β) (a : α) (b : β) :
    (c.pair d).keeps (a, b) = (c.keeps a && d.keeps b) :=
  Schema.keeps_append _ _

/-! ## Nodes -/

/-- The fields of the payload keep the limits of its kind. -/
def Payload.Kept (p : Payload) : Prop :=
  ∃ b : p.kind.shape.body, p.kind.shape.make b = p ∧ p.kind.shape.codec.keeps b = true

theorem Kind.initial_keeps (k : Kind) :
    k.shape.codec.schema.keeps (Record.initial k.shape.codec.schema) = true := by
  cases k <;> decide +kernel

theorem Kind.toRecord_ofRecord (k : Kind) (r : Record k.shape.codec.schema) :
    k.shape.codec.toRecord (k.shape.codec.ofRecord r) = r := by
  cases k <;> rfl

theorem Kind.kind_make (k : Kind) (b : k.shape.body) : (k.shape.make b).kind = k := by
  cases k <;> rfl

theorem Kind.encode_make (k : Kind) (b : k.shape.body) :
    (k.shape.make b).encode = k.shape.codec.encode b := by
  cases k <;> rfl

theorem Payload.Kept.of_make {b : k.shape.body} (h : k.shape.codec.keeps b = true) :
    (k.shape.make b).Kept := by
  rw [Payload.Kept, Kind.kind_make]
  exact ⟨b, rfl, h⟩

/-- Data are read from entries whose fields decode and are not in conflict. -/
theorem NodeData.read_eq_ok_iff :
    NodeData.read k es = .ok d ↔
      ∃ common body, (Common.codec.pair k.shape.codec).decode es = .ok (common, body) ∧
        (k.shape.make body).conflict? = none ∧
        d = ⟨common, k.shape.make body, (Common.codec.pair k.shape.codec).schema.extras es⟩ := by
  rw [NodeData.read]
  cases (Common.codec.pair k.shape.codec).decode es with
  | error ps => exact iff_of_false nofun fun ⟨_, _, h, _⟩ => nomatch h
  | ok x =>
    obtain ⟨common, body⟩ := x
    simp only
    cases hconflict : (k.shape.make body).conflict? with
    | some c =>
      refine iff_of_false nofun fun ⟨_, _, h, hnone, _⟩ => ?_
      cases h
      cases hconflict.symm.trans hnone
    | none =>
      constructor
      · intro h
        exact ⟨common, body, rfl, hconflict, (Except.ok.inj h).symm⟩
      · rintro ⟨_, _, h, -, rfl⟩
        cases h
        rfl

theorem NodeData.read_kept (h : NodeData.read k es = .ok d) : d.payload.Kept := by
  obtain ⟨common, body, hdecode, -, rfl⟩ := NodeData.read_eq_ok_iff.mp h
  obtain ⟨r, hr, hbody⟩ := Checked.exists_of_map hdecode
  have hkeeps := Schema.decode_keeps (s := Common.codec.schema ++ k.shape.codec.schema)
    (by rw [Record.initial_append, Schema.keeps_append, Kind.initial_keeps]; decide) hr
  rw [← Record.append_split Common.codec.schema r, Schema.keeps_append, Bool.and_eq_true] at hkeeps
  have hsame : k.shape.codec.ofRecord (Record.split Common.codec.schema r).2 = body :=
    congrArg Prod.snd hbody
  refine .of_make ?_
  rw [← hsame, Codec.keeps, Kind.toRecord_ofRecord]
  exact hkeeps.2

theorem mem_of_mapIndexed {f : α → Nat → Except Fault β} :
    ∀ {i : Nat} {bs : List β}, mapIndexed f i as = .ok bs → b ∈ bs →
      ∃ a ∈ as, ∃ j, f a j = .ok b := by
  induction as with
  | nil =>
    intro i bs h hb
    cases h
    cases hb
  | cons a as ih =>
    intro i bs h hb
    obtain ⟨c, cs, hc, hcs, rfl⟩ := of_bind₂_eq_ok h
    rcases mem_cons.mp hb with rfl | hb
    · exact ⟨a, mem_cons_self, i, hc⟩
    · obtain ⟨a', ha', hj⟩ := ih hcs hb
      exact ⟨a', mem_cons_of_mem _ ha', hj⟩

theorem NodeData.parse_eq_ok_iff {id : String} {type : Json} :
    NodeData.parse id type es = .ok d ↔
      ∃ k, Kind.resolve type es = .ok k ∧ NodeData.read k es = .ok d := by
  rw [NodeData.parse]
  split
  · rename_i h
    exact iff_of_false nofun fun ⟨_, hk, _⟩ => nomatch h.symm.trans hk
  · rename_i h
    exact iff_of_false nofun fun ⟨_, hk, _⟩ => nomatch h.symm.trans hk
  · rename_i k hk
    rw [hk]
    constructor
    · intro h
      split at h
      · cases h
      · rename_i hread
        cases h
        exact ⟨k, rfl, hread⟩
    · rintro ⟨_, h, hread⟩
      cases h
      rw [hread]

theorem Node.exists_of_ofJson {raw : Json} {index : Nat}
    (h : Node.ofJson raw index = .ok n) :
    ∃ id type entries, NodeData.parse id type entries = .ok n.data := by
  cases raw with
  | obj es =>
    obtain ⟨-, -, d, hd, rfl⟩ := Node.ofEntries_eq_ok_iff.mp h
    exact ⟨_, _, _, hd⟩
  | _ => cases h

theorem Graph.exists_read_of_load (h : Graph.load document = .ok g)
    (hn : n ∈ g.nodes) : ∃ k es, NodeData.read k es = .ok n.data := by
  obtain ⟨es, -, hnodes, -⟩ := Graph.exists_of_load h
  obtain ⟨items, -, hread, -⟩ := Graph.readNodes_eq_ok_iff.mp hnodes
  obtain ⟨raw, -, j, hraw⟩ := mem_of_mapIndexed hread hn
  obtain ⟨id, type, entries, hdata⟩ := Node.exists_of_ofJson hraw
  obtain ⟨k, -, hk⟩ := NodeData.parse_eq_ok_iff.mp hdata
  exact ⟨k, entries, hk⟩

/-- **Nodes of a loaded graph keep their limits.** -/
theorem Graph.kept_of_load (h : Graph.load document = .ok g)
    (hn : n ∈ g.nodes) : n.data.payload.Kept := by
  obtain ⟨k, es, hread⟩ := Graph.exists_read_of_load h hn
  exact NodeData.read_kept hread

/-! ## Expansion -/

theorem Signal.keeps_pair (c : Codec β) (s : Signal) {p : β} (h : c.keeps p = true) :
    (Signal.codec.pair c).keeps (s, p) = true := by
  have hsignal : Signal.codec.keeps s = true := by
    simp [Codec.keeps, Signal.codec, Schema.keeps, FieldType.keeps, brokenFloat?]
  rw [Codec.keeps_pair, hsignal, h]
  rfl

theorem movingAverage_kept {s : Signal} {p : MovingAverage}
    (hperiod : (brokenInt? (Bound.between 1 1000) p.period).isNone = true) (hshift : p.shift = 0) :
    (Payload.indicator s (.movingAverage p)).Kept := by
  refine ⟨(s, p), rfl, Signal.keeps_pair _ s ?_⟩
  simp only [Codec.keeps, MovingAverage.codec, Schema.keeps, FieldType.keeps, hperiod, hshift,
    Bool.true_and, Bool.and_true]
  decide

theorem rsi_kept {s : Signal} {p : Rsi}
    (hperiod : (brokenInt? (Bound.between 1 1000) p.period).isNone = true) :
    (Payload.indicator s (.rsi p)).Kept := by
  refine ⟨(s, p), rfl, Signal.keeps_pair _ s ?_⟩
  simp [Codec.keeps, Rsi.codec, Schema.keeps, FieldType.keeps, brokenFloat?, hperiod]

def EntrySignals.keeps : EntrySignals → Bool
  | .emaCrossover p => EmaCrossover.codec.keeps p
  | .trendPullback p => TrendPullback.codec.keeps p
  | .rsiReversal p => RsiReversal.codec.keeps p
  | .macdCrossover p => MacdCrossover.codec.keeps p
  | .rangeBreakout p => RangeEntry.codec.keeps p

namespace Origin

variable (o : Origin) {plan : EntryPlan}

theorem signals_kept (h : signals.keeps = true) :
    ∀ p ∈ o.signals plan signals, p.payload.Kept := by
  cases signals
  all_goals
    simp only [EntrySignals.keeps, Codec.keeps, EmaCrossover.codec, TrendPullback.codec,
      RsiReversal.codec, MacdCrossover.codec, RangeEntry.codec, Schema.keeps, FieldType.keeps,
      Bool.and_eq_true, Bool.and_true, Bool.true_and] at h
    intro p hp
    simp only [Origin.signals, Origin.emaCrossover, Origin.trendPullback, Origin.rsiReversal,
      Origin.macdCrossover, Origin.rangeBreakout, mem_append, mem_cons, not_mem_nil,
      or_false, mem_ite_nil_right] at hp
  case emaCrossover =>
    obtain ⟨hfast, hslow, -, htrend, hperiod, -, -⟩ := h
    rcases hp with ((rfl | rfl) | ⟨-, rfl⟩) | ⟨-, rfl⟩
    · exact movingAverage_kept hfast rfl
    · exact movingAverage_kept hslow rfl
    · exact movingAverage_kept htrend rfl
    · exact rsi_kept hperiod
  case trendPullback =>
    obtain ⟨htrend, hperiod, -, -, hadx, hlevel⟩ := h
    rcases hp with (rfl | rfl) | ⟨-, rfl⟩
    · exact movingAverage_kept htrend rfl
    · exact rsi_kept hperiod
    · refine ⟨(_, _), rfl, Signal.keeps_pair _ _ ?_⟩
      simp [Codec.keeps, Adx.codec, Schema.keeps, FieldType.keeps, hadx, hlevel]
  case rsiReversal =>
    obtain ⟨hperiod, -, -, htrend⟩ := h
    rcases hp with rfl | ⟨-, rfl⟩
    · exact rsi_kept hperiod
    · exact movingAverage_kept htrend rfl
  case macdCrossover =>
    obtain ⟨hfast, hslow, hsignal⟩ := h
    obtain rfl := hp
    refine ⟨(_, _), rfl, Signal.keeps_pair _ _ ?_⟩
    simp [Codec.keeps, Macd.codec, Schema.keeps, FieldType.keeps, hfast, hslow, hsignal]
  case rangeBreakout =>
    obtain ⟨hperiod, hstartHour, hstartMinute, hendHour, hendMinute, hbuffer, hmin,
      hmax, htrend⟩ := h
    rcases hp with rfl | ⟨-, rfl⟩
    · refine ⟨(_, _), rfl, (Codec.keeps_pair _ _ _ _).trans ?_⟩
      simp [Codec.keeps, chartCodec, RangeBreakout.codec, Schema.keeps, FieldType.keeps, hperiod,
        hstartHour, hstartMinute, hendHour, hendMinute, hbuffer, hmin, hmax]
    · exact movingAverage_kept htrend rfl

theorem parts_kept (h : EntryPlan.codec.keeps plan = true) (hsignals : signals.keeps = true) :
    ∀ p ∈ o.parts plan signals, p.payload.Kept := by
  simp only [Codec.keeps, EntryPlan.codec, Schema.keeps, FieldType.keeps, Bool.and_eq_true,
    Bool.and_true, Bool.true_and] at h
  obtain ⟨-, hrisk, hpips, hpercent, hmultiplier, hperiod, hratio⟩ := h
  have horder (side : Side) : (o.order plan side).payload.Kept := by
    have hsizing : Sizing.codec.keeps { (default : Sizing) with
        method := .riskPercent, riskPercent := plan.riskPercent, minLot := 0.01,
        maxLot := 100.0 } = true := by
      simp only [Codec.keeps, Sizing.codec, Schema.keeps, FieldType.keeps, hrisk, Bool.true_and,
        Bool.and_true]
      decide +kernel
    cases side <;> exact ⟨_, rfl, hsizing⟩
  have hstop : (o.stop plan).payload.Kept := by
    refine .of_make (k := .stopLoss) ?_
    simp [Kind.shape, Codec.keeps, StopLoss.codec, Schema.keeps, FieldType.keeps, hpips, hpercent,
      hmultiplier, hperiod]
  have htarget : (o.target plan).payload.Kept := by
    refine .of_make (k := .takeProfit) ?_
    simp only [Kind.shape, Codec.keeps, TakeProfit.codec, Schema.keeps, FieldType.keeps, hratio,
      Bool.true_and, Bool.and_true]
    decide +kernel
  exact forall_mem_parts (P := fun p => p.payload.Kept)
    (o.signals_kept hsignals) horder hstop htarget

end Origin

theorem Payload.Kept.entry {plan : EntryPlan} (h : (Payload.entry plan signals).Kept) :
    EntryPlan.codec.keeps plan = true ∧ signals.keeps = true := by
  rw [← Bool.and_eq_true]
  cases signals
  all_goals
    obtain ⟨⟨_, _⟩, hmake, hkeeps⟩ := h
    cases hmake
    exact (Codec.keeps_pair _ _ _ _).symm.trans hkeeps

theorem kept_of_mem_expandNode {c v : Node} (hc : c.data.payload.Kept) (hv : v ∈ expandNode c) :
    v.data.payload.Kept := by
  cases hcomposite : c.isComposite with
  | false =>
    rw [expandNode_other hcomposite, mem_singleton] at hv
    exact hv ▸ hc
  | true =>
    obtain ⟨plan, signals, hp⟩ := Node.isComposite_iff.mp hcomposite
    rw [hp] at hc
    obtain ⟨hplan, hsignals⟩ := hc.entry
    rw [expandNode_eq_parts hp] at hv
    obtain ⟨p, hmem, rfl⟩ := mem_map.mp hv
    exact c.origin.parts_kept hplan hsignals p hmem

/-- **Nodes of an expanded graph keep their limits**, as if they had been read. -/
theorem Graph.kept_of_mem_expand (h : Graph.load document = .ok g) {v : Node}
    (hv : v ∈ (expand g.nodes g.edges).nodes) : v.data.payload.Kept := by
  obtain ⟨c, hc, hv⟩ := mem_flatMap.mp hv
  exact kept_of_mem_expandNode (Graph.kept_of_load h hc) hv

end TradeGraph

import TradeGraph.Proofs.Constraints
import TradeGraph.Proofs.Extras

/-!
# Data as normal forms

Reading is lenient: numbers may be texts, flags words, keys spelled out, fields absent. What was
read is written under the keys of the fields, and reading that gives the same data again, so the
written form is a normal form. Entries that no field takes stay beside the fields and do not disturb
them.
-/

namespace TradeGraph

open List

variable {es : Entries} {t : FieldType} {v : Json} {path : List String} {s : Schema}

/-! ## Values -/

/-- The value is read back from what is written, wherever that stands. -/
def FieldType.Stable (t : FieldType) (a : t.Value) : Prop :=
  ∀ path, t.read path (t.write a) = .ok a

theorem Checked.sequence_map {α β : Type} {f : α → Checked β} {g : α → β} {as : List α}
    (h : ∀ a ∈ as, f a = .ok (g a)) : Checked.sequence (as.map f) = .ok (as.map g) := by
  induction as with
  | nil => rfl
  | cons a as ih =>
    obtain ⟨ha, has⟩ := forall_mem_cons.mp h
    rw [map_cons, Checked.sequence, ha, ih has]
    rfl

theorem readInteger_int {bounds : List (Bound Int)} {n : Int} (h : brokenInt? bounds n = none) :
    readInteger bounds path (.int n) = .ok n := by
  simp only [readInteger, readIntegerValue, h]

theorem TimeSlot.read_write {slot : TimeSlot} (h : TimeSlot.read path v = .ok slot)
    (path' : List String) : TimeSlot.read path' slot.write = .ok slot := by
  have hpart {high n : Int} (h : 0 ≤ n ∧ n ≤ high) (path : List String) :
      readInteger (Bound.between 0 high) path (.int n) = .ok n :=
    readInteger_int (find?_eq_none.mpr (by simp [Bound.between, Bound.holdsInt, h]))
  obtain ⟨⟨ha, hb⟩, hc, hd⟩ := TimeSlot.range_of_read h
  rw [TimeSlot.write, TimeSlot.read]
  simp [readPart, Entries.find?, hpart ha, hpart hb, hpart hc, hpart hd, Checked.both, Except.map]

theorem FieldType.write_ne_null {a : t.Value} (hv : v ≠ .null) (h : t.read path v = .ok a) :
    t.write a ≠ .null := by
  induction t generalizing path with
  | optional t ih =>
    unfold FieldType.read at h
    split at h
    · exact absurd rfl hv
    · obtain ⟨b, hb, rfl⟩ := Checked.exists_of_map h
      exact ih hb
  | _ => exact nofun

theorem FieldType.stable_of_read {a : t.Value} (h : t.read path v = .ok a) : t.Stable a := by
  induction t generalizing path v with
  | text | flag => exact fun _ => rfl
  | integer bounds =>
    have hbounds : brokenInt? bounds a = none := brokenInt?_of_readInteger h
    exact fun _ => readInteger_int hbounds
  | number bounds =>
    have hbounds : brokenFloat? bounds a = none :=
      Option.isNone_iff_eq_none.mp (FieldType.read_keeps h)
    intro path
    simp only [FieldType.read, FieldType.write, readNumber, readNumberValue, hbounds]
  | choice α =>
    obtain ⟨w, hw⟩ := exists_word_of_read h
    have hword : Vocabulary.word a = w := by simpa using find?_some hw
    intro path
    simp only [FieldType.read, FieldType.write, hword, hw, Option.elim]
  | optional t ih =>
    unfold FieldType.read at h
    split at h
    · cases h
      exact fun _ => rfl
    · rename_i hv
      obtain ⟨b, hb, rfl⟩ := Checked.exists_of_map h
      intro path
      show FieldType.read (.optional t) path (t.write b) = .ok (some b)
      unfold FieldType.read
      split
      · exact absurd ‹_› (FieldType.write_ne_null hv hb)
      · rw [ih hb path]
        rfl
  | list t ih =>
    unfold FieldType.read at h
    split at h
    · intro path
      show Checked.sequence ((List.map t.write a).zipIdx.map _) = .ok a
      rw [zipIdx_map, map_map]
      refine (Checked.sequence_map (g := Prod.fst) fun x hx => ?_).trans
        (congrArg Except.ok (zipIdx_map_fst 0 a))
      have hread := Checked.mem_of_sequence h x.1 (fst_mem_of_mem_zipIdx hx)
      obtain ⟨y, -, hy⟩ := mem_map.mp hread
      exact ih hy _
    · cases h
  | flags =>
    intro path
    show Checked.sequence ((List.map _ a).map _) = .ok a
    rw [map_map]
    exact (Checked.sequence_map (g := id) fun _ _ => rfl).trans (congrArg Except.ok (map_id a))
  | slot => exact TimeSlot.read_write h

/-! ## Records -/

/-- Records whose values are read back. -/
def Schema.Stable : (s : Schema) → Record s → Prop
  | [], _ => True
  | f :: s, (a, r) => f.type.Stable a ∧ Stable s r

theorem Schema.stable_of_decode {r : Record s} (hinitial : s.Stable (Record.initial s))
    (h : s.decode es = .ok r) : s.Stable r := by
  induction s with
  | nil => trivial
  | cons f s ih =>
    obtain ⟨a, r⟩ := r
    obtain ⟨hread, hrest⟩ := Checked.both_eq_ok h
    refine ⟨?_, ih hinitial.2 hrest⟩
    rw [Field.read] at hread
    split at hread
    · exact FieldType.stable_of_read hread
    · cases hread
      exact hinitial.1

theorem Schema.decode_of_find {r : Record s} (hstable : s.Stable r)
    (h : ∀ e ∈ s.encode r, es.find? e.1 = some e.2) : s.decode es = .ok r := by
  induction s with
  | nil => rfl
  | cons f s ih =>
    obtain ⟨a, r⟩ := r
    obtain ⟨hfirst, hrest⟩ := forall_mem_cons.mp h
    have hkey : f.keyIn es = f.key := if_pos (by rw [Entries.has, hfirst]; rfl)
    rw [Schema.decode, Field.read, hkey, hfirst, ih hstable.2 hrest]
    simp only [hstable.1 [f.key], Checked.both]

theorem Schema.keys_encode (r : Record s) : (s.encode r).map Prod.fst = s.map Field.key := by
  induction s with
  | nil => rfl
  | cons f s ih => exact congrArg (f.key :: ·) (ih r.2)

theorem Entries.find?_of_mem (hnodup : (es.map Prod.fst).Nodup) {e : String × Json} (he : e ∈ es)
    (fs : Entries) : Entries.find? e.1 (es ++ fs) = some e.2 := by
  induction es with
  | nil => cases he
  | cons first es ih =>
    obtain ⟨hfirst, hnodup⟩ := nodup_cons.mp hnodup
    rw [cons_append, Entries.find?]
    rcases mem_cons.mp he with rfl | he
    · rw [if_pos (beq_self_eq_true _)]
    · have hne : ¬ (first.1 == e.1) = true :=
        fun heq => hfirst (beq_iff_eq.mp heq ▸ mem_map_of_mem he)
      rw [if_neg hne]
      exact ih hnodup he

theorem Entries.has_iff {key : String} : es.has key = true ↔ key ∈ es.map Prod.fst := by
  rw [Entries.has, Entries.find?_eq, Option.isSome_map, find?_isSome, mem_map]
  simp only [beq_iff_eq]

theorem Schema.extras_written (r : Record s) (es : Entries) :
    s.extras (s.encode r ++ s.extras es) = s.extras es := by
  have htakes (k : String) :
      s.takes (s.encode r ++ s.extras es) k = true ↔ k ∈ s.map Field.key := by
    rw [takes, any_eq_true, mem_map]
    refine exists_congr fun f => and_congr_right fun hf => ?_
    have hhas : Entries.has f.key (s.encode r ++ s.extras es) = true := by
      rw [Entries.has_iff, map_append, Schema.keys_encode]
      exact mem_append_left _ (mem_map_of_mem hf)
    rw [Field.keyIn, if_pos hhas, beq_iff_eq]
  have hfields : (s.encode r).filter (fun e => !s.takes (s.encode r ++ s.extras es) e.1) = [] := by
    simp only [filter_eq_nil_iff, Bool.not_eq_true', Bool.not_eq_false, htakes]
    exact fun e he => Schema.keys_encode r ▸ mem_map_of_mem he
  have hothers : (s.extras es).filter (fun e => !s.takes (s.encode r ++ s.extras es) e.1) =
      s.extras es := by
    -- an entry under the key of a field is found there, and so is none of the others
    rw [filter_eq_self]
    intro e he
    obtain ⟨hmem, hfree⟩ : e ∈ es ∧ (!s.takes es e.1) = true := mem_filter.mp he
    rw [Bool.not_eq_true', ← Bool.not_eq_true, htakes, mem_map]
    rintro ⟨f, hf, hkey⟩
    have hhas : es.has f.key = true := Entries.has_iff.mpr (hkey ▸ mem_map_of_mem hmem)
    have htaken : s.takes es e.1 = true :=
      any_eq_true.mpr ⟨f, hf, by rw [Field.keyIn, if_pos hhas, hkey, beq_self_eq_true]⟩
    rw [htaken] at hfree
    cases hfree
  show List.filter _ (_ ++ _) = _
  rw [filter_append]
  exact (congrArg₂ _ hfields hothers).trans (nil_append _)

theorem Schema.find?_written (r : Record s) {key : String} (h : s.Ignores key) (es : Entries) :
    Entries.find? key (s.encode r ++ s.extras es) = es.find? key := by
  have hnone : List.find? (fun e => e.1 == key) (s.encode r) = none := by
    rw [find?_eq_none]
    intro e he heq
    have hkey : e.1 ∈ s.map Field.key := Schema.keys_encode r ▸ mem_map_of_mem he
    obtain ⟨f, hf, hfkey⟩ := mem_map.mp hkey
    exact (h f hf).1 ((beq_iff_eq.mp heq).symm.trans hfkey.symm)
  rw [Entries.find?_eq, find?_append, hnone, Option.none_or, Schema.extras, find?_filter,
    Entries.find?_eq]
  congr 2
  funext e
  by_cases heq : e.1 = key
  · simp [heq, Schema.takes_of_ignores h]
  · simp [heq]

/-! ## Kinds -/

/-- The fields of a kind, after those common to all nodes. -/
abbrev Kind.schema (k : Kind) : Schema :=
  (Common.codec.pair k.shape.codec).schema

theorem Kind.keys_nodup (k : Kind) : (k.schema.map Field.key).Nodup := by
  cases k <;> decide +kernel

theorem Kind.ignores_kindKeys (k : Kind) : ∀ x ∈ kindKeys, k.schema.Ignores x.1 := by
  cases k <;> decide +kernel

theorem Kind.initial_stable (k : Kind) : k.schema.Stable (Record.initial _) := by
  cases k <;> repeat' first | exact True.intro | refine ⟨fun _ => rfl, ?_⟩

theorem NodeData.fields_eq {k : Kind} {r : Record k.schema} {common : Common} {body : k.shape.body}
    (h : (Common.codec.pair k.shape.codec).ofRecord r = (common, body)) (extras : Entries) :
    (⟨common, k.shape.make body, extras⟩ : NodeData).fields = k.schema.encode r := by
  cases h
  rw [NodeData.fields, Kind.encode_make, Codec.encode, Codec.encode, Kind.toRecord_ofRecord,
    ← Schema.encode_append]
  exact congrArg _ (Record.append_split Common.codec.schema r)

theorem Field.write_maybeText {key : String} {a : Option String}
    (h : (Field.maybeText key key).read es = .ok a) :
    (FieldType.optional .text).write a = es.get key := by
  rw [Field.read, Field.keyIn, ite_self] at h
  rw [Entries.get]
  cases hfind : es.find? key with
  | none =>
    rw [hfind] at h
    cases h
    rfl
  | some v =>
    rw [hfind] at h
    cases v <;> cases h <;> rfl

/-- **Parsing is a normalisation.** The fields of parsed data, each under its key with the value
that was read, and the entries that no field takes are parsed again, for the same node type, as the
same data: of the same kind, with the same values and the same other entries. -/
theorem parse_written {id : String} {type : Json} {d : NodeData}
    (h : NodeData.parse id type es = .ok d) :
    NodeData.parse id type (d.fields ++ d.extras) = .ok d := by
  obtain ⟨k, hk, hread⟩ := NodeData.parse_eq_ok_iff.mp h
  obtain ⟨common, body, hdecode, hconflict, rfl⟩ := NodeData.read_eq_ok_iff.mp hread
  obtain ⟨r, hr, hbody⟩ := Checked.exists_of_map hdecode
  have hfind (e : String × Json) (he : e ∈ k.schema.encode r) :
      Entries.find? e.1 (k.schema.encode r ++ k.schema.extras es) = some e.2 :=
    Entries.find?_of_mem (Schema.keys_encode r ▸ k.keys_nodup) he _
  have hstable := Schema.stable_of_decode k.initial_stable hr
  rw [NodeData.fields_eq hbody]
  refine NodeData.parse_eq_ok_iff.mpr
    ⟨k, ?_, NodeData.read_eq_ok_iff.mpr ⟨common, body, ?_, hconflict, ?_⟩⟩
  · refine (Kind.resolve_congr (fun x hx => ?_) ?_ type).trans hk
    · exact Schema.find?_written r (k.ignores_kindKeys x hx) es
    · obtain ⟨-, hrest⟩ := Checked.both_eq_ok hr
      obtain ⟨hcategory, -⟩ := Checked.both_eq_ok hrest
      rw [Entries.get, hfind ("category", _) (mem_cons_of_mem _ mem_cons_self)]
      exact Field.write_maybeText hcategory
  · rw [Codec.decode, Schema.decode_of_find hstable hfind]
    exact congrArg Except.ok hbody
  · rw [Schema.extras_written]

/-- Data with a number and a flag in words, a spelled-out key beside the short one, and a note. -/
def looseData : Entries :=
  [("note", .int 1), ("indicatorType", .str "rsi"), ("period", .str " 21 "),
    ("signal_mode", .int 3), ("signalMode", .str "candle_close"),
    ("require_ema_buffer", .str "Yes")]

theorem parse_written_loose :
    ∃ d, NodeData.parse "n" .null looseData = .ok d ∧ d.extras.length = 3 ∧
      NodeData.parse "n" .null (d.fields ++ d.extras) = .ok d := by
  have hsome : (NodeData.parse "n" .null looseData).toOption.map
    (fun d => d.extras.length) = some 3 := by
    decide +kernel
  cases hparse : NodeData.parse "n" .null looseData with
  | error f =>
    rw [hparse] at hsome
    cases hsome
  | ok d =>
    rw [hparse] at hsome
    exact ⟨d, rfl, Option.some.inj hsome, parse_written hparse⟩

end TradeGraph

import TradeGraph.Proofs.Inputs
import TradeGraph.Proofs.Limits

/-!
# Literals of inputs

An input of type `int` is written as an integer of thirty-two bits, and one of type `double` as a
decimal literal, whenever the field that it shows has limits on both sides. Some fields have none:
the levels of oscillators and the distances of averages; and neither have the settings.
-/

namespace TradeGraph

open List Mql

variable {i : Input}

/-! ## Values -/

/-- An integer of thirty-two bits, a finite double, or no number. -/
def Json.InRange : Json → Prop
  | .int n => IsInt32 n
  | .float x => Double.isFinite x = true
  | _ => True

/-- Is every value of the type that keeps its limits in range? -/
def FieldType.isTight : FieldType → Bool
  | .integer bounds => Bound.isTight (fun n => IsInt32 n) (fun n => IsInt32 n) bounds
  | .number bounds => Bound.isTight Double.isFinite Double.isFinite bounds
  | .optional t => t.isTight
  | _ => true

theorem FieldType.inRange_write {t : FieldType} {a : t.Value} (htight : t.isTight = true)
    (h : t.keeps a = true) : (t.write a).InRange := by
  induction t with
  | text | flag | choice | list | flags | slot =>
    rw [FieldType.write]
    trivial
  | integer bounds =>
    rw [FieldType.keeps, Option.isNone_iff_eq_none] at h
    exact isInt32_of_isTight htight h
  | number bounds =>
    rw [FieldType.keeps, Option.isNone_iff_eq_none] at h
    exact isFinite_of_isTight htight h
  | optional t ih =>
    cases a with
    | none => trivial
    | some a => exact ih htight h

/-- The keys of the fields that are not held on both sides. -/
def Schema.looseKeys (s : Schema) : List String :=
  (s.filter fun f => !f.type.isTight).map Field.key

theorem Schema.inRange_encode {s : Schema} {r : Record s} (h : s.keeps r = true) :
    ∀ e ∈ s.encode r, e.2.InRange ∨ e.1 ∈ s.looseKeys := by
  induction s with
  | nil => exact fun e he => nomatch he
  | cons f s ih =>
    obtain ⟨a, r⟩ := r
    rw [Schema.keeps, Bool.and_eq_true] at h
    intro e he
    rcases mem_cons.mp he with rfl | he
    · cases htight : f.type.isTight with
      | true => exact .inl (FieldType.inRange_write htight h.1)
      | false =>
        refine .inr (mem_map.mpr ⟨f, ?_, rfl⟩)
        rw [mem_filter, htight]
        exact ⟨mem_cons_self, rfl⟩
    · refine (ih h.2 e he).imp_right fun hloose => ?_
      obtain ⟨f', hf', hkey⟩ := mem_map.mp hloose
      obtain ⟨hmem, hnot⟩ := mem_filter.mp hf'
      exact mem_map.mpr ⟨f', mem_filter.mpr ⟨mem_cons_of_mem _ hmem, hnot⟩, hkey⟩

def Kind.looseFields (k : Kind) : List String :=
  k.shape.codec.schema.looseKeys

example : Kind.looseFields .cci =
    ["minEmaSeparation", "pullbackMaxDistance", "overboughtLevel", "oversoldLevel"] := by
  decide +kernel

theorem Payload.Kept.inRange {p : Payload} (h : p.Kept) {field : String} {v : Json}
    (hfind : p.encode.find? field = some v) (hfield : field ∉ p.kind.looseFields) : v.InRange := by
  obtain ⟨b, hmake, hkeeps⟩ := h
  have hencode : p.encode = p.kind.shape.codec.encode b := by
    rw [← Kind.encode_make, hmake]
  rw [hencode] at hfind
  exact (Schema.inRange_encode hkeeps _ (Entries.mem_of_find? hfind)).resolve_right hfield

/-! ## Inputs -/

/-- The value is written as a literal of its type: an integer of thirty-two bits or a decimal. -/
structure Input.IsLiteral (i : Input) : Prop where
  int : i.type = "int" → ∃ n : Int, i.initialText = toString n ∧ IsInt32 n
  double : i.type = "double" → isDecimal i.initialText = true

def Scalar.InRange : Scalar → Prop
  | .int n => IsInt32 n
  | .float x => Double.isFinite x = true
  | _ => True

theorem eq_of_int_text_eq {n m : Int} (h : toString n = toString m) : n = m := by
  have hsign (k l : Nat) : "-" ++ k.repr ≠ l.repr := by
    intro hsame
    have hminus : '-' ∈ l.repr.toList := by
      rw [← hsame, String.toList_append]
      exact mem_append_left _ mem_cons_self
    rw [Nat.toList_repr] at hminus
    exact absurd ((isDigits_toDigits l).digit _ hminus) (by decide)
  rw [Int.toString_eq_repr, Int.toString_eq_repr, Int.repr_eq_if, Int.repr_eq_if] at h
  split at h <;> split at h
  · have := eq_of_numeral_eq h
    omega
  · exact absurd h.symm (hsign _ _)
  · exact absurd h (hsign _ _)
  · rw [String.append_right_inj] at h
    have := eq_of_numeral_eq h
    omega

theorem Input.isLiteral_int {n : Int} (htype : i.type = "int") (hvalue : i.value = .int n) :
    i.IsLiteral ↔ IsInt32 n := by
  have htext : i.initialText = toString n := by
    rw [Input.initialText, htype, hvalue]
    rfl
  constructor
  · intro h
    obtain ⟨m, hm, hrange⟩ := h.int htype
    exact eq_of_int_text_eq (htext.symm.trans hm) ▸ hrange
  · intro h
    exact ⟨fun _ => ⟨n, htext, h⟩, fun hdouble => absurd (htype.symm.trans hdouble) (by decide)⟩

theorem Input.isLiteral_double (htype : i.type = "double") :
    i.IsLiteral ↔ isDecimal i.value.written = true := by
  have htext : i.initialText = i.value.written := by
    rw [Input.initialText, htype]
    rfl
  rw [← htext]
  exact ⟨fun h => h.double htype,
    fun h => ⟨fun hint => absurd (htype.symm.trans hint) (by decide), fun _ => h⟩⟩

theorem Input.isLiteral_other (hint : i.type ≠ "int") (hdouble : i.type ≠ "double") : i.IsLiteral :=
  ⟨fun h => absurd h hint, fun h => absurd h hdouble⟩

theorem Constant.inRange {name : Ident} {type : String} {value : Scalar}
    (h : Constant name type value) : value.InRange := by
  cases h with
  | slippage | expiry | bandBuffer | base => simp [Scalar.InRange, IsInt32]
  | averageMultiplier | rangeMultiplier => exact (by decide +kernel : Double.isFinite 1.5 = true)

theorem Input.Supplied.isLiteral_iff_inRange {s : Settings} {nodes : List Node}
    (h : i.Supplied s nodes) : i.IsLiteral ↔ i.value.InRange := by
  obtain ⟨name, type, value, comment, optimizable, group⟩ := i
  have hdouble (x : Float) :
    Input.IsLiteral ⟨name, "double", .float x, comment, optimizable, group⟩ ↔
      Double.isFinite x = true := by
    rw [Input.isLiteral_double rfl, Scalar.written, Double.isDecimal_plainText]
  have hwhole (n : Int) : Input.IsLiteral ⟨name, "double", .int n, comment, optimizable, group⟩ :=
    (Input.isLiteral_double rfl).mpr (isDecimal_int n)
  cases h with
  | field _ _ hshows =>
    obtain ⟨-, v, -, htyped⟩ := hshows
    cases htyped with
    | int n => exact Input.isLiteral_int rfl rfl
    | double x => exact hdouble x
    | timeframe => exact iff_of_true (Input.isLiteral_other (by simp) (by simp)) trivial
  | setting hsetting =>
    cases hsetting with
    | magic => exact Input.isLiteral_int rfl rfl
    | comment => exact iff_of_true (Input.isLiteral_other (by simp) (by simp)) trivial
    | profit | loss => exact hdouble _
  | constant hconstant =>
    have hrange := hconstant.inRange
    cases hconstant with
    | slippage | expiry => exact Input.isLiteral_int rfl rfl
    | bandBuffer | base => exact iff_of_true (hwhole _) hrange
    | averageMultiplier | rangeMultiplier => exact hdouble _

/-- The value of the input is not held on both sides: it is a setting, or a loose field. -/
inductive Input.Unlimited (s : Settings) (nodes : List Node) (i : Input) : Prop
  | setting : s.Gives i.name i.type i.value → Unlimited s nodes i
  | field {n : Node} {field : String} : n ∈ nodes → field ∈ n.kind.looseFields → i.Shows n field →
      Unlimited s nodes i

theorem Typed.inRange {type : String} {value : Scalar} {v : Json} (h : Typed type value v)
    (hv : v.InRange) : value.InRange := by
  cases h with
  | int | double => exact hv
  | timeframe => trivial

/-- **Inputs are literals of their types**, save for those whose value is unlimited: of these, only
the ones that happen to be in range. -/
theorem isLiteral_iff {document : Json} {project : String} {options : Options} {g : Graph}
    {c : Compiled} (hload : Graph.load document = .ok g)
    (h : (compile document project options).result = .ok c) :
    ∀ i ∈ c.program.inputs,
      i.IsLiteral ↔ (i.Unlimited c.context.settings g.liveNodes → i.value.InRange) := by
  intro i hi
  rw [compile, hload] at h
  have hsupplied := (Graph.sourced h i hi).supplied
  rw [hsupplied.isLiteral_iff_inRange]
  refine ⟨fun hrange _ => hrange, fun hlimited => ?_⟩
  cases hsupplied with
  | setting hsetting => exact hlimited (.setting hsetting)
  | constant hconstant => exact hconstant.inRange
  | @field n field hn _ hshows =>
    by_cases hloose : field ∈ n.kind.looseFields
    · exact hlimited (.field hn hloose hshows)
    · obtain ⟨-, v, hfind, htyped⟩ := hshows
      have hkept : n.data.payload.Kept :=
        Graph.kept_of_mem_expand hload (mem_filter.mp hn).1
      exact htyped.inRange (hkept.inRange hfind hloose)

/-- An oscillator with a level far beyond its scale. -/
def scaledDocument : Json :=
  .obj [("nodes", .arr [.node "rsi" "rsi" [("overboughtLevel", .float 1e20),
      ("oversoldLevel", .float 0.00001)]])]

def scaledGraph : Graph := scaledDocument.graph

theorem isLiteral_iff_scaled :
    ∃ c, Graph.load scaledDocument = .ok scaledGraph ∧
      (compile scaledDocument "Test" {}).result = .ok c ∧
      (c.program.inputs.filter fun i => i.type == "double").map
          (fun i => (i.name.text, i.value.shown)) =
        [("InpRSI0Overbought", "1e+20"), ("InpRSI0Oversold", "1e-05")] ∧
      ∀ i ∈ c.program.inputs,
        i.IsLiteral ↔ (i.Unlimited c.context.settings scaledGraph.liveNodes → i.value.InRange) := by
  have hload : Graph.load scaledDocument = .ok scaledGraph := rfl
  obtain ⟨c, hc, hlevels⟩ := Compilation.exists_of_map (x := compile scaledDocument "Test" {})
    (f := fun c => (c.program.inputs.filter fun i => i.type == "double").map
      (fun i => (i.name.text, i.value.shown)))
    (a := [("InpRSI0Overbought", "1e+20"), ("InpRSI0Oversold", "1e-05")]) (by decide +kernel)
  exact ⟨c, hload, hc, hlevels, isLiteral_iff hload hc⟩

/-- A magic number beyond thirty-two bits. -/
def largeMagicDocument : Json :=
  .obj [("settings", .obj [("magicNumber", .int 9999999999)])]

theorem magicNumber_exceeds_int32 :
    ∃ c, (compile largeMagicDocument "Test" {}).result = .ok c ∧
      ∃ i ∈ c.program.inputs, i.type = "int" ∧ i.initialText = "9999999999" ∧ ¬ i.IsLiteral := by
  obtain ⟨c, hc, hinputs⟩ := Compilation.exists_of_map (x := compile largeMagicDocument "Test" {})
    (f := fun c => c.program.inputs.map fun i => (i.type, i.initialText))
    (a := [("int", "9999999999"), ("string", "\"QuantDSL EA\""), ("int", "10")]) (by decide +kernel)
  have hmem : ("int", "9999999999") ∈ c.program.inputs.map fun i => (i.type, i.initialText) := by
    rw [hinputs]
    exact mem_cons_self
  obtain ⟨i, hi, hsame⟩ := mem_map.mp hmem
  rw [Prod.mk.injEq] at hsame
  refine ⟨c, hc, i, hi, hsame.1, hsame.2, fun hliteral => ?_⟩
  obtain ⟨n, hn, hrange⟩ := hliteral.int hsame.1
  have hdigits : toString (9999999999 : Int) = "9999999999" := by decide +kernel
  rw [← eq_of_int_text_eq (hdigits.trans (hsame.2.symm.trans hn))] at hrange
  exact absurd hrange (by decide)

end TradeGraph

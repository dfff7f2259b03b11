import TradeGraph.Proofs.Distinct

/-!
# Numbers of rules

A rule is numbered by counting the inputs that start with the marker of its kind. No other name
starts with a marker, and each rule has one input that does, so what is counted are the rules of the
kind that came before. The code of a management node is therefore told by the node and by how many
nodes of its kind stand before it.
-/

namespace TradeGraph

open List Mql Rule

variable {p : Program}

/-! ## What is counted -/

def markers : List String :=
  ruleMarkers.map Prod.snd

theorem Management.marker_mem (rule : Management) : rule.marker ∈ markers := by
  cases rule <;> simp [marker, markers, ruleMarkers]

theorem Management.marker_eq_iff {rule other : Management} :
    other.marker = rule.marker ↔ other.kind = rule.kind := by
  cases rule <;> cases other <;> simp [marker, kind, Payload.kind]

theorem eq_marker_of_prefix : ∀ v ∈ markers, ∀ w ∈ Family.all.flatMap Family.leads,
    v.toList <+: w.toList ∨ w.toList <+: v.toList → w = v := by
  decide +kernel

theorem Mql.Ident.lead_prefix_text (x : Ident) : x.lead.toList <+: x.text.toList := by
  cases hnumber : x.number with
  | none =>
    rw [Ident.text_of_number_none hnumber]
  | some k =>
    have hlead : x.lead = x.stem := by rw [Ident.lead, hnumber]
    rw [hlead, Ident.text_eq, String.toList_append]
    exact prefix_append _ _

theorem Mql.Ident.Named.startsWith_marker_iff {x : Ident} {f : Family} (h : x.Named f) {v : String}
    (hv : v ∈ markers) : v.toList.isPrefixOf x.text.toList = true ↔ x.lead = v := by
  have hlead := x.lead_prefix_text
  rw [ isPrefixOf_iff_prefix]
  constructor
  · intro hstart
    exact eq_marker_of_prefix v hv _ (mem_leads h.lead)
      ( prefix_or_prefix_of_prefix hstart hlead)
  · rintro rfl
    exact hlead

theorem countInputs_eq_count {number : Option Nat} {stems : List String}
    (hinputs : p.inputs.map Input.name = stems.map fun s => (⟨s, number, ""⟩ : Ident))
    (hstems : ∀ s ∈ stems, s ∈ Family.all.flatMap Family.leads) {v : String} (hv : v ∈ markers) :
    p.countInputs v = stems.count v := by
  have hnames : p.countInputs v =
      (p.inputs.map Input.name).countP fun x => v.toList.isPrefixOf x.text.toList := by
    rw [countP_map]
    rfl
  rw [hnames, hinputs, countP_map]
  refine countP_congr fun s hs => ?_
  obtain ⟨f, -, hf⟩ := mem_flatMap.mp (hstems s hs)
  have hlead : (⟨s, number, ""⟩ : Ident).lead = s := by
    cases number with
    | none => exact String.append_empty
    | some k => rfl
  have hnamed : (⟨s, number, ""⟩ : Ident).Named f := ⟨by rwa [hlead], rfl⟩
  rw [Function.comp_apply, hnamed.startsWith_marker_iff hv, hlead, beq_iff_eq]

theorem Program.Uses.countInputs_eq_zero (h : p.Uses plainFamilies) {v : String}
    (hv : v ∈ markers) : p.countInputs v = 0 := by
  have hown : ∀ e ∈ ruleMarkers, e.2 ∈ e.1.leads := by decide
  obtain ⟨⟨f, _⟩, he, rfl⟩ := mem_map.mp hv
  refine countP_eq_zero.mpr fun i hi hstart => ?_
  obtain ⟨g, hg, hnamed⟩ := h.named i.name (Program.name_mem hi)
  have hlead := (hnamed.startsWith_marker_iff hv).mp hstart
  have hsame : g = f := Family.eq_of_mem_leads (hlead ▸ hnamed.lead) (hown _ he)
  exact family_of_mem_ruleMarkers he (mem_cons_of_mem _ (hsame ▸ hg))

/-! ## What a rule adds -/

/-- All words of a rule are known; one is the marker of its kind, and none is a marker of another.
-/
theorem Management.inputStems_spec (rule : Management) :
    (∀ s ∈ rule.inputStems, s ∈ Family.all.flatMap Family.leads) ∧
      ∀ v ∈ markers, rule.inputStems.count v = if v = rule.marker then 1 else 0 := by
  cases rule with
  | breakeven p => rw [inputStems, marker]; cases p.trigger <;> decide
  | trailing p => rw [inputStems, marker]; cases p.method <;> decide
  | partialClose p => rw [inputStems, marker]; cases p.triggerMethod <;> decide
  | lockProfit p => rw [inputStems, marker]; cases p.method <;> decide
  | multiTarget p => rw [inputStems, marker]; decide

theorem countInputs_managementCode (n : Node) (program : Program) (rule other : Management) :
    (managementCode n program rule).countInputs other.marker =
      if rule.kind = other.kind then 1 else 0 := by
  obtain ⟨hleads, hcount⟩ := rule.inputStems_spec
  rw [countInputs_eq_count (inputs_managementCode n program rule) hleads other.marker_mem,
    hcount _ other.marker_mem]
  simp only [Management.marker_eq_iff, eq_comm]

/-! ## The code of a rule after others -/

/-- What a rule looks at after so many rules of its kind: an input for each of them, and the table
of levels if one has brought it. -/
def Management.after (rule : Management) (earlier : Nat) : Program where
  inputs := List.replicate earlier { name := rule.marker, type := "double", value := .float 0 }
  globals := if earlier = 0 then [] else levelTable.globals

theorem Management.countInputs_after (rule : Management) (earlier : Nat) :
    (rule.after earlier).countInputs rule.marker = earlier := by
  have hstart : rule.marker.toList.isPrefixOf (rule.marker : Ident).text.toList = true := by
    rw [ isPrefixOf_iff_prefix, Ident.text_eq, String.toList_append]
    exact prefix_append _ _
  rw [Program.countInputs, after, countP_replicate, if_pos hstart]

theorem Management.mentions_after (rule : Management) (earlier : Nat) :
    (rule.after earlier).mentions "SMLTPState" = (earlier != 0) := by
  rw [Program.mentions, after]
  by_cases h : earlier = 0
  · simp [h]
  · simp only [h, if_false]
    have : (earlier != 0) = true := bne_iff_ne.mpr h
    rw [this]
    decide

/-- Rules look at the number of those before, and at the table of levels. -/
theorem managementCode_congr (n : Node) {q : Program} {rule : Management}
    (hcount : p.countInputs rule.marker = q.countInputs rule.marker)
    (htable : rule.kind = .multiLevelTarget → p.mentions "SMLTPState" = q.mentions "SMLTPState") :
    managementCode n p rule = managementCode n q rule := by
  have hnumber : nextRule p rule.marker = nextRule q rule.marker := by
    rw [nextRule_eq, nextRule_eq, hcount]
  cases rule
  case multiTarget t =>
    rw [Management.marker] at hnumber
    simp only [managementCode, targetsCode, hnumber, htable rfl]
  all_goals
    rw [Management.marker] at hnumber
    simp only [managementCode, breakevenCode, trailingCode, partialCode, lockCode, hnumber]

/-- How many of the nodes are of a kind. -/
def ofKind (kind : Kind) (ns : List Node) : Nat :=
  ns.countP fun n => n.kind == kind

def ruleCodeAt (before : List Node) (n : Node) : Program :=
  match n.data.payload with
  | .management rule => managementCode n (rule.after (ofKind rule.kind before)) rule
  | _ => {}

/-- The part of the program for a management node that stands after others. -/
def managementPart (before : List Node) (n : Node) : Program :=
  { helpers := [.ofFunction safeModify] } ++ ruleCodeAt before n

def managementParts : List Node → List Node → List Program
  | _, [] => []
  | before, n :: ns => managementPart before n :: managementParts (before ++ [n]) ns

/-- The program has the rules of the nodes, as far as later rules can tell. -/
structure Program.HasRules (p : Program) (before : List Node) : Prop where
  counts : ∀ rule : Management, p.countInputs rule.marker = ofKind rule.kind before
  table : p.mentions "SMLTPState" = (ofKind .multiLevelTarget before != 0)

theorem Program.Uses.hasRules (h : p.Uses plainFamilies)
    (htable : p.mentions "SMLTPState" = false) :
    p.HasRules [] where
  counts rule := h.countInputs_eq_zero rule.marker_mem
  table := htable

namespace Program.HasRules

variable {p : Program} {before : List Node} {n : Node} {rule : Management}

theorem managementCode_eq (h : p.HasRules before) (hrule : n.data.payload = .management rule) :
    managementCode n p rule = ruleCodeAt before n := by
  rw [ruleCodeAt]
  simp only [hrule]
  refine managementCode_congr n ?_ fun hkind => ?_
  · rw [h.counts, Management.countInputs_after]
  · rw [h.table, Management.mentions_after, hkind]

theorem append (h : p.HasRules before) (hrule : n.data.payload = .management rule) :
    (p ++ managementPart before n).HasRules (before ++ [n]) := by
  have hkind : n.kind = rule.kind := by rw [Node.kind, hrule]; rfl
  have hone (kind : Kind) : ofKind kind (before ++ [n]) =
      ofKind kind before + if rule.kind = kind then 1 else 0 := by
    rw [ofKind, countP_append, countP_singleton, hkind]
    simp only [beq_iff_eq]
    rfl
  have hcode := h.managementCode_eq hrule
  constructor
  · intro other
    have hpart : (managementPart before n).countInputs other.marker =
        (ruleCodeAt before n).countInputs other.marker := by
      rw [managementPart, Program.countInputs_append]
      exact Nat.zero_add _
    rw [Program.countInputs_append, hpart, ← hcode, countInputs_managementCode, h.counts, hone]
  · have hpart : (managementPart before n).mentions "SMLTPState" =
        (ruleCodeAt before n).mentions "SMLTPState" := by
      rw [managementPart, Program.mentions_append]
      exact Bool.false_or _
    rw [Program.mentions_append, hpart, ← hcode, mentions_managementCode, h.table, hone]
    by_cases hlevels : rule.kind = .multiLevelTarget
    · simp [hlevels]
    · simp [hlevels]

end Program.HasRules

theorem emitManagement_ok {n : Node} (h : (emitManagement n p).fault = none) :
    ∃ rule, n.data.payload = .management rule := by
  rw [emitManagement] at h
  split at h
  · exact ⟨_, ‹_›⟩
  · cases h

/-- **The rules of a run.** Each is the code of its node after those before it. -/
theorem Run.eq_managementParts {ns : List Node} {before : List Node} {q : Program}
    (hrun : Run (ns.map emitManagement) p q) (hp : p.HasRules before) :
    q = (managementParts before ns).foldl (· ++ ·) p ∧
      asked (ns.map emitManagement) p = (managementParts before ns).flatMap Program.helpers := by
  induction ns generalizing before p with
  | nil =>
    cases hrun
    exact ⟨rfl, rfl⟩
  | cons n ns ih =>
    rw [map_cons] at hrun ⊢
    cases hrun with
    | step hfault hrest =>
      obtain ⟨rule, hrule⟩ := emitManagement_ok hfault
      have hcode : (emitManagement n p).code = managementPart before n := by
        rw [managementPart, ← hp.managementCode_eq hrule, emitManagement]
        simp only [hrule]
      rw [hcode] at hrest
      obtain ⟨hq, hasked⟩ := ih hrest (hp.append hrule)
      rw [managementParts, foldl_cons, flatMap_cons, asked, hcode, hasked]
      exact ⟨hq, rfl⟩

end TradeGraph

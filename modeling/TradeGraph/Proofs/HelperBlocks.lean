import TradeGraph.Proofs.RuleNumbers

/-!
# Helper blocks

A helper block is dropped without a word if its key is known. So a key must stand for one block: the
blocks of the library differ in their keys, and those of rules carry the numbers of the rules.
-/

namespace TradeGraph

open List Mql Rule

variable {h : Helper} {ns : List Node} {n : Node}

/-! ## The blocks of a rule -/

/-- The function that a statement calls, with or without a guard. -/
def Mql.Stmt.callee? : Stmt → Option Ident
  | .act (.run (.call f _)) | .guard _ (.run (.call f _)) => some f
  | _ => none

/-- What the function of a rule is called, before its number. -/
def Management.stem : Management → String
  | .breakeven _ => "CheckBreakevenStop"
  | .trailing _ => "CheckTrailingStop"
  | .partialClose _ => "CheckPartialClose"
  | .lockProfit _ => "CheckLockProfit"
  | .multiTarget _ => "CheckMultiLevelTP"

/-- The words of the blocks that carry the number of a rule. -/
def Management.blockStems : Management → List String
  | .partialClose _ => ["PartialClosedTable", "CheckPartialClose"]
  | rule => [rule.stem]

/-- The tables that a rule asks for before its function. -/
def Management.tables (program : Program) : Management → List Helper
  | .partialClose _ =>
    let k := nextRule program "InpPartialClosePercent"
    [{ key := (k.name "PartialClosedTable").text, body := .functions (closedTableFunctions k) }]
  | .multiTarget _ => if program.mentions "SMLTPState" then [] else levelTable.helpers
  | _ => []

/-- The names of rules are told apart by their letters and by their numbers. -/
theorem name_text_inj {s t : String} (hs : isLetters s = true) (ht : isLetters t = true)
    {j k : RuleNumber} (h : (j.name s).text = (k.name t).text) : s = t ∧ j = k := by
  -- letters and digits of a name tell its two parts
  have hparts {u : String} (hu : isLetters u = true) (i : RuleNumber) :
      (i.name u).text.toList.filter (fun c => !c.isDigit) = u.toList ∧
        (i.name u).text.toList.filter Char.isDigit = (i.name u).digits.toList := by
    have htext : (i.name u).text.toList = u.toList ++ (i.name u).digits.toList := by
      rw [Ident.text_eq, String.toList_append, String.toList_append]
      exact congrArg _ (append_nil _)
    have hletters : ∀ c ∈ u.toList, (!c.isDigit) = true := all_eq_true.mp hu
    rw [htext, filter_append, filter_append, filter_eq_self.mpr hletters,
      filter_eq_self.mpr isDigit_of_mem_digits]
    refine ⟨?_, ?_⟩
    · simpa using isDigit_of_mem_digits (x := i.name u)
    · simpa using hletters
  obtain ⟨hjs, hjd⟩ := hparts hs j
  obtain ⟨hkt, hkd⟩ := hparts ht k
  rw [h] at hjs hjd
  have hnumber : (j.name s).digits = (k.name t).digits := String.toList_inj.mp (hjd.symm.trans hkd)
  refine ⟨String.toList_inj.mp (hjs.symm.trans hkt), ?_⟩
  cases j with
  | none =>
    cases k with
    | none => rfl
    | some m => exact absurd hnumber.symm (by simp [Ident.digits, RuleNumber.name])
  | some n =>
    cases k with
    | none => exact absurd hnumber (by simp [Ident.digits, RuleNumber.name])
    | some m => exact congrArg some (eq_of_numeral_eq hnumber)

theorem name_text_ne {s t : String} (hs : isLetters s = true) (ht : isLetters t = true) (h : s ≠ t)
    {j k : RuleNumber} : (j.name s).text ≠ (k.name t).text :=
  fun heq => h (name_text_inj hs ht heq).1

/-- After a part that does not know its key, the function of a rule is one more block. -/
theorem append_ruleCode_blocks {part : Program} {name : Ident} {what : String}
    {params : List RuleParam} {body : List Stmt} {ready : Option Ident} (hrules : part.rules = [])
    (hkey : ¬ Program.HasKey part.helpers name.text) :
    ∃ f call, f.name = name ∧ (part ++ ruleCode name what params body ready).rules = [call] ∧
      call.callee? = some f.name ∧ ¬ Program.HasKey part.helpers f.name.text ∧
      (part ++ ruleCode name what params body ready).helpers = part.helpers ++ [.ofFunction f] := by
  have hcall : (part ++ ruleCode name what params body ready).rules =
      (ruleCode name what params body ready).rules := by
    rw [Program.append_rules, hrules, nil_append]
  cases ready with
  | none => exact ⟨_, _, rfl, hcall, rfl, hkey, Program.joinHelper_of_not_hasKey hkey⟩
  | some flag => exact ⟨_, _, rfl, hcall, rfl, hkey, Program.joinHelper_of_not_hasKey hkey⟩

/-- Apart from its tables a rule has one block, the function that it calls. -/
theorem managementCode_blocks (n : Node) (program : Program) (rule : Management) :
    ∃ f call, f.name = (nextRule program rule.marker).name rule.stem ∧
      (managementCode n program rule).rules = [call] ∧ call.callee? = some f.name ∧
      ¬ Program.HasKey (rule.tables program) f.name.text ∧
      (managementCode n program rule).helpers = rule.tables program ++ [.ofFunction f] := by
  have hnone (key : String) : ¬ Program.HasKey [] key := fun ⟨_, hk, _⟩ => nomatch hk
  cases rule with
  | breakeven p =>
    simp only [managementCode, breakevenCode]
    cases p.trigger <;> exact append_ruleCode_blocks rfl (hnone _)
  | trailing p =>
    simp only [managementCode, trailingCode]
    cases p.method <;> exact append_ruleCode_blocks rfl (hnone _)
  | partialClose p =>
    simp only [managementCode, partialCode]
    refine append_ruleCode_blocks rfl ?_
    rintro ⟨k, hk, hkey⟩
    rw [mem_singleton.mp hk] at hkey
    exact name_text_ne (t := "CheckPartialClose") (by decide) (by decide) (by decide) hkey
  | lockProfit p => exact append_ruleCode_blocks rfl (hnone _)
  | multiTarget p =>
    simp only [managementCode, targetsCode, Management.tables]
    cases program.mentions "SMLTPState" with
    | true => exact append_ruleCode_blocks rfl (hnone _)
    | false =>
      refine append_ruleCode_blocks rfl ?_
      rintro ⟨k, hk, hkey⟩
      rw [mem_singleton.mp hk, ← Scope.text_plain "MLTPStateTable"] at hkey
      exact name_text_ne (s := "MLTPStateTable") (t := "CheckMultiLevelTP") (j := none) (by decide)
        (by decide) (by decide) hkey

/-- The blocks of a rule carry its number, but for the table that rules with levels share. -/
theorem mem_helpers_managementCode {program : Program} {rule : Management}
    (hh : h ∈ (managementCode n program rule).helpers) :
    h ∈ levelTable.helpers ∨ ∃ stem ∈ rule.blockStems,
      h.key = ((nextRule program rule.marker).name stem).text := by
  obtain ⟨f, call, hname, -, -, -, hhelpers⟩ := managementCode_blocks n program rule
  rw [hhelpers, mem_append, mem_singleton] at hh
  rcases hh with hh | rfl
  · cases rule with
    | partialClose p =>
      rw [mem_singleton.mp hh]
      exact .inr ⟨_, mem_cons_self, rfl⟩
    | multiTarget p =>
      simp only [Management.tables] at hh
      split at hh
      · cases hh
      · exact .inl hh
    | _ => cases hh
  · refine .inr ⟨rule.stem, ?_, congrArg Ident.text hname⟩
    cases rule <;> simp [Management.blockStems, Management.stem]

theorem nodup_keys_managementCode (n : Node) (program : Program) (rule : Management) :
    ((managementCode n program rule).helpers.map Helper.key).Nodup := by
  obtain ⟨f, call, -, -, -, hnew, hhelpers⟩ := managementCode_blocks n program rule
  rw [hhelpers, ← Program.joinHelper_of_not_hasKey (h := .ofFunction f) hnew]
  refine nodup_keys_joinHelper ?_
  cases rule with
  | partialClose p => exact nodup_singleton _
  | multiTarget p =>
    simp only [Management.tables]
    split
    · exact nodup_nil
    · exact nodup_singleton _
  | _ => exact nodup_nil

/-! ## Keys -/

/-- The blocks that carry no number: those of the library, the table of levels and the pass. -/
def fixedBlocks (options : Options) (p : Program) : List Helper :=
  (libraryFunctions options ++ [safeModify, passFunction p]).map .ofFunction ++ levelTable.helpers

/-- Their keys depend on nothing. -/
def fixedKeys : List String :=
  (fixedBlocks {} {}).map Helper.key

theorem keys_fixedBlocks (options : Options) (p : Program) :
    (fixedBlocks options p).map Helper.key = fixedKeys := rfl

theorem fixedKeys_spec : fixedKeys.Nodup ∧ ∀ key ∈ fixedKeys, isLetters key = true := by
  decide +kernel

theorem Management.blockStems_spec (rule : Management) :
    ∀ stem ∈ rule.blockStems, isLetters stem = true ∧ stem ∉ fixedKeys := by
  cases rule <;> (simp only [blockStems, stem]; decide +kernel)

theorem Management.kind_eq_of_mem_blockStems {rule other : Management} {stem : String}
    (h : stem ∈ rule.blockStems) (h' : stem ∈ other.blockStems) : rule.kind = other.kind := by
  cases rule <;> cases other <;> simp_all [blockStems, Management.stem, kind, Payload.kind]

/-- Of two nodes of one kind the later one has more of the kind before it. -/
theorem ofKind_take_lt {i j : Nat} (hn : ns[i]? = some n) (hij : i < j) :
    ofKind n.kind (ns.take i) < ofKind n.kind (ns.take j) := by
  have htake : ns.take (i + 1) = ns.take i ++ [n] := by
    rw [take_add_one, hn]
    rfl
  have hle : ofKind n.kind (ns.take (i + 1)) ≤ ofKind n.kind (ns.take j) :=
    (take_prefix_take_left (l := ns) hij).sublist.countP_le
  rw [htake, ofKind, countP_append, countP_singleton, if_pos (beq_self_eq_true _)] at hle
  exact hle

/-- A block that a compile with these management nodes can ask for. -/
inductive Request (options : Options) (ns : List Node) (p : Program) : Helper → Prop
  | fixed {h : Helper} : h ∈ fixedBlocks options p → Request options ns p h
  | numbered {j : Nat} {n : Node} {rule : Management} {stem : String} {h : Helper} :
      ns[j]? = some n → n.data.payload = .management rule →
      h ∈ (ruleCodeAt (ns.take j) n).helpers → stem ∈ rule.blockStems →
      h.key = (RuleNumber.name (exitNumber (ofKind rule.kind (ns.take j))) stem).text →
      Request options ns p h

namespace Request

variable {options : Options} {ns : List Node} {p : Program} {h k : Helper}

/-- **A key stands for one block.** -/
theorem eq_of_key_eq (hh : Request options ns p h) (hk : Request options ns p k)
    (heq : h.key = k.key) : h = k := by
  have hfixed {h : Helper} (hh : h ∈ fixedBlocks options p) {rule : Management} {stem : String}
      (hstem : stem ∈ rule.blockStems) {i : RuleNumber} : h.key ≠ (i.name stem).text := by
    have hkey : h.key ∈ fixedKeys := keys_fixedBlocks options p ▸ mem_map_of_mem hh
    obtain ⟨hletters, hnone⟩ := rule.blockStems_spec stem hstem
    rw [← Scope.text_plain h.key]
    exact name_text_ne (j := none) (fixedKeys_spec.2 _ hkey) hletters
      fun hsame => hnone (hsame ▸ hkey)
  cases hh with
  | fixed hh =>
    cases hk with
    | fixed hk =>
      exact inj_on_of_nodup_map (keys_fixedBlocks options p ▸ fixedKeys_spec.1) hh hk heq
    | numbered _ _ _ hstem hkey => exact absurd (heq.trans hkey) (hfixed hh hstem)
  | @numbered i n rule stem h hn hrule hh hstem hkey =>
    cases hk with
    | fixed hk => exact absurd (heq.symm.trans hkey) (hfixed hk hstem)
    | @numbered j m other stem' k hm hother hk hstem' hkey' =>
      obtain ⟨rfl, hnumber⟩ := name_text_inj (rule.blockStems_spec stem hstem).1
        (other.blockStems_spec stem' hstem').1 (hkey.symm.trans (heq.trans hkey'))
      have hkind := Management.kind_eq_of_mem_blockStems hstem hstem'
      have hcount := exitNumber_injective hnumber
      have hnkind : n.kind = rule.kind := by rw [Node.kind, hrule]; rfl
      have hmkind : m.kind = rule.kind := by rw [Node.kind, hother, hkind]; rfl
      -- the number is that of one node only
      obtain rfl : i = j := by
        rcases Nat.lt_trichotomy i j with hlt | rfl | hlt
        · have := ofKind_take_lt hn hlt
          rw [hnkind, hcount, hkind] at this
          exact absurd this (Nat.lt_irrefl _)
        · rfl
        · have := ofKind_take_lt hm hlt
          rw [hmkind, hcount, hkind] at this
          exact absurd this (Nat.lt_irrefl _)
      cases hn.symm.trans hm
      have hnodup : ((ruleCodeAt (ns.take i) n).helpers.map Helper.key).Nodup := by
        rw [ruleCodeAt]
        simp only [hrule]
        exact nodup_keys_managementCode n _ rule
      exact inj_on_of_nodup_map hnodup hh hk heq

end Request

/-! ## What a compile asks for -/

theorem nextRule_after (rule : Management) (earlier : Nat) :
    nextRule (rule.after earlier) rule.marker = exitNumber earlier := by
  rw [nextRule_eq, Management.countInputs_after]

section Rules

variable {j : Nat} {options : Options} {p : Program}

theorem request_safeModify : Request options ns p (.ofFunction safeModify) :=
  .fixed (mem_append_left _ (mem_map_of_mem (mem_append_right _ mem_cons_self)))

theorem request_of_mem_ruleCodeAt (hn : ns[j]? = some n)
    (hh : h ∈ (ruleCodeAt (ns.take j) n).helpers) : Request options ns p h := by
  have hcode := hh
  rw [ruleCodeAt] at hcode
  split at hcode
  · rename_i rule hrule
    rcases mem_helpers_managementCode hcode with htable | ⟨stem, hstem, hkey⟩
    · exact .fixed (mem_append_right _ htable)
    · rw [nextRule_after] at hkey
      exact .numbered hn hrule hh hstem hkey
  · cases hcode

/-- All that a rule asks for is on the list. -/
theorem request_of_mem_managementPart (hn : ns[j]? = some n)
    (hh : h ∈ (managementPart (ns.take j) n).helpers) : Request options ns p h := by
  rcases Program.mem_of_mem_joinHelpers _ hh with hh | hh
  · rw [mem_singleton.mp hh]
    exact request_safeModify
  · exact request_of_mem_ruleCodeAt hn hh

/-- The parts of the rules, each with the nodes before it. -/
theorem mem_managementParts {part : Program} : ∀ {ns before : List Node},
    part ∈ managementParts before ns ↔
      ∃ j n, ns[j]? = some n ∧ managementPart (before ++ ns.take j) n = part
  | [], _ => by simp [managementParts]
  | m :: ns, before => by
    rw [managementParts, mem_cons, mem_managementParts]
    constructor
    · rintro (rfl | ⟨j, n, hn, rfl⟩)
      · exact ⟨0, m, rfl, by rw [take_zero, append_nil]⟩
      · exact ⟨j + 1, n, hn, by rw [append_assoc]; rfl⟩
    · rintro ⟨j, n, hn, rfl⟩
      cases j with
      | zero =>
        obtain rfl : m = n := Option.some.inj hn
        exact .inl (by rw [take_zero, append_nil])
      | succ j => exact .inr ⟨j, n, hn, by rw [append_assoc]; rfl⟩

theorem managementPart_mem (hn : ns[j]? = some n) :
    managementPart (ns.take j) n ∈ managementParts [] ns :=
  mem_managementParts.mpr ⟨j, n, hn, rfl⟩

end Rules

section Runs

variable {q : Program} {r : Roles} {edges : List Edge} {known : List String} {ctx : Context}

/-- A run comes to the rules without any, adds them part by part, and then the pass. -/
theorem Run.exists_parts (h : Run (laterSteps r edges known ctx) (generalInputs ctx.settings) q) :
    ∃ exited managed : Program,
      exited.rules = [] ∧ managed = (managementParts [] r.management).foldl (· ++ ·) exited ∧
      q = managed ++ (emitPass managed).code ∧
      asked (laterSteps r edges known ctx) (generalInputs ctx.settings) =
        asked (earlierSteps r edges known ctx) (generalInputs ctx.settings) ++
          (managementParts [] r.management).flatMap Program.helpers ++
          (emitPass managed).code.helpers ∧
      ∀ n ∈ r.management, ∃ rule, n.data.payload = .management rule := by
  rw [laterSteps_eq] at h ⊢
  obtain ⟨managed, hbefore, hpass⟩ := Run.append_iff.mp h
  obtain ⟨exited, hearlier, hrules⟩ := Run.append_iff.mp hbefore
  have hgeneral : (generalInputs ctx.settings).Uses [.general] :=
    (generalInputs_declares ctx.settings).mono fun x hx => ⟨_, mem_singleton_self _, hx.1⟩
  obtain ⟨hmanaged, hasked⟩ := hrules.eq_managementParts
    (((hearlier.uses_plain hgeneral).mono r.plainFamilies_subset).hasRules
      (hearlier.not_mentions_table rfl))
  refine ⟨exited, managed, hearlier.rules_eq_nil rfl, hmanaged, hpass.eq_append, ?_, fun n hn => ?_⟩
  · rw [hbefore.asked_append, hearlier.asked_append, hasked, asked, asked, append_nil]
  · obtain ⟨m, more, hfault, -⟩ := hrules.exists_of_mem (mem_map_of_mem hn)
    exact emitManagement_ok hfault

/-- **Every block that a compile asks for** is on the list. -/
theorem Run.request (h : Run (laterSteps r edges known ctx) (generalInputs ctx.settings) q)
    {k : Helper} (hk : k ∈ asked (laterSteps r edges known ctx) (generalInputs ctx.settings)) :
    Request ctx.options r.management q k := by
  obtain ⟨exited, managed, -, -, hq, hasked, -⟩ := h.exists_parts
  rw [hasked, mem_append, mem_append] at hk
  rcases hk with (hk | hk) | hk
  · obtain ⟨s, hs, m, hk⟩ := mem_asked hk
    obtain ⟨f, hf, rfl⟩ := mem_map.mp (((mem_earlierSteps_iff.mp hs).asks m).asked hk)
    exact .fixed (mem_append_left _ (mem_map_of_mem (mem_append_left _ hf)))
  · obtain ⟨part, hpart, hk⟩ := mem_flatMap.mp hk
    obtain ⟨j, n, hn, rfl⟩ := mem_managementParts.mp hpart
    exact request_of_mem_managementPart hn hk
  · -- the pass leaves the calls as they are, so its function is that of the program
    have hfunction : passFunction managed = passFunction q := by
      rw [hq, emitPass]
      split <;> simp only [passFunction, Program.append_rules, Program.append_beforeLoop,
        append_nil]
    rw [emitPass] at hk
    split at hk
    · cases hk
    · rw [mem_singleton.mp hk, hfunction]
      exact .fixed (mem_append_left _ (mem_map_of_mem
        (mem_append_right _ (mem_cons_of_mem _ mem_cons_self))))

end Runs

/-- A block that is asked for with a key that is known is the block that is there. -/
def NoneReplaced (hs : List Helper) : Prop :=
  ∀ before h after, hs = before ++ h :: after →
    ∀ k ∈ before.foldl Program.joinHelper [], k.key = h.key → k.body = h.body

/-- Where a key stands for one block, nothing is replaced and nothing is missing. -/
theorem noneReplaced_of_inj {hs : List Helper} (h : ∀ j ∈ hs, ∀ k ∈ hs, j.key = k.key → j = k) :
    NoneReplaced hs ∧ ∀ k ∈ hs, k ∈ hs.foldl Program.joinHelper [] := by
  have hmem {hs : List Helper} {k : Helper} (hk : k ∈ hs.foldl Program.joinHelper []) : k ∈ hs :=
    (Program.mem_of_mem_joinHelpers hs hk).resolve_left not_mem_nil
  constructor
  · rintro before k after rfl j hj hkey
    have hbefore : j ∈ before ++ k :: after := mem_append_left _ (hmem hj)
    exact congrArg Helper.body (h j hbefore k (mem_append_right _ mem_cons_self) hkey)
  · intro k hk
    have hthere : Program.HasKey (hs.foldl Program.joinHelper []) k.key :=
      Program.hasKey_foldl_joinHelper hk
    obtain ⟨j, hj, hkey⟩ := hthere
    exact h j (hmem hj) k hk hkey ▸ hj

theorem mem_helpers_managementPart {j : Nat} (hn : ns[j]? = some n)
    (hh : h ∈ (ruleCodeAt (ns.take j) n).helpers) :
    h ∈ (managementPart (ns.take j) n).helpers := by
  have hrequest : ∀ k ∈ .ofFunction safeModify :: (ruleCodeAt (ns.take j) n).helpers,
      Request {} ns {} k :=
    forall_mem_cons.mpr ⟨request_safeModify, fun k => request_of_mem_ruleCodeAt hn⟩
  exact (noneReplaced_of_inj fun i hi k hk => (hrequest i hi).eq_of_key_eq (hrequest k hk)).2 h
    (mem_cons_of_mem _ hh)

/-! ## Rules and their calls -/

/-- The suffix of the names of a rule, told by its place among those of its kind. -/
def ruleSuffix (place : Nat) : String :=
  if place = 1 then "" else toString place

theorem text_name_exitNumber (stem : String) (earlier : Nat) :
    (RuleNumber.name (exitNumber earlier) stem).text = stem ++ ruleSuffix (earlier + 1) := by
  rw [Ident.text_eq, RuleNumber.name, ruleSuffix]
  simp only [Ident.digits, exitNumber, exitName]
  by_cases h : earlier = 0
  · simp [h]
  · simp [h]

theorem foldl_append_eq {α : Type} {f : Program → List α}
    (hf : ∀ p q : Program, f (p ++ q) = f p ++ f q) (parts : List Program) (p : Program) :
    f (parts.foldl (· ++ ·) p) = f p ++ parts.flatMap f := by
  induction parts generalizing p with
  | nil => exact (append_nil _).symm
  | cons part parts ih => rw [foldl_cons, ih, hf, append_assoc, flatMap_cons]

theorem rules_managementParts (before : List Node)
    (hns : ∀ n ∈ ns, ∃ rule, n.data.payload = .management rule) :
    ((managementParts before ns).flatMap Program.rules).length = ns.length ∧
      ∀ j n, ns[j]? = some n → ((managementParts before ns).flatMap Program.rules)[j]? =
        (ruleCodeAt (before ++ ns.take j) n).rules[0]? := by
  induction ns generalizing before with
  | nil => exact ⟨rfl, fun j n hn => by cases hn⟩
  | cons m ns ih =>
    obtain ⟨⟨rule, hrule⟩, hns⟩ := forall_mem_cons.mp hns
    obtain ⟨hlength, hcalls⟩ := ih (before ++ [m]) hns
    obtain ⟨call, hcall⟩ : ∃ call, (ruleCodeAt before m).rules = [call] := by
      obtain ⟨f, call, -, hcall, -⟩ :=
        managementCode_blocks m (rule.after (ofKind rule.kind before)) rule
      refine ⟨call, ?_⟩
      rw [ruleCodeAt]
      simpa only [hrule] using hcall
    have hfirst : (managementPart before m).rules = [call] := by
      rw [managementPart, Program.append_rules, hcall]
      rfl
    rw [managementParts, flatMap_cons, hfirst, singleton_append]
    refine ⟨congrArg (· + 1) hlength, fun j n hn => ?_⟩
    cases j with
    | zero =>
      obtain rfl : m = n := Option.some.inj hn
      rw [take_zero, append_nil, hcall]
      rfl
    | succ j =>
      rw [getElem?_cons_succ] at hn ⊢
      rw [hcalls j n hn, append_assoc, singleton_append, take_succ_cons]

/-- The calls of a program are those of its rules, and it has their inputs. -/
theorem Run.calls_eq {r : Roles} {edges : List Edge} {known : List String} {ctx : Context}
    {q : Program} (h : Run (laterSteps r edges known ctx) (generalInputs ctx.settings) q) :
    q.rules = (managementParts [] r.management).flatMap Program.rules ∧
      (managementParts [] r.management).flatMap Program.inputs ⊆ q.inputs := by
  obtain ⟨exited, managed, hexited, rfl, rfl, -, -⟩ := h.exists_parts
  have hpass (p : Program) : (emitPass p).code.rules = [] := by
    rw [emitPass]
    split <;> rfl
  constructor
  · rw [Program.append_rules, hpass, append_nil, foldl_append_eq Program.append_rules,
      hexited, nil_append]
  · rw [Program.append_inputs, foldl_append_eq Program.append_inputs]
    exact fun i hi => mem_append_left _ (mem_append_right _ hi)

/-- The program has the rule of a management node after others: the call leads to the function of
the node, which is defined once and as the node generates it, and the names carry the suffix of the
place of the node among those of its kind. -/
structure Program.KeepsRule (p : Program) (before : List Node) (n : Node) (rule : Management)
    (f : Function) (call : Stmt) : Prop where
  payload : n.data.payload = .management rule
  calls : call.callee? = some f.name
  name : f.name.text = rule.stem ++ ruleSuffix (ofKind n.kind before + 1)
  inputs : ∀ i ∈ (ruleCodeAt before n).inputs, i ∈ p.inputs ∧
    ∃ stem ∈ rule.inputStems, i.name.text = stem ++ ruleSuffix (ofKind n.kind before + 1)
  generated : .ofFunction f ∈ (ruleCodeAt before n).helpers
  kept : ∀ b ∈ (ruleCodeAt before n).helpers, b ∈ p.helpers
  once : (definedFunctions p.helperSection).count f.name.text = 1

section Compiles

variable {g : Graph} {project : String} {options : Options} {c : Compiled}

theorem Graph.count_definedFunctions (h : (g.compile project options).result = .ok c) {f : Function}
    (hf : .ofFunction f ∈ c.program.helpers) :
    (definedFunctions c.program.helperSection).count f.name.text = 1 := by
  refine count_eq_one_of_mem (Graph.nodup_definedFunctions h) ?_
  rw [Graph.definedFunctions_eq h]
  exact mem_append_right _ (mem_flatMap.mpr ⟨_, hf, mem_cons_self⟩)

/-- A rule whose blocks are kept is called as it was generated. -/
theorem Graph.keepsRule (h : (g.compile project options).result = .ok c) {j : Nat}
    (hn : (Roles.ofNodes g.liveNodes).management[j]? = some n)
    (hkept : ∀ b ∈ (ruleCodeAt ((Roles.ofNodes g.liveNodes).management.take j) n).helpers,
      b ∈ c.program.helpers) :
    ∃ rule f call, c.program.rules[j]? = some call ∧
      c.program.KeepsRule ((Roles.ofNodes g.liveNodes).management.take j) n rule f call := by
  have hrun := Graph.run_of_roles h
  obtain ⟨hrules, hinputs⟩ := hrun.calls_eq
  obtain ⟨-, -, -, -, -, -, hpayload⟩ := hrun.exists_parts
  obtain ⟨-, hcalls⟩ := rules_managementParts [] hpayload
  have hcall := hcalls j n hn
  rw [← hrules, nil_append] at hcall
  have hpart := managementPart_mem hn
  generalize (Roles.ofNodes g.liveNodes).management.take j = before at hkept hcall hpart ⊢
  obtain ⟨rule, hrule⟩ := hpayload n (mem_of_getElem? hn)
  have hkind : n.kind = rule.kind := by rw [Node.kind, hrule]; rfl
  have hcode : ruleCodeAt before n =
    managementCode n (rule.after (ofKind rule.kind before)) rule := by
    rw [ruleCodeAt]
    simp only [hrule]
  obtain ⟨f, call, hname, hcallee, hcalled, -, hhelpers⟩ :=
    managementCode_blocks n (rule.after (ofKind rule.kind before)) rule
  rw [nextRule_after] at hname
  have hgenerated : .ofFunction f ∈ (ruleCodeAt before n).helpers := by
    rw [hcode, hhelpers]
    exact mem_append_right _ mem_cons_self
  refine ⟨rule, f, call, ?_, hrule, hcalled, ?_, fun i hi => ⟨?_, ?_⟩, hgenerated, hkept,
    Graph.count_definedFunctions h (hkept _ hgenerated)⟩
  · rw [hcall, hcode, hcallee]
    rfl
  · rw [hname, text_name_exitNumber, hkind]
  · exact hinputs (mem_flatMap.mpr ⟨_, hpart, hi⟩)
  · rw [hcode] at hi
    have hi := mem_map_of_mem (f := Input.name) hi
    rw [inputs_managementCode, nextRule_after] at hi
    obtain ⟨stem, hstem, hname⟩ := mem_map.mp hi
    refine ⟨stem, hstem, ?_⟩
    rw [← hname, hkind]
    exact text_name_exitNumber stem _

end Compiles

/-- **No rule and no helper block is replaced.** In a compiled program there is one call for each
live management node, in order, and it leads to the rule of its node, whose names have the suffix of
its place among those of its kind. Its function is defined once, and as the node generates it. The
helper blocks are those that the compile asks for, and whenever it asks for one with a key that is
known, it asks for what is there. -/
theorem rules_kept {g : Graph} {project : String} {options : Options} {c : Compiled}
    (h : (g.compile project options).result = .ok c) :
    let r := Roles.ofNodes g.liveNodes
    let blocks := asked (plan r (expand g.nodes g.edges).edges g.knownIds c.context) {}
    c.program.rules.length = r.management.length ∧
    (∀ j n, r.management[j]? = some n → ∃ rule f call, c.program.rules[j]? = some call ∧
      c.program.KeepsRule (r.management.take j) n rule f call) ∧
    c.program.helpers = blocks.foldl Program.joinHelper [] ∧ NoneReplaced blocks := by
  intro r blocks
  have hrun := Graph.run_of_roles h
  have hhelpers : c.program.helpers = blocks.foldl Program.joinHelper [] := hrun.helpers_eq
  have hinj : ∀ j ∈ blocks, ∀ k ∈ blocks, j.key = k.key → j = k := fun j hj k hk =>
    (hrun.request hj).eq_of_key_eq (hrun.request hk)
  obtain ⟨hreplaced, hthere⟩ := noneReplaced_of_inj hinj
  obtain ⟨exited, managed, -, -, -, hasked, hpayload⟩ := hrun.exists_parts
  have hparts : blocks = _ := hasked
  obtain ⟨hlength, -⟩ := rules_managementParts [] hpayload
  refine ⟨by rw [hrun.calls_eq.1, hlength], fun j n hn => Graph.keepsRule h hn fun b hb => ?_,
    hhelpers, hreplaced⟩
  rw [hhelpers]
  refine hthere b (hparts ▸ mem_append_left _ (mem_append_right _ ?_))
  exact mem_flatMap.mpr ⟨_, managementPart_mem hn, mem_helpers_managementPart hn hb⟩

/-- Two time exits that ask for the same functions, and rules of two kinds in turn. -/
def repeatedDocument : Json :=
  .obj [("nodes", .arr [.node "late" "time-exit" [("exitMode", .str "CLOSE_AT_TIME")],
    .node "later" "time-exit" [("exitMode", .str "CLOSE_AT_TIME")], .node "part" "partial-close",
    .node "even" "breakeven-stop", .node "rest" "partial-close"])]

def repeatedGraph : Graph := repeatedDocument.graph

theorem rules_kept_repeated :
    ∃ c, (repeatedGraph.compile "Test" {}).result = .ok c ∧ c.program.rules.length = 3 ∧
      ∃ f call, c.program.rules[2]? = some call ∧ call.callee? = some f.name ∧
        f.name.text = "CheckPartialClose2" ∧ .ofFunction f ∈ c.program.helpers ∧
        (definedFunctions c.program.helperSection).count "CheckPartialClose2" = 1 := by
  obtain ⟨c, hc⟩ : ∃ c, (repeatedGraph.compile "Test" {}).result = .ok c :=
    Graph.compile_ok_of_methods (by decide) "Test"
  obtain ⟨n, hn, hkind, hearlier⟩ : ∃ n,
      (Roles.ofNodes repeatedGraph.liveNodes).management[2]? = some n ∧ n.kind = .partialClose ∧
        ofKind n.kind ((Roles.ofNodes repeatedGraph.liveNodes).management.take 2) = 1 :=
    ⟨_, rfl, rfl, rfl⟩
  obtain ⟨hlength, hrules, -, -⟩ := rules_kept hc
  obtain ⟨rule, f, call, hcall, hkept⟩ := hrules 2 n hn
  have hstem : rule.stem = "CheckPartialClose" := by
    rw [Node.kind, hkept.payload] at hkind
    cases rule <;> cases hkind
    rfl
  have hname : f.name.text = "CheckPartialClose2" := by
    rw [hkept.name, hstem, hearlier]
    decide
  exact ⟨c, hc, hlength, f, call, hcall, hkept.calls, hname, hkept.kept _ hkept.generated,
    hname ▸ hkept.once⟩

end TradeGraph

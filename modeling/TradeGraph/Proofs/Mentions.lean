import TradeGraph.Proofs.Names

/-!
# Text that parts look for

A target shares the handle of a stop, and rules with levels share one table. Both are found by a
search for text in the declarations at file level. The number in a name cannot bring such a text
about, so it is enough to look at declarations without their numbers.
-/

namespace TradeGraph

open List Mql

/-! ## Fragments -/

namespace Text

variable {f as bs ds : List Char} {c : Char}

theorem contains_iff : ∀ {cs : List Char}, contains f cs = true ↔ f <:+: cs
  | [] => by simp [contains]
  | c :: cs => by
    rw [contains, Bool.or_eq_true, isPrefixOf_iff_prefix, contains_iff, infix_cons_iff]

/-- A fragment without a character lies before the character or after it. -/
theorem infix_or_infix (hc : c ∉ f) (h : f <:+: as ++ c :: bs) : f <:+: as ∨ f <:+: bs := by
  obtain ⟨s, t, h⟩ := h
  rw [List.append_assoc] at h
  rcases append_eq_append_iff.mp h with ⟨u, rfl, hrest⟩ | ⟨u, rfl, hrest⟩
  · rcases append_eq_append_iff.mp hrest with ⟨v, rfl, -⟩ | ⟨v, rfl, hend⟩
    · exact .inl ⟨s, v, List.append_assoc ..⟩
    · rcases cons_eq_append_iff.mp hend with ⟨rfl, -⟩ | ⟨w, rfl, -⟩
      · exact .inl ⟨s, [], by simp⟩
      · simp at hc
  · rcases cons_eq_append_iff.mp hrest with ⟨rfl, hend⟩ | ⟨w, rfl, rfl⟩
    · rcases append_eq_cons_iff.mp hend with ⟨rfl, -⟩ | ⟨w, rfl, -⟩
      · exact .inl nil_infix
      · simp at hc
    · exact .inr ⟨w, t, List.append_assoc ..⟩

/-- Characters that a fragment lacks do not bring it about. -/
theorem infix_of_infix_append (hds : ∀ d ∈ ds, d ∉ f) (h : f <:+: as ++ (ds ++ bs)) :
    f <:+: as ++ bs := by
  induction ds generalizing as with
  | nil => exact h
  | cons d ds ih =>
    rcases infix_or_infix (hds d mem_cons_self) h with hbefore | hafter
    · exact hbefore.trans (prefix_append as bs).isInfix
    · have hrest : f <:+: [] ++ bs := ih (fun e he => hds e (mem_cons_of_mem _ he)) hafter
      exact hrest.trans (suffix_append as bs).isInfix

end Text

/-! ## Declarations without numbers -/

/-- What parts look for: the handle of the stop, and the table of levels. -/
def sharedTexts : List String := ["int atrHandle", "SMLTPState"]

namespace Mql

/-- Does the declaration contain a text that a part looks for? -/
def Global.isShared (g : Global) : Bool :=
  sharedTexts.any fun t => Text.contains t.toList g.text.toList

/-- The declaration, its name without its number. -/
def Global.unnumbered : Global → Global
  | .scalar type x value remark => .scalar type { x with number := none } value remark
  | .array type x remark => .array type { x with number := none } remark
  | .record x fields => .record x fields

/-- Only digits stand between the parts of a text about a name without its number. -/
theorem Ident.split_unnumbered {f : Ident → List Char} {a c : List Char}
    (h : ∀ y, f y = a ++ (y.text.toList ++ c)) (x : Ident) :
    ∃ as ds bs, f x = as ++ (ds ++ bs) ∧ f { x with number := none } = as ++ bs ∧
      ∀ d ∈ ds, d.isDigit = true :=
  ⟨a ++ x.stem.toList, x.digits.toList, x.tail.toList ++ c, by simp [h, Ident.text_eq],
    by simp [h, Ident.text], isDigit_of_mem_digits⟩

theorem Global.text_split (g : Global) :
    ∃ as ds bs, g.text.toList = as ++ (ds ++ bs) ∧ g.unnumbered.text.toList = as ++ bs ∧
      ∀ d ∈ ds, d.isDigit = true := by
  cases g with
  | scalar type x value remark =>
    refine Ident.split_unnumbered (a := type.toList ++ [' '])
      (c := ((value.elim "" (" = " ++ ·.text)) ++
      ";" ++ remarkText remark).toList) (f := fun y => (scalar type y value remark).text.toList)
      (fun y => ?_) x
    cases value <;> simp [text, Action.text]
  | array type x remark =>
    exact Ident.split_unnumbered (a := type.toList ++ [' '])
      (c := ("[];" ++ remarkText remark).toList)
      (f := fun y => (array type y remark).text.toList) (fun y => by simp [text, Action.text]) x
  | record x fields => exact ⟨(text (.record x fields)).toList, [], [], by simp [unnumbered]⟩

theorem Global.isShared_unnumbered {g : Global} (h : g.isShared = true) :
    g.unnumbered.isShared = true := by
  have hletters : ∀ t ∈ sharedTexts, t.toList.all (fun c => !c.isDigit) = true := by decide
  obtain ⟨t, ht, hfound⟩ := any_eq_true.mp h
  obtain ⟨as, ds, bs, htext, hplain, hdigits⟩ := g.text_split
  rw [Text.contains_iff, htext] at hfound
  refine any_eq_true.mpr ⟨t, ht, ?_⟩
  rw [Text.contains_iff, hplain]
  refine Text.infix_of_infix_append (fun d hd hmem => ?_) hfound
  have hletter := all_eq_true.mp (hletters t ht) d hmem
  rw [hdigits d hd] at hletter
  cases hletter

end Mql

/-! ## Parts -/

namespace Program

variable {p q : Program}

/-- The part declares nothing that another part looks for. -/
def Unshared (p : Program) : Prop :=
  ∀ t ∈ sharedTexts, p.mentions t = false

theorem mentions_append (p q : Program) (t : String) :
    (p ++ q).mentions t = (p.mentions t || q.mentions t) :=
  any_append

theorem Unshared.of_nil (h : p.globals = []) : p.Unshared := fun t _ => by
  rw [mentions, h]
  rfl

theorem Unshared.append (hp : p.Unshared) (hq : q.Unshared) : (p ++ q).Unshared := fun t ht => by
  rw [mentions_append, hp t ht, hq t ht]
  rfl

/-- It is enough to look at the declarations without their numbers. -/
theorem Unshared.of_eq {l : List Global} (h : p.globals.map Global.unnumbered = l)
    (hl : l.any Global.isShared = false) : p.Unshared := by
  intro t ht
  rw [← h, any_map] at hl
  refine any_eq_false.mpr fun g hg hfound => ?_
  refine any_eq_false.mp hl g hg (Global.isShared_unnumbered ?_)
  exact any_eq_true.mpr ⟨t, ht, hfound⟩

theorem Unshared.handle (h : p.Unshared) : p.mentions "int atrHandle" = false :=
  h _ (by decide)

theorem Unshared.table (h : p.Unshared) : p.mentions "SMLTPState" = false :=
  h _ (by decide)

end Program

theorem indicatorParts_unshared (i : Nat) (what : String) (create : Expr) {buffers : List String}
    (h : buffers.any (fun b => (Global.array "double" ⟨"ind", none, b⟩ none).isShared) = false) :
    (indicatorParts i what create buffers).Unshared := by
  refine .of_eq (l := .scalar "int" ⟨"ind", none, "Handle"⟩ none none ::
    buffers.map fun b => .array "double" ⟨"ind", none, b⟩ none) ?_ ?_
  · simp [indicatorParts, Global.unnumbered, indHandle, indVar]
  · rw [any_cons, any_map]
    exact Bool.or_eq_false_iff.mpr ⟨by decide, h⟩

theorem emitIndicator_unshared (n : Node) (i : Nat) : (emitIndicator n i).code.Unshared := by
  rw [emitIndicator]
  split
  · rename_i signal indicator h
    cases indicator <;> exact .append (.of_nil rfl) (indicatorParts_unshared _ _ _ (by decide))
  · exact .of_nil rfl

/-- The handle of a stop is found by its declaration. -/
theorem atrStop_mentions (n : Node) (p : StopLoss) :
    (atrStop n p).mentions "int atrHandle" = true ∧
      (atrStop n p).mentions "SMLTPState" = false := by
  have hglobals : (atrStop n p).globals = [.scalar "int" "atrHandle" (some Platform.invalidHandle)
      none, .array "double" "atrBuffer" none] := rfl
  rw [Program.mentions, Program.mentions, hglobals]
  decide

theorem emitTakeProfit_unshared (n : Node) (program : Program) :
    (emitTakeProfit n program).code.Unshared := by
  rw [emitTakeProfit]
  split
  · rename_i p hp
    refine .append (.of_nil rfl) ?_
    cases p.method with
    | fixedPips => exact .of_nil rfl
    | riskReward => exact .of_nil rfl
    | atrBased =>
      simp only [atrTarget]
      split
      · exact .of_nil rfl
      · exact .append (.of_nil rfl) (.of_eq rfl (by decide))
  · exact .of_nil rfl

end TradeGraph

import TradeGraph.Program.Exits
import TradeGraph.Program.Management
import TradeGraph.Proofs.Definitions

/-!
# Names that a scope knows

Most names in emitted code are fixed words. Names of inputs, of variables of signals and of
functions of the program are known only where the scope has them.
-/

namespace TradeGraph

open List Mql

variable {i : Nat} {s stem t tail : String}
variable {w : String} {x : Ident}
variable {W : List String} {number : Option Nat} {k : Rule.RuleNumber}

def Side.words : Side → List String
  | .buy => buyWords
  | .sell => sellWords

theorem Side.mem_tradeWords (side : Side) (h : w ∈ side.words) : w ∈ tradeWords := by
  cases side
  · exact mem_append_left _ (mem_append_left _ h)
  · exact mem_append_left _ (mem_append_right _ h)

namespace Mql

/-! ## What a scope has -/

namespace Scope

def HasInput (σ : Scope) (x : Ident) : Prop :=
  x.text ∈ σ.inputs

/-- The scope has the variable. -/
def HasVar (σ : Scope) (x : Ident) : Prop :=
  x.text ∈ σ.vars

def HasFunction (σ : Scope) (f : Ident) : Prop :=
  f.text ∈ σ.functions

/-- The words of the orders of a side may be used. -/
def Trades (σ : Scope) (side : Side) : Prop :=
  ∀ w ∈ side.words, w ∈ σ.reserved

/-- The distances of the stop and of the target may be used. -/
structure Measures (σ : Scope) : Prop where
  stop : "slPips" ∈ σ.reserved
  target : "tpPips" ∈ σ.reserved

end Scope

/-! ## Identifiers -/

/-- Can the text go on with a word? -/
def isTail (s : String) : Bool :=
  s.toList.all isIdentChar

def Ident.digits (x : Ident) : String :=
  match x.number with
  | none => ""
  | some n => toString n

theorem Ident.text_eq (x : Ident) : x.text = x.stem ++ (x.digits ++ x.tail) := by
  rw [Ident.text, String.append_assoc]
  rfl

theorem isDigit_of_mem_digits : ∀ c ∈ x.digits.toList, c.isDigit = true := by
  intro c hc
  rw [Ident.digits] at hc
  split at hc
  · cases hc
  · rw [Nat.toString_eq_repr, Nat.toList_repr] at hc
    exact Nat.isDigit_of_mem_toDigits (by decide) (by decide) hc

theorem isIdentChar_of_mem_digits (c : Char) (hc : c ∈ x.digits.toList) :
    isIdentChar c = true := by
  simp [isIdentChar, Char.isAlphanum, isDigit_of_mem_digits c hc]

theorem isWord_text (hstem : isWord x.stem = true) (htail : isTail x.tail = true) :
    isWord x.text = true := by
  rw [isWord, Bool.and_eq_true, all_eq_true] at hstem ⊢
  rw [isTail, all_eq_true] at htail
  rw [Ident.text_eq, String.toList_append, String.toList_append]
  refine ⟨?_, fun c hc => ?_⟩
  · cases hcs : x.stem.toList with
    | nil => simp [hcs] at hstem
    | cons c cs => rfl
  · rcases mem_append.mp hc with hc | hc
    · exact hstem.2 c hc
    rcases mem_append.mp hc with hc | hc
    · exact isIdentChar_of_mem_digits c hc
    · exact htail c hc

/-- Does none of the words begin with the text? -/
def startsNone (W : List String) (s : String) : Bool :=
  W.all fun w => !s.toList.isPrefixOf w.toList

theorem startsNone_append (h : startsNone W s = true) :
    startsNone W (s ++ t) = true := by
  simp only [startsNone, all_eq_true, Bool.not_eq_true', ← Bool.not_eq_true,
    isPrefixOf_iff_prefix] at h ⊢
  intro w hw hstart
  rw [String.toList_append] at hstart
  exact h w hw ((prefix_append _ _).trans hstart)

theorem Ident.text_notMem (h : startsNone W x.stem = true) :
    x.text ∉ W := by
  rw [Ident.text_eq]
  intro hmem
  have hstart := all_eq_true.mp (startsNone_append (t := x.digits ++ x.tail) h) _ hmem
  rw [ isPrefixOf_iff_prefix.mpr (prefix_refl _)] at hstart
  cases hstart

theorem startsNone_of_bytes (h : reservedBytes.all (fun r => !(bytes s).isPrefixOf r) = true) :
    startsNone reservedWords s = true := by
  rw [reservedBytes_eq, all_map, all_eq_true] at h
  refine all_eq_true.mpr fun w hw => ?_
  have hbytes := h w hw
  simp only [Function.comp_apply, Bool.not_eq_true', ← Bool.not_eq_true,
    isPrefixOf_iff_prefix] at hbytes ⊢
  exact fun hstart => hbytes (bytes_prefix_bytes hstart)

/-- A plain word of at least four characters with which no reserved word begins: whatever follows,
it stays plain. -/
def isLongPlain (stem tail : String) : Bool :=
  isPlain stem && isTail tail && 4 ≤ stem.toList.length && startsNone reservedWords stem

def isInputStem (stem tail : String) : Bool :=
  isWord stem && isInputName stem && isTail tail

instance (s : String) : Decidable (isTail s = true) :=
  if h : isIdentText s = true then .isTrue (all_isIdentChar h) else decEq (isTail s) true

theorem isLongPlain_of_bytes (hstem : isPlainText stem = true) (hlength : 4 ≤ (bytes stem).length)
    (htail : isIdentText tail = true)
    (hnone : reservedBytes.all (fun r => !(bytes stem).isPrefixOf r) = true) :
    isLongPlain stem tail = true := by
  have hident : isIdentText stem = true := by
    simp only [isPlainText, Bool.and_eq_true] at hstem
    exact hstem.1.1.1.1
  rw [isLongPlain, isPlain_of_bytes hstem, isTail, all_isIdentChar htail,
    toList_of_isIdentText hident, length_map, decide_eq_true hlength,
    startsNone_of_bytes hnone]
  rfl

instance (stem tail : String) : Decidable (isLongPlain stem tail = true) :=
  if h : isPlainText stem = true ∧ 4 ≤ (bytes stem).length ∧ isIdentText tail = true ∧
      reservedBytes.all (fun r => !(bytes stem).isPrefixOf r) = true then
    .isTrue (isLongPlain_of_bytes h.1 h.2.1 h.2.2.1 h.2.2.2)
  else decEq (isLongPlain stem tail) true

theorem isInputStem_of_bytes (hstem : isIdentText stem = true)
    (hinput : startsInput ((bytes stem).map Char.ofNat) = true) (htail : isIdentText tail = true) :
    isInputStem stem tail = true := by
  have hne : (bytes stem).isEmpty = false := by
    cases hbytes : bytes stem with
    | nil =>
      rw [hbytes] at hinput
      cases hinput
    | cons b bs => rfl
  rw [isInputStem, isWord_of_bytes hstem hne, isInputName_eq, toList_of_isIdentText hstem, hinput,
    isTail, all_isIdentChar htail]
  rfl

instance (stem tail : String) : Decidable (isInputStem stem tail = true) :=
  if h : isIdentText stem = true ∧ startsInput ((bytes stem).map Char.ofNat) = true ∧
      isIdentText tail = true then
    .isTrue (isInputStem_of_bytes h.1 h.2.1 h.2.2)
  else decEq (isInputStem stem tail) true

theorem isInputName_append (h : isInputName s = true) : isInputName (s ++ t) = true := by
  rw [isInputName, isPrefixOf_iff_prefix] at h ⊢
  rw [String.toList_append]
  exact h.trans (prefix_append _ _)

/-- The first four characters tell whether a word names an input or a variable. -/
theorem plain_append (hlength : 4 ≤ s.toList.length) (hinput : isInputName s = false)
    (hsignal : isSignalName s = false) :
    isInputName (s ++ t) = false ∧ isSignalName (s ++ t) = false := by
  match hs : s.toList, hlength with
  | a :: b :: c :: d :: rest, _ =>
    simp only [isInputName, isSignalName, hs, String.toList_append, cons_append] at *
    constructor
    · simpa [List.isPrefixOf] using hinput
    · revert hsignal
      split <;> split <;> simp_all

namespace Scope

variable (σ : Scope)

/-! ## Words that are always known -/

theorem hasWord_plain (h : isPlain w = true) : σ.HasWord w :=
  σ.hasWord_of_isPlain h

theorem text_plain (s : String) : (Ident.mk s none "").text = s := by
  simp [Ident.text]

theorem has_plain (h : isPlain s = true) : σ.Has ⟨s, none, ""⟩ := by
  rw [Has, text_plain]
  exact σ.hasWord_of_isPlain h

theorem has_numbered (h : isLongPlain stem tail = true) :
    σ.Has ⟨stem, number, tail⟩ := by
  simp only [isLongPlain, isPlain, Bool.and_eq_true, Bool.not_eq_true', decide_eq_true_eq] at h
  obtain ⟨⟨⟨⟨⟨⟨hword, hinput⟩, hsignal⟩, -⟩, htail⟩, hlength⟩, hnone⟩ := h
  have hfree : (Ident.mk stem number tail).text ∉ reservedWords := Ident.text_notMem hnone
  refine ⟨isWord_text hword htail, ?_, ?_, fun hw => absurd hw hfree⟩
  all_goals
    rw [Ident.text_eq]
    obtain ⟨hinput, hsignal⟩ := plain_append (t := (Ident.mk stem number tail).digits ++ tail)
      hlength hinput hsignal
    simp [hinput, hsignal]

/-! ## Names that must be there -/

theorem plain_of_mem_reservedWords : ∀ w ∈ reservedWords,
    isInputName w = false ∧ isSignalName w = false := by
  decide

theorem has_reserved (h : s ∈ reservedWords) : σ.Has ⟨s, none, ""⟩ ↔ s ∈ σ.reserved := by
  have hword : ∀ w ∈ reservedWords, isWord w = true := by decide
  obtain ⟨hinput, hsignal⟩ := plain_of_mem_reservedWords s h
  rw [Has, text_plain]
  exact ⟨fun hhas => hhas.2.2.2 h,
    fun hs => ⟨hword s h, by simp [hinput], by simp [hsignal], fun _ => hs⟩⟩

theorem not_isSignalName_of_isInputName (h : isInputName w = true) :
    isSignalName w = false := by
  rw [isInputName, isPrefixOf_iff_prefix] at h
  obtain ⟨rest, hrest⟩ := h
  rw [isSignalName, ← hrest]
  rfl

theorem has_input (h : isInputStem stem tail = true) :
    σ.Has ⟨stem, number, tail⟩ ↔ σ.HasInput ⟨stem, number, tail⟩ := by
  simp only [isInputStem, Bool.and_eq_true] at h
  obtain ⟨⟨hword, hinput⟩, htail⟩ := h
  have hname : isInputName (Ident.mk stem number tail).text = true := by
    rw [Ident.text_eq]
    exact isInputName_append hinput
  refine ⟨fun hhas => hhas.2.1 hname,
    fun hhas => ⟨isWord_text hword htail, fun _ => hhas, fun hsignal => ?_, fun hw => ?_⟩⟩
  · rw [not_isSignalName_of_isInputName hname] at hsignal
    cases hsignal
  · rw [(plain_of_mem_reservedWords _ hw).1] at hname
    cases hname

theorem has_signal {n : Nat} (hstem : stem = "ind" ∨ stem = "pa") (htail : isTail tail = true) :
    σ.Has ⟨stem, some n, tail⟩ ↔ σ.HasVar ⟨stem, some n, tail⟩ := by
  obtain ⟨c, cs, hdigits, hc⟩ : ∃ c cs, (toString n).toList = c :: cs ∧ c.isDigit = true := by
    rw [Nat.toString_eq_repr, Nat.toList_repr]
    cases hcs : Nat.toDigits 10 n with
    | nil => exact absurd hcs (Nat.toDigits_ne_nil)
    | cons c cs =>
      exact ⟨c, cs, rfl, Nat.isDigit_of_mem_toDigits (by decide) (by decide)
        (hcs ▸ mem_cons_self)⟩
  have hchars : (Ident.mk stem (some n) tail).text.toList =
      stem.toList ++ c :: (cs ++ tail.toList) := by
    have hnumber : (Ident.mk stem (some n) tail).digits.toList = c :: cs := hdigits
    rw [Ident.text_eq, String.toList_append, String.toList_append, hnumber]
    rfl
  have hsignal : isSignalName (Ident.mk stem (some n) tail).text = true := by
    rw [isSignalName, hchars]
    rcases hstem with rfl | rfl <;> exact hc
  have hinput : isInputName (Ident.mk stem (some n) tail).text = false := by
    rw [isInputName, hchars]
    rcases hstem with rfl | rfl <;> rfl
  have hword : isWord stem = true := by rcases hstem with rfl | rfl <;> decide
  refine ⟨fun hhas => hhas.2.2.1 hsignal,
    fun hhas => ⟨isWord_text hword htail, fun h => ?_, fun _ => hhas, fun hw => ?_⟩⟩
  · rw [hinput] at h
    cases h
  · rw [(plain_of_mem_reservedWords _ hw).2] at hsignal
    cases hsignal

theorem has_indVar (htail : isTail tail = true) :
    σ.Has (indVar i tail) ↔ σ.HasVar (indVar i tail) :=
  σ.has_signal (.inl rfl) htail

theorem has_paVar (htail : isTail tail = true) : σ.Has (paVar i tail) ↔ σ.HasVar (paVar i tail) :=
  σ.has_signal (.inr rfl) htail

theorem has_indInput (h : isInputStem ("Inp" ++ stem) tail = true) :
    σ.Has (indInput stem i tail) ↔ σ.HasInput (indInput stem i tail) :=
  σ.has_input h

theorem has_rangeInput (h : isInputStem "InpRange" tail = true) :
    σ.Has (rangeInput i tail) ↔ σ.HasInput (rangeInput i tail) :=
  σ.has_input h

theorem has_levelInput (h : isInputStem "InpSR" tail = true) :
    σ.Has (levelInput i tail) ↔ σ.HasInput (levelInput i tail) :=
  σ.has_input h

theorem has_sideInput {side : Side} (h : isTail tail = true) :
    σ.Has (sideInput side tail) ↔ σ.HasInput (sideInput side tail) := by
  refine σ.has_input ?_
  have hlabel : ∀ c ∈ ("Inp" ++ side.label).toList, isIdentChar c = true := by
    cases side <;> exact all_eq_true.mp (by decide)
  rw [isTail, all_eq_true] at h
  have hword : isWord ("Inp" ++ side.label ++ tail) = true := by
    rw [isWord, Bool.and_eq_true, all_eq_true, String.toList_append]
    refine ⟨by cases side <;> rfl, fun c hc => ?_⟩
    rcases mem_append.mp hc with hc | hc
    · exact hlabel c hc
    · exact h c hc
  have hinput : isInputName ("Inp" ++ side.label ++ tail) = true :=
    isInputName_append (isInputName_append (by decide))
  rw [isInputStem, hword, hinput]
  rfl

theorem has_ruleInput (h : isInputStem stem tail = true) :
    σ.Has (k.name stem tail) ↔ σ.HasInput (k.name stem tail) :=
  σ.has_input h

theorem has_ruleName (h : isLongPlain stem tail = true) :
    σ.Has (k.name stem tail) :=
  σ.has_numbered h

theorem has_exitInput (h : isInputStem stem "" = true) :
    σ.Has (exitName stem i) ↔ σ.HasInput (exitName stem i) :=
  σ.has_input h

theorem has_exitName (h : isLongPlain stem "" = true) : σ.Has (exitName stem i) :=
  σ.has_numbered h

/-- A function can be called if its name is known and the platform or the scope has it. -/
theorem calls_iff (f : Ident) :
    σ.Calls f ↔ σ.Has f ∧ (f.text ∈ platformCalls ∨ σ.HasFunction f) :=
  Iff.rfl

end Scope

end Mql

end TradeGraph

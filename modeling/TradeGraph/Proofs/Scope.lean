import Mathlib.Data.Set.Basic
import TradeGraph.Proofs.Subscripts

/-!
# Scopes and closed code

A tree of code is closed in a scope when all names in it are known there and all functions that it
calls are offered. A scope can also keep code from using certain words and from reading certain
elements of arrays.
-/

namespace TradeGraph.Mql

/-! ## Scopes -/

def isInputName (w : String) : Bool :=
  "Inp".toList.isPrefixOf w.toList

/-- Does the word name a variable of an indicator or of a price action node? Their names are `ind`
or `pa`, a number and more. -/
def isSignalName (w : String) : Bool :=
  match w.toList with
  | 'i' :: 'n' :: 'd' :: c :: _ => c.isDigit
  | 'p' :: 'a' :: c :: _ => c.isDigit
  | _ => false

/-- What can stand before an opening parenthesis and is not defined by the program: keywords and the
functions of the platform. -/
def platformCalls : List String :=
  ["if", "for", "while", "return", "Print", "PrintFormat", "Sleep", "TimeCurrent", "TimeGMT",
    "TimeToStruct", "StructToTime", "SymbolInfoDouble", "SymbolInfoInteger", "AccountInfoDouble",
    "NormalizeDouble", "MathAbs", "MathCeil", "MathFloor", "MathLog10", "MathMax", "MathMin",
    "ArrayResize", "ArraySetAsSeries", "ArraySize", "CopyBuffer", "IndicatorRelease",
    "iADX", "iATR", "iBands", "iCCI", "iMA", "iMACD", "iRSI", "iStochastic", "iBarShift", "iClose",
    "iHigh", "iHighest", "iLow", "iLowest", "iOpen", "iTime", "OrdersTotal", "OrderGetTicket",
    "OrderGetInteger", "OrderGetString", "PositionsTotal", "PositionGetTicket",
    "PositionGetInteger", "PositionGetDouble", "PositionGetString", "PositionSelectByTicket"]

/-- The words of one side: its condition, its lot, the functions that open its orders, and the
methods of the platform that these call. -/
def buyWords : List String :=
  ["buyCondition", "buyLotSize", "OpenBuy", "PlaceBuyStop", "PlaceBuyLimit", "Buy", "BuyStop",
    "BuyLimit"]

@[inherit_doc buyWords]
def sellWords : List String :=
  ["sellCondition", "sellLotSize", "OpenSell", "PlaceSellStop", "PlaceSellLimit",
    "Sell", "SellStop", "SellLimit"]

/-- Words that only code with orders uses. -/
def tradeWords : List String :=
  buyWords ++ sellWords ++ ["slPips", "tpPips"]

/-- Words that not all code may use: the one that leaves a function, the name of the pass over the
open positions, the functions that create an indicator, and the words of orders. -/
def reservedWords : List String :=
  ["return", "ManageOpenPositions", "iMA", "iRSI", "iMACD", "iBands", "iATR", "iADX", "iStochastic",
    "iCCI"] ++ tradeWords

/-- What code may refer to: the names of inputs, of variables and of functions, the reserved words
that it may use, and the elements of arrays that it may read, if not any. -/
structure Scope where
  inputs : Set String
  vars : Set String
  functions : Set String
  reserved : Set String := Set.univ
  elements : Option (String → Nat → Prop) := none

namespace Scope

/-- A word is known unless it names an input or a variable that is not there, or is kept from use.
-/
def Knows (σ : Scope) (w : String) : Prop :=
  (isInputName w = true → w ∈ σ.inputs) ∧ (isSignalName w = true → w ∈ σ.vars) ∧
    (w ∈ reservedWords → w ∈ σ.reserved)

/-- A function is offered if the platform or the program has it. -/
def Offers (σ : Scope) (f : String) : Prop :=
  f ∈ platformCalls ∨ f ∈ σ.functions

/-- Tokens that may occur: known words, and calls of functions that are offered. -/
def Fine (σ : Scope) : Token → Prop
  | .name w | .field w => σ.Knows w
  | .call f => σ.Knows f ∧ σ.Offers f
  | .mark _ => True

theorem calls_of_fine {σ : Scope} {ts : List Token} (hfine : ∀ t ∈ ts, σ.Fine t) {W : List String}
    (hW : ∀ f, σ.Fine (.call f) → f ∉ W) : (ts.filterMap Token.call?).filter (· ∈ W) = [] := by
  refine List.filter_eq_nil_iff.mpr fun f hf => ?_
  obtain ⟨t, ht, hcall⟩ := List.mem_filterMap.mp hf
  cases t with
  | call w =>
    obtain rfl : w = f := Option.some.inj hcall
    simpa using hW w (hfine _ ht)
  | _ => cases hcall

/-- Tokens that may occur one after the other: they read only elements that may be read. -/
structure Permits (σ : Scope) (ts : List Token) : Prop where
  fine : ∀ t ∈ ts, σ.Fine t
  shows : ∀ S ∈ σ.elements, Shows S ts

theorem Permits.of_no_bracket {σ : Scope} {ts : List Token} (hfine : ∀ t ∈ ts, σ.Fine t)
    (hbracket : ∀ t ∈ ts, t.isBracket = false) : σ.Permits ts :=
  ⟨hfine, fun _ _ => .of_no_bracket hbracket⟩

theorem Permits.append {σ : Scope} {ts us : List Token} (hts : σ.Permits ts) (hus : σ.Permits us) :
    σ.Permits (ts ++ us) where
  fine := List.forall_mem_append.mpr ⟨hts.fine, hus.fine⟩
  shows S hS := (hts.shows S hS).append (hus.shows S hS)

theorem permits_brace (σ : Scope) {c : Char} (hc : c = '\x7b' ∨ c = '\x7d') :
    σ.Permits [.mark c] :=
  .of_no_bracket (by simp [Fine]) (by rcases hc with rfl | rfl <;> simp [Token.isBracket])

/-- Tokens that may occur inside a line: no braces. -/
structure Inner (σ : Scope) (ts : List Token) : Prop where
  permits : σ.Permits ts
  noBrace : ∀ t ∈ ts, t.isBrace = false

theorem inner_singleton {σ : Scope} {t : Token} (hbracket : t.isBracket = false)
    (hbrace : t.isBrace = false) (hfine : σ.Fine t) : σ.Inner [t] :=
  ⟨.of_no_bracket (by simpa using hfine) (by simpa using hbracket), by simpa using hbrace⟩

theorem inner_joins (σ : Scope) : Joins σ.Inner where
  nil := ⟨.of_no_bracket (by simp) (by simp), by simp⟩
  append hts hus := ⟨hts.permits.append hus.permits,
    List.forall_mem_append.mpr ⟨hts.noBrace, hus.noBrace⟩⟩
  mark _ hbrace hbracket := inner_singleton hbracket hbrace trivial

def HasWord (σ : Scope) (w : String) : Prop :=
  isWord w = true ∧ σ.Knows w

/-- A known identifier. -/
def Has (σ : Scope) (x : Ident) : Prop :=
  σ.HasWord x.text

/-- A function that can be called. -/
def Calls (σ : Scope) (f : Ident) : Prop :=
  σ.Has f ∧ σ.Offers f.text

end Scope

/-- A word that names neither an input nor a variable of a signal, and is not reserved. -/
def isPlain (w : String) : Bool :=
  isWord w && !isInputName w && !isSignalName w && !reservedWords.contains w

theorem Scope.hasWord_of_isPlain (σ : Scope) {w : String} (h : isPlain w = true) :
    σ.HasWord w := by
  simp only [isPlain, Bool.and_eq_true, Bool.not_eq_true', List.contains_eq_mem,
    decide_eq_false_iff_not] at h
  exact ⟨h.1.1.1, by simp [h], by simp [h], fun hw => absurd hw h.2⟩

/-! ## Closed trees -/

/-- The subscripted name and its numeral make an element of the set. -/
def IsElement (S : String → Nat → Prop) : Expr → Expr → Prop
  | .name x, .lit (.int k) => 0 ≤ k ∧ S x.text k.toNat
  | _, _ => False

mutual

/-- All names in the expression are known, all functions that it calls are offered, and all elements
that it reads may be read. -/
def Expr.Closed (σ : Scope) : Expr → Prop
  | .lit _ => True
  | .name x => σ.Has x
  | .call f args => σ.Calls f ∧ Expr.AllClosed σ args
  | .send r m args => σ.Has r ∧ σ.Has m ∧ Expr.AllClosed σ args
  | .member e field => e.Closed σ ∧ σ.Has field
  | .index e k => e.Closed σ ∧ k.Closed σ ∧ ∀ S ∈ σ.elements, IsElement S e k
  | .not e | .neg e | .increased e | .increasing e | .group e => e.Closed σ
  | .cast type e => σ.HasWord type ∧ e.Closed σ
  | .binary _ a b => a.Closed σ ∧ b.Closed σ
  | .all parts | .any parts => Expr.AllClosed σ parts
  | .choice c yes no => c.Closed σ ∧ yes.Closed σ ∧ no.Closed σ

def Expr.AllClosed (σ : Scope) : List Expr → Prop
  | [] => True
  | e :: es => e.Closed σ ∧ Expr.AllClosed σ es

end

theorem Expr.closed_of_mem {σ : Scope} :
    ∀ {es : List Expr}, Expr.AllClosed σ es → ∀ {e : Expr}, e ∈ es → e.Closed σ
  | _ :: _, h, e, he => by
    rcases List.mem_cons.mp he with rfl | he
    · exact h.1
    · exact Expr.closed_of_mem h.2 he

/-- A closed action. Arrays are declared where any element may be read. -/
def Action.Closed (σ : Scope) : Action → Prop
  | .declare type x none _ => σ.HasWord type ∧ σ.Has x
  | .declareArray type x => σ.HasWord type ∧ σ.Has x ∧ σ.elements = none
  | .declare type x (some v) _ | .declareStatic type x v =>
    σ.HasWord type ∧ σ.Has x ∧ v.Closed σ
  | .assign t v | .add t v | .subtract t v => t.Closed σ ∧ v.Closed σ
  | .increment e | .decrement e | .run e => e.Closed σ
  | .ret => "return" ∈ σ.reserved
  | .retWith e => "return" ∈ σ.reserved ∧ e.Closed σ
  | .skip | .stop => True

def Loop.Closed (σ : Scope) : Loop → Prop
  | .count i first test _ => σ.Has i ∧ first.Closed σ ∧ test.Closed σ
  | .during c => c.Closed σ

/-- A comment stays on its line. -/
def OneLine (t : String) : Prop :=
  '\n' ∉ t.toList

/-- A statement of one line that ends in a semicolon; only such lines have a comment at the end. -/
def Stmt.isSimple : Stmt → Bool
  | .act _ | .guard _ _ => true
  | _ => false

mutual

def Stmt.Closed (σ : Scope) : Stmt → Prop
  | .blank => True
  | .note t | .heading t => OneLine t
  | .act a => a.Closed σ
  | .remarked s t => s.isSimple = true ∧ s.Closed σ ∧ OneLine t
  | .guard c a | .guardBelow c a => c.Closed σ ∧ a.Closed σ
  | .guardAll c as => c.Closed σ ∧ ∀ a ∈ as, a.Closed σ
  | .eitherBelow c a b => c.Closed σ ∧ a.Closed σ ∧ b.Closed σ
  | .elseIfBelow c a d b => c.Closed σ ∧ a.Closed σ ∧ d.Closed σ ∧ b.Closed σ
  | .guardTall c more a => c.Closed σ ∧ Expr.AllClosed σ more ∧ a.Closed σ
  | .declareTall type x c yes no =>
    σ.HasWord type ∧ σ.Has x ∧ c.Closed σ ∧ yes.Closed σ ∧ no.Closed σ
  | .branch c body => c.Closed σ ∧ Stmt.AllClosed σ body
  | .branchElse c yes no => c.Closed σ ∧ Stmt.AllClosed σ yes ∧ Stmt.AllClosed σ no
  | .scope body => Stmt.AllClosed σ body
  | .loop head body => head.Closed σ ∧ Stmt.AllClosed σ body
  | .loopBelow head s => head.Closed σ ∧ s.Closed σ
  | .deeper s => s.Closed σ

/-- All statements of a list are closed. -/
def Stmt.AllClosed (σ : Scope) : List Stmt → Prop
  | [] => True
  | s :: ss => s.Closed σ ∧ Stmt.AllClosed σ ss

end

/-- A closed function: its parameters are words, a default is a literal, and its body is closed. -/
structure Function.Closed (σ : Scope) (f : Function) : Prop where
  title : ∀ t ∈ f.title, OneLine t
  result : σ.HasWord f.result
  name : σ.Calls f.name
  params : ∀ p ∈ f.params, σ.HasWord p.type ∧ σ.Has p.name ∧ ∀ v ∈ p.value, ∃ b, v = .lit (.flag b)
  body : Stmt.AllClosed σ f.body

/-- A well-formed declaration at file level. -/
def Global.Closed (σ : Scope) : Global → Prop
  | .scalar type x value remark =>
    type ∈ typeNames ∧ isWord x.text = true ∧ (∀ v ∈ value, v.Closed σ) ∧ ∀ t ∈ remark, OneLine t
  | .array type x remark => type ∈ typeNames ∧ isWord x.text = true ∧ ∀ t ∈ remark, OneLine t
  | .record name fields =>
    isWord name.text = true ∧ ∀ f ∈ fields, isWord f.1 = true ∧ isWord f.2.text = true

/-! ## Larger scopes -/

/-- A scope that has and allows all that another one does. -/
structure Scope.Le (σ τ : Scope) : Prop where
  inputs : σ.inputs ⊆ τ.inputs
  vars : σ.vars ⊆ τ.vars
  functions : σ.functions ⊆ τ.functions
  reserved : σ.reserved ⊆ τ.reserved
  elements : ∀ T ∈ τ.elements, ∃ S ∈ σ.elements, ∀ x k, S x k → T x k

instance : Preorder Scope where
  le := Scope.Le
  le_refl _ := ⟨fun _ h => h, fun _ h => h, fun _ h => h, fun _ h => h,
    fun S hS => ⟨S, hS, fun _ _ h => h⟩⟩
  le_trans _ _ _ h h' := by
    refine ⟨h.inputs.trans h'.inputs, h.vars.trans h'.vars, h.functions.trans h'.functions,
      h.reserved.trans h'.reserved, fun R hR => ?_⟩
    obtain ⟨T, hT, hTR⟩ := h'.elements R hR
    obtain ⟨S, hS, hST⟩ := h.elements T hT
    exact ⟨S, hS, fun x k hx => hTR x k (hST x k hx)⟩

section Larger

variable {σ τ : Scope}

theorem Scope.HasWord.mono (hle : σ ≤ τ) {w : String} (h : σ.HasWord w) : τ.HasWord w :=
  ⟨h.1, fun hw => hle.inputs (h.2.1 hw), fun hw => hle.vars (h.2.2.1 hw),
    fun hw => hle.reserved (h.2.2.2 hw)⟩

theorem Scope.Has.mono (hle : σ ≤ τ) {x : Ident} (h : σ.Has x) : τ.Has x :=
  Scope.HasWord.mono hle h

theorem Scope.Calls.mono (hle : σ ≤ τ) {f : Ident} (h : σ.Calls f) : τ.Calls f :=
  ⟨Scope.Has.mono hle h.1, h.2.imp id fun hf => hle.functions hf⟩

theorem IsElement.mono {S T : String → Nat → Prop} (hST : ∀ x k, S x k → T x k) {e k : Expr}
    (h : IsElement S e k) : IsElement T e k := by
  unfold IsElement at h ⊢
  split at h
  · exact ⟨h.1, hST _ _ h.2⟩
  · exact h.elim

theorem Scope.isElement_mono (hle : σ ≤ τ) {e k : Expr} (h : ∀ S ∈ σ.elements, IsElement S e k) :
    ∀ T ∈ τ.elements, IsElement T e k := by
  intro T hT
  obtain ⟨S, hS, hST⟩ := hle.elements T hT
  exact (h S hS).mono hST

theorem Scope.elements_mono (hle : σ ≤ τ) (h : σ.elements = none) : τ.elements = none := by
  cases hT : τ.elements with
  | none => rfl
  | some T =>
    obtain ⟨S, hS, -⟩ := hle.elements T hT
    rw [h] at hS
    cases hS

mutual

theorem Expr.Closed.mono (hle : σ ≤ τ) : ∀ e : Expr, e.Closed σ → e.Closed τ
  | .lit _, _ => trivial
  | .name _, h => Scope.Has.mono hle h
  | .call _ args, h => ⟨Scope.Calls.mono hle h.1, Expr.AllClosed.mono hle args h.2⟩
  | .send _ _ args, h =>
    ⟨Scope.Has.mono hle h.1, Scope.Has.mono hle h.2.1, Expr.AllClosed.mono hle args h.2.2⟩
  | .member e _, h => ⟨Expr.Closed.mono hle e h.1, Scope.Has.mono hle h.2⟩
  | .index e k, h =>
    ⟨Expr.Closed.mono hle e h.1, Expr.Closed.mono hle k h.2.1, Scope.isElement_mono hle h.2.2⟩
  | .not e, h | .neg e, h | .increased e, h | .increasing e, h | .group e, h =>
    Expr.Closed.mono hle e h
  | .cast _ e, h => ⟨Scope.HasWord.mono hle h.1, Expr.Closed.mono hle e h.2⟩
  | .binary _ a b, h => ⟨Expr.Closed.mono hle a h.1, Expr.Closed.mono hle b h.2⟩
  | .all parts, h | .any parts, h => Expr.AllClosed.mono hle parts h
  | .choice c yes no, h =>
    ⟨Expr.Closed.mono hle c h.1, Expr.Closed.mono hle yes h.2.1, Expr.Closed.mono hle no h.2.2⟩

theorem Expr.AllClosed.mono (hle : σ ≤ τ) : ∀ es : List Expr, Expr.AllClosed σ es →
    Expr.AllClosed τ es
  | [], _ => trivial
  | e :: es, h => ⟨Expr.Closed.mono hle e h.1, Expr.AllClosed.mono hle es h.2⟩

end

theorem Action.Closed.mono (hle : σ ≤ τ) : ∀ a : Action, a.Closed σ → a.Closed τ
  | .declare _ _ none _, h => ⟨Scope.HasWord.mono hle h.1, Scope.Has.mono hle h.2⟩
  | .declareArray _ _, h =>
    ⟨Scope.HasWord.mono hle h.1, Scope.Has.mono hle h.2.1, Scope.elements_mono hle h.2.2⟩
  | .declare _ _ (some v) _, h | .declareStatic _ _ v, h =>
    ⟨Scope.HasWord.mono hle h.1, Scope.Has.mono hle h.2.1, Expr.Closed.mono hle v h.2.2⟩
  | .assign t v, h | .add t v, h | .subtract t v, h =>
    ⟨Expr.Closed.mono hle t h.1, Expr.Closed.mono hle v h.2⟩
  | .increment e, h | .decrement e, h | .run e, h => Expr.Closed.mono hle e h
  | .ret, h => hle.reserved h
  | .retWith e, h => ⟨hle.reserved h.1, Expr.Closed.mono hle e h.2⟩
  | .skip, _ | .stop, _ => trivial

theorem Loop.Closed.mono (hle : σ ≤ τ) : ∀ l : Loop, l.Closed σ → l.Closed τ
  | .count _ first test _, h =>
    ⟨Scope.Has.mono hle h.1, Expr.Closed.mono hle first h.2.1, Expr.Closed.mono hle test h.2.2⟩
  | .during c, h => Expr.Closed.mono hle c h

mutual

theorem Stmt.Closed.mono (hle : σ ≤ τ) : ∀ s : Stmt, s.Closed σ → s.Closed τ
  | .blank, _ => trivial
  | .note _, h | .heading _, h => h
  | .act a, h => Action.Closed.mono hle a h
  | .remarked s _, h => ⟨h.1, Stmt.Closed.mono hle s h.2.1, h.2.2⟩
  | .guard c a, h | .guardBelow c a, h =>
    ⟨Expr.Closed.mono hle c h.1, Action.Closed.mono hle a h.2⟩
  | .guardAll c _, h =>
    ⟨Expr.Closed.mono hle c h.1, fun a ha => Action.Closed.mono hle a (h.2 a ha)⟩
  | .eitherBelow c a b, h =>
    ⟨Expr.Closed.mono hle c h.1, Action.Closed.mono hle a h.2.1, Action.Closed.mono hle b h.2.2⟩
  | .elseIfBelow c a d b, h =>
    ⟨Expr.Closed.mono hle c h.1, Action.Closed.mono hle a h.2.1, Expr.Closed.mono hle d h.2.2.1,
      Action.Closed.mono hle b h.2.2.2⟩
  | .guardTall c more a, h =>
    ⟨Expr.Closed.mono hle c h.1, Expr.AllClosed.mono hle more h.2.1, Action.Closed.mono hle a h.2.2⟩
  | .declareTall _ _ c yes no, h =>
    ⟨Scope.HasWord.mono hle h.1, Scope.Has.mono hle h.2.1, Expr.Closed.mono hle c h.2.2.1,
      Expr.Closed.mono hle yes h.2.2.2.1, Expr.Closed.mono hle no h.2.2.2.2⟩
  | .branch c body, h => ⟨Expr.Closed.mono hle c h.1, Stmt.AllClosed.mono hle body h.2⟩
  | .branchElse c yes no, h =>
    ⟨Expr.Closed.mono hle c h.1, Stmt.AllClosed.mono hle yes h.2.1,
    Stmt.AllClosed.mono hle no h.2.2⟩
  | .scope body, h => Stmt.AllClosed.mono hle body h
  | .loop head body, h => ⟨Loop.Closed.mono hle head h.1, Stmt.AllClosed.mono hle body h.2⟩
  | .loopBelow head s, h => ⟨Loop.Closed.mono hle head h.1, Stmt.Closed.mono hle s h.2⟩
  | .deeper s, h => Stmt.Closed.mono hle s h

theorem Stmt.AllClosed.mono (hle : σ ≤ τ) : ∀ ss : List Stmt, Stmt.AllClosed σ ss →
    Stmt.AllClosed τ ss
  | [], _ => trivial
  | s :: ss, h => ⟨Stmt.Closed.mono hle s h.1, Stmt.AllClosed.mono hle ss h.2⟩

end

end Larger

/-- The scope in which of the reserved words only those of orders may be kept from use, and all
elements be read. -/
def Scope.loose (σ : Scope) : Scope :=
  { σ with reserved := {w | w ∈ tradeWords → w ∈ σ.reserved}, elements := none }

theorem Scope.le_loose (σ : Scope) : σ ≤ σ.loose :=
  { le_refl σ with reserved := fun _ hw _ => hw, elements := nofun }

theorem Scope.loose_mk (inputs vars functions : Set String) :
    (Scope.mk inputs vars functions Set.univ none).loose =
    ⟨inputs, vars, functions, Set.univ, none⟩ := by
  have huniv : {w | w ∈ tradeWords → w ∈ (Set.univ : Set String)} = Set.univ :=
    Set.ext fun w => ⟨fun _ => trivial, fun _ _ => trivial⟩
  rw [Scope.loose, huniv]

/-! ## Statements in turn -/

/-- The scope with one more variable. -/
def Scope.declare (σ : Scope) (x : Ident) : Scope :=
  { σ with vars := insert x.text σ.vars }

/-- The scope after a statement: at the outer level a declaration adds its name. -/
def Scope.after (σ : Scope) : Stmt → Scope
  | .act (.declare _ x (some _) _) => σ.declare x
  | _ => σ

/-- A statement at the outer level may declare a new name, with a value that is closed before it. -/
def Stmt.Follows (σ : Scope) : Stmt → Prop
  | .act (.declare type x (some v) _) => type ∈ typeNames ∧ (σ.declare x).Has x ∧ v.Closed σ
  | s => s.Closed σ

/-- Statements of which each is closed in the scope after those before it. -/
def InTurn : Scope → List Stmt → Prop
  | _, [] => True
  | σ, s :: ss => s.Follows σ ∧ InTurn (σ.after s) ss

/-- A statement is a declaration with a value, or one that leaves the scope as it is. -/
theorem Stmt.declares_or_keeps (s : Stmt) :
    (∃ type x v pad, s = .act (.declare type x (some v) pad)) ∨
      ∀ σ : Scope, σ.after s = σ ∧ s.Follows σ = s.Closed σ := by
  cases s with
  | act a =>
    cases a with
    | declare type x value pad =>
      cases value with
      | none => exact .inr fun σ => ⟨rfl, rfl⟩
      | some v => exact .inl ⟨type, x, v, pad, rfl⟩
    | _ => exact .inr fun σ => ⟨rfl, rfl⟩
  | _ => exact .inr fun σ => ⟨rfl, rfl⟩

theorem Scope.declare_mono {σ τ : Scope} (hle : σ ≤ τ) (x : Ident) : σ.declare x ≤ τ.declare x :=
  ⟨hle.inputs, fun _ h => h.imp id fun h => hle.vars h, hle.functions, hle.reserved, hle.elements⟩

theorem Scope.le_after (σ : Scope) (s : Stmt) : σ ≤ σ.after s := by
  rcases s.declares_or_keeps with ⟨type, x, v, pad, rfl⟩ | hkeeps
  · exact { le_refl σ with vars := fun _ h => .inr h }
  · rw [(hkeeps σ).1]

theorem Scope.after_mono {σ τ : Scope} (hle : σ ≤ τ) (s : Stmt) : σ.after s ≤ τ.after s := by
  rcases s.declares_or_keeps with ⟨type, x, v, pad, rfl⟩ | hkeeps
  · exact Scope.declare_mono hle x
  · rw [(hkeeps σ).1, (hkeeps τ).1]
    exact hle

theorem Stmt.Follows.mono {σ τ : Scope} (hle : σ ≤ τ) {s : Stmt} (h : s.Follows σ) :
    s.Follows τ := by
  rcases s.declares_or_keeps with ⟨type, x, v, pad, rfl⟩ | hkeeps
  · exact ⟨h.1, Scope.Has.mono (Scope.declare_mono hle x) h.2.1, Expr.Closed.mono hle v h.2.2⟩
  · rw [(hkeeps σ).2] at h
    rw [(hkeeps τ).2]
    exact Stmt.Closed.mono hle s h

def Scope.afterAll (σ : Scope) (ss : List Stmt) : Scope :=
  ss.foldl Scope.after σ

theorem Scope.le_afterAll (σ : Scope) (ss : List Stmt) : σ ≤ σ.afterAll ss := by
  induction ss generalizing σ with
  | nil => exact le_rfl
  | cons s ss ih => exact (σ.le_after s).trans (ih (σ.after s))

namespace InTurn

theorem append_iff {ss ts : List Stmt} :
    ∀ {σ : Scope}, InTurn σ (ss ++ ts) ↔ InTurn σ ss ∧ InTurn (σ.afterAll ss) ts := by
  induction ss with
  | nil => exact ⟨fun h => ⟨trivial, h⟩, fun h => h.2⟩
  | cons s ss ih =>
    exact ⟨fun h => ⟨⟨h.1, (ih.mp h.2).1⟩, (ih.mp h.2).2⟩, fun h => ⟨h.1.1, ih.mpr ⟨h.1.2, h.2⟩⟩⟩

theorem mono {ss : List Stmt} : ∀ {σ τ : Scope}, σ ≤ τ → InTurn σ ss → InTurn τ ss := by
  induction ss with
  | nil => intros; trivial
  | cons s ss ih => exact fun hle h => ⟨h.1.mono hle, ih (Scope.after_mono hle s) h.2⟩

theorem append {σ : Scope} {ss ts : List Stmt} (hs : InTurn σ ss) (ht : InTurn σ ts) :
    InTurn σ (ss ++ ts) :=
  append_iff.mpr ⟨hs, ht.mono (σ.le_afterAll ss)⟩

theorem flatMap {σ : Scope} {α : Type} {f : α → List Stmt} {xs : List α}
    (h : ∀ x ∈ xs, InTurn σ (f x)) : InTurn σ (xs.flatMap f) := by
  induction xs with
  | nil => trivial
  | cons x xs ih =>
    rw [List.flatMap_cons]
    exact (h x List.mem_cons_self).append (ih fun y hy => h y (List.mem_cons_of_mem _ hy))

end InTurn

end TradeGraph.Mql

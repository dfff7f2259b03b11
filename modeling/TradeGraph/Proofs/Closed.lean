import TradeGraph.Proofs.Emission
import TradeGraph.Proofs.Names

/-!
# Closed programs

A part of a program is closed in a scope when all its code is. Parts are joined in order, so closed
parts make a closed program; and a scope that has all that the whole program declares has all that
each part declares.
-/

namespace TradeGraph

open List Mql

variable {σ : Scope}

variable {a : Action} {f : Function} {x y : Ident} {es : List Expr} {b : List Stmt} {p : Program}
    {s : String}

attribute [simp] Expr.Closed Expr.AllClosed Stmt.Closed Stmt.AllClosed InTurn

/-! ## Keys of helper blocks -/

/-- The names of the functions of a helper block, told by its key. Two tables have functions under
names of their own; any other block is one function, and its name is the key. -/
def keyNames (key : String) : List String :=
  if key = "MLTPStateTable" then ["GetMLTPLevel", "SetMLTPLevel", "PruneMLTPStates"]
  else if "PartialClosedTable".toList.isPrefixOf key.toList then
    ["IsPartialClosed", "MarkPartialClosed", "PrunePartialClosed"].map fun stem =>
      stem ++ String.ofList (key.toList.drop "PartialClosedTable".toList.length)
  else [key]

/-- Names that blocks of one function must not have: the key and the functions of the table of
levels, and the functions that every program has. -/
def fixedNames : List String :=
  ["MLTPStateTable", "GetMLTPLevel", "SetMLTPLevel", "PruneMLTPStates", "CountPositions",
    "DoubleGT", "DoubleLT", "DoubleGE", "DoubleLE"]

/-- Starts of names that blocks of one function must not have: the keys and the functions of the
tables of tickets. -/
def openNames : List String :=
  ["PartialClosedTable", "IsPartialClosed", "MarkPartialClosed", "PrunePartialClosed"]

/-- Can a block of one function have the name? -/
def isFree (name : String) : Bool :=
  fixedNames.all (· != name) && openNames.all fun s => !s.toList.isPrefixOf name.toList

/-- Is every name with this stem free? -/
def isOwnKey (stem : String) : Bool :=
  ((fixedNames ++ openNames).all fun s => !stem.toList.isPrefixOf s.toList) &&
    openNames.all fun s => !s.toList.isPrefixOf stem.toList

def isOwnText (stem : String) : Bool :=
  ((fixedNames ++ openNames).all fun s => !(bytes stem).isPrefixOf (bytes s)) &&
    openNames.all fun s => !(bytes s).isPrefixOf (bytes stem)

theorem isOwnKey_of_bytes (h : isOwnText s = true) : isOwnKey s = true := by
  simp only [isOwnText, isOwnKey, Bool.and_eq_true, all_eq_true, Bool.not_eq_true',
    ← Bool.not_eq_true, isPrefixOf_iff_prefix] at h ⊢
  exact ⟨fun t ht hstart => h.1 t ht (bytes_prefix_bytes hstart),
    fun t ht hstart => h.2 t ht (bytes_prefix_bytes hstart)⟩

instance (stem : String) : Decidable (isOwnKey stem = true) :=
  if h : isOwnText stem = true then .isTrue (isOwnKey_of_bytes h) else decEq (isOwnKey stem) true

theorem isFree_text (h : isOwnKey x.stem = true) : isFree x.text = true := by
  obtain ⟨more, htext⟩ : ∃ more, x.text.toList = x.stem.toList ++ more :=
    ⟨_, by rw [Ident.text_eq, String.toList_append]⟩
  simp only [isOwnKey, Bool.and_eq_true, all_eq_true, Bool.not_eq_true',
    ← Bool.not_eq_true, isPrefixOf_iff_prefix, mem_append] at h
  simp only [isFree, Bool.and_eq_true, all_eq_true, bne_iff_ne, Bool.not_eq_true',
    ← Bool.not_eq_true, isPrefixOf_iff_prefix]
  constructor
  · rintro s hs rfl
    exact h.1 _ (.inl hs) (htext ▸ prefix_append _ _)
  · intro s hs hstart
    rw [htext] at hstart
    rcases prefix_or_prefix_of_prefix hstart (prefix_append x.stem.toList more) with h' | h'
    · exact h.2 s hs h'
    · exact h.1 s (.inr hs) h'

theorem keyNames_of_isFree {key : String} (h : isFree key = true) : keyNames key = [key] := by
  simp only [isFree, Bool.and_eq_true, all_eq_true, bne_iff_ne, Bool.not_eq_true'] at h
  rw [keyNames, if_neg fun hkey => h.1 _ (by simp [fixedNames]) hkey.symm,
    if_neg (by rw [h.2 _ (by simp [openNames])]; decide)]

/-- Is it the key of a table, or a name that a block of one function can have? -/
def isKey (key : String) : Bool :=
  key == "MLTPStateTable" || "PartialClosedTable".toList.isPrefixOf key.toList || isFree key

/-- A helper block that is closed and has the functions that its key tells. -/
structure Helper.Sound (σ : Scope) (h : Helper) : Prop where
  closed : h.Closed σ
  names : h.names = keyNames h.key
  key : isKey h.key = true

@[simp] theorem Helper.sound_ofFunction (hkey : isOwnKey f.name.stem = true) :
    (Helper.ofFunction f).Sound σ ↔ f.Closed σ := by
  have hfree : isFree f.name.text = true := isFree_text hkey
  refine ⟨fun h => h.closed.functions f (mem_singleton_self f),
    fun h => ⟨⟨rfl, fun g hg => ?_⟩, (keyNames_of_isFree hfree).symm, ?_⟩⟩
  · rw [mem_singleton.mp hg]
    exact h
  · show isKey f.name.text = true
    rw [isKey, hfree, Bool.or_true]

@[simp] theorem Mql.Scope.hasFunction_of_key (hkey : isOwnKey f.name.stem = true) :
    (∀ g ∈ keyNames (Helper.ofFunction f).key, g ∈ σ.functions) ↔ σ.HasFunction f.name := by
  have hnames : keyNames (Helper.ofFunction f).key = [f.name.text] :=
    keyNames_of_isFree (isFree_text hkey)
  rw [hnames, forall_mem_singleton]
  rfl

/-! ## Closed programs -/

/-- All code of the program is closed in a scope. What the scope keeps from use is kept from the
code of each tick only. -/
structure Program.ClosedIn (σ : Scope) (p : Program) : Prop where
  globals : ∀ g ∈ p.globals, g.Closed σ
  init : Stmt.AllClosed σ.loose p.init
  deinit : Stmt.AllClosed σ.loose p.deinit
  tick : InTurn σ p.tick
  helpers : ∀ h ∈ p.helpers, h.Sound σ.loose
  beforeLoop : Stmt.AllClosed σ.loose p.beforeLoop
  rules : Stmt.AllClosed σ.loose p.rules
  gates : Expr.AllClosed σ p.gates

/-- The scope has all inputs, globals and functions of the program. -/
structure Mql.Scope.Covers (σ : Scope) (p : Program) : Prop where
  inputs : ∀ i ∈ p.inputs, σ.HasInput i.name
  globals : ∀ g ∈ p.globals, σ.HasVar g.name
  helpers : ∀ h ∈ p.helpers, ∀ f ∈ keyNames h.key, f ∈ σ.functions

theorem Mql.Expr.allClosed_iff : Expr.AllClosed σ es ↔ ∀ e ∈ es, e.Closed σ := by
  induction es with
  | nil => simp
  | cons e es ih => simp [ih]

theorem Mql.Stmt.allClosed_iff {ss : List Stmt} :
    Stmt.AllClosed σ ss ↔ ∀ s ∈ ss, s.Closed σ := by
  induction ss with
  | nil => simp
  | cons s ss ih => simp [ih]

@[simp] theorem Mql.Expr.allClosed_append {fs : List Expr} :
    Expr.AllClosed σ (es ++ fs) ↔ Expr.AllClosed σ es ∧ Expr.AllClosed σ fs := by
  simp only [Expr.allClosed_iff, mem_append, or_imp, forall_and]

@[simp] theorem Mql.Stmt.allClosed_append {ss ts : List Stmt} :
    Stmt.AllClosed σ (ss ++ ts) ↔ Stmt.AllClosed σ ss ∧ Stmt.AllClosed σ ts := by
  simp only [Stmt.allClosed_iff, mem_append, or_imp, forall_and]

theorem Program.closedIn_iff :
    p.ClosedIn σ ↔ (∀ g ∈ p.globals, g.Closed σ) ∧ Stmt.AllClosed σ.loose p.init ∧
      Stmt.AllClosed σ.loose p.deinit ∧ InTurn σ p.tick ∧ (∀ h ∈ p.helpers, h.Sound σ.loose) ∧
      Stmt.AllClosed σ.loose p.beforeLoop ∧ Stmt.AllClosed σ.loose p.rules ∧
      Expr.AllClosed σ p.gates :=
  ⟨fun h => ⟨h.globals, h.init, h.deinit, h.tick, h.helpers, h.beforeLoop, h.rules, h.gates⟩,
    fun ⟨hglobals, hinit, hdeinit, htick, hhelpers, hbefore, hrules, hgates⟩ =>
      ⟨hglobals, hinit, hdeinit, htick, hhelpers, hbefore, hrules, hgates⟩⟩

theorem Mql.Scope.covers_iff :
    σ.Covers p ↔ (∀ i ∈ p.inputs, σ.HasInput i.name) ∧ (∀ g ∈ p.globals, σ.HasVar g.name) ∧
      ∀ h ∈ p.helpers, ∀ f ∈ keyNames h.key, f ∈ σ.functions :=
  ⟨fun h => ⟨h.inputs, h.globals, h.helpers⟩, fun ⟨hi, hg, hh⟩ => ⟨hi, hg, hh⟩⟩

theorem Program.ClosedIn.append {q : Program} (hp : p.ClosedIn σ) (hq : q.ClosedIn σ) :
    (p ++ q).ClosedIn σ where
  globals g hg := (mem_append.mp hg).elim (hp.globals g) (hq.globals g)
  init := Stmt.allClosed_append.mpr ⟨hp.init, hq.init⟩
  deinit := Stmt.allClosed_append.mpr ⟨hp.deinit, hq.deinit⟩
  tick := hp.tick.append hq.tick
  helpers h hh :=
    (Program.mem_of_mem_joinHelpers q.helpers hh).elim (hp.helpers h) (hq.helpers h)
  beforeLoop := Stmt.allClosed_append.mpr ⟨hp.beforeLoop, hq.beforeLoop⟩
  rules := Stmt.allClosed_append.mpr ⟨hp.rules, hq.rules⟩
  gates := Expr.allClosed_append.mpr ⟨hp.gates, hq.gates⟩

/-- A scope covers programs one after the other if it covers each of them. A helper block that is
not taken twice has the same key as the one that is there. -/
@[simp] theorem Mql.Scope.covers_append {q : Program} :
    σ.Covers (p ++ q) ↔ σ.Covers p ∧ σ.Covers q := by
  constructor
  · intro h
    refine ⟨⟨fun i hi => h.inputs i (mem_append_left _ hi),
        fun g hg => h.globals g (mem_append_left _ hg),
        fun k hk => h.helpers k (Program.mem_foldl_joinHelper_left hk q.helpers)⟩,
      ⟨fun i hi => h.inputs i (mem_append_right _ hi),
        fun g hg => h.globals g (mem_append_right _ hg), fun k hk => ?_⟩⟩
    obtain ⟨k', hk', hkey⟩ : Program.HasKey (q.helpers.foldl Program.joinHelper p.helpers) k.key :=
      Program.hasKey_foldl_joinHelper hk
    rw [← hkey]
    exact h.helpers k' hk'
  · rintro ⟨hp, hq⟩
    exact ⟨fun i hi => (mem_append.mp hi).elim (hp.inputs i) (hq.inputs i),
      fun g hg => (mem_append.mp hg).elim (hp.globals g) (hq.globals g),
      fun k hk => (Program.mem_of_mem_joinHelpers q.helpers hk).elim (hp.helpers k)
        (hq.helpers k)⟩

theorem Mql.Scope.Covers.hasFunction (h : σ.Covers p) (hf : .ofFunction f ∈ p.helpers)
    (hkey : isOwnKey f.name.stem = true) : σ.HasFunction f.name :=
  (Scope.hasFunction_of_key hkey).mp (h.helpers _ hf)

/-! ## Code under short names -/

attribute [simp] Scope.hasWord_plain Scope.has_plain Scope.has_numbered Scope.has_reserved
  Scope.has_input Scope.has_indVar Scope.has_paVar Scope.has_indInput Scope.has_rangeInput
  Scope.has_levelInput Scope.has_sideInput Scope.has_ruleInput Scope.has_ruleName
    Scope.has_exitInput
  Scope.has_exitName Scope.calls_iff

namespace Mql

@[simp] theorem oneLine_append {t : String} : OneLine (s ++ t) ↔ OneLine s ∧ OneLine t := by
  simp [OneLine]

theorem oneLine_of_numeral (h : ∀ c ∈ s.toList, isNumeralChar c = true) : OneLine s :=
  fun hbreak => absurd (h '\n' hbreak) (by decide)

@[simp] theorem oneLine_repr (n : Nat) : OneLine n.repr :=
  oneLine_of_numeral repr_numeral

@[simp] theorem oneLine_int (n : Int) : OneLine n.repr :=
  oneLine_of_numeral int_numeral

namespace Scope

@[simp] theorem hasInput_declare : (σ.declare x).HasInput y ↔ σ.HasInput y :=
  Iff.rfl

@[simp] theorem hasFunction_declare : (σ.declare x).HasFunction y ↔ σ.HasFunction y :=
  Iff.rfl

@[simp] theorem hasVar_declare : (σ.declare x).HasVar y ↔ y.text = x.text ∨ σ.HasVar y :=
  Iff.rfl

@[simp] theorem elements_declare : (σ.declare x).elements = σ.elements := rfl

@[simp] theorem reserved_declare : (σ.declare x).reserved = σ.reserved := rfl

@[simp] theorem hasInput_loose : σ.loose.HasInput x ↔ σ.HasInput x := Iff.rfl

@[simp] theorem hasVar_loose : σ.loose.HasVar x ↔ σ.HasVar x := Iff.rfl

@[simp] theorem hasFunction_loose : σ.loose.HasFunction x ↔ σ.HasFunction x := Iff.rfl

@[simp] theorem elements_loose : σ.loose.elements = none := rfl

@[simp] theorem mem_reserved_loose {w : String} (h : w ∉ tradeWords) : w ∈ σ.loose.reserved :=
  fun hw => absurd hw h

@[simp] theorem mem_reserved_loose_iff {w : String} (h : w ∈ tradeWords) :
    w ∈ σ.loose.reserved ↔ w ∈ σ.reserved :=
  ⟨fun hloose => hloose h, fun hw _ => hw⟩

def MayRead (σ : Scope) (x : String) (k : Nat) : Prop :=
  ∀ S ∈ σ.elements, S x k

@[simp] theorem mayRead_declare {y : String} {k : Nat} :
    (σ.declare x).MayRead y k ↔ σ.MayRead y k := Iff.rfl

theorem mayRead_of_elements (h : σ.elements = none) (x : String) (k : Nat) : σ.MayRead x k := by
  simp [MayRead, h]

@[simp] theorem mayRead_int {k : Nat} :
    (∀ S, σ.elements = some S → IsElement S (.name x) (.lit (.int k))) ↔ σ.MayRead x.text k := by
  simp [IsElement, MayRead]

@[simp] theorem mayRead_zero :
    (∀ S, σ.elements = some S → IsElement S (.name x) 0) ↔ σ.MayRead x.text 0 :=
  mayRead_int

end Scope

namespace Expr

variable {a b : Expr}

@[simp] theorem closed_operators :
    ((a.lt b).Closed σ ↔ a.Closed σ ∧ b.Closed σ) ∧
      ((a.le b).Closed σ ↔ a.Closed σ ∧ b.Closed σ) ∧
      ((a.gt b).Closed σ ↔ a.Closed σ ∧ b.Closed σ) ∧
      ((a.ge b).Closed σ ↔ a.Closed σ ∧ b.Closed σ) ∧
      ((a.eq b).Closed σ ↔ a.Closed σ ∧ b.Closed σ) ∧
      ((a.ne b).Closed σ ↔ a.Closed σ ∧ b.Closed σ) ∧
      ((a + b).Closed σ ↔ a.Closed σ ∧ b.Closed σ) ∧
      ((a - b).Closed σ ↔ a.Closed σ ∧ b.Closed σ) ∧
      ((a * b).Closed σ ↔ a.Closed σ ∧ b.Closed σ) ∧
      ((a / b).Closed σ ↔ a.Closed σ ∧ b.Closed σ) := by
  and_intros <;> rfl

@[simp] theorem closed_quote (s : String) : (quote s).Closed σ := trivial

@[simp] theorem closed_tenths (n : Nat) : (tenths n).Closed σ := trivial

end Expr

namespace Action

variable {type : String} {x : Ident} {v t e : Expr}

@[simp] theorem closed_declares :
    (∀ pad, (declare type x (some v) pad).Closed σ ↔ σ.HasWord type ∧ σ.Has x ∧ v.Closed σ) ∧
      ((declareStatic type x v).Closed σ ↔ σ.HasWord type ∧ σ.Has x ∧ v.Closed σ) :=
  ⟨fun _ => Iff.rfl, Iff.rfl⟩

@[simp] theorem closed_declareArray :
    (declareArray type x).Closed σ ↔ σ.HasWord type ∧ σ.Has x ∧ σ.elements = none := Iff.rfl

@[simp] theorem closed_assigns : ((assign t v).Closed σ ↔ t.Closed σ ∧ v.Closed σ) ∧
    ((add t v).Closed σ ↔ t.Closed σ ∧ v.Closed σ) ∧
    ((subtract t v).Closed σ ↔ t.Closed σ ∧ v.Closed σ) := by
  and_intros <;> rfl

@[simp] theorem closed_ofExpr : ((increment e).Closed σ ↔ e.Closed σ) ∧
    ((decrement e).Closed σ ↔ e.Closed σ) ∧ ((run e).Closed σ ↔ e.Closed σ) ∧
    ((retWith e).Closed σ ↔ "return" ∈ σ.reserved ∧ e.Closed σ) := by
  and_intros <;> rfl

@[simp] theorem closed_jumps : (ret.Closed σ ↔ "return" ∈ σ.reserved) ∧ skip.Closed σ ∧
    stop.Closed σ :=
  ⟨Iff.rfl, trivial, trivial⟩

end Action

@[simp] theorem Loop.closed_count {i : Ident} {first test : Expr} {up : Bool} :
    (count i first test up).Closed σ ↔ σ.Has i ∧ first.Closed σ ∧ test.Closed σ := Iff.rfl

@[simp] theorem Loop.closed_during {c : Expr} : (during c).Closed σ ↔ c.Closed σ := Iff.rfl

namespace Stmt

variable {type : String} {x : Ident} {v t e : Expr}

/-- Does the statement declare a variable and give it a value? -/
def isDeclaration : Stmt → Bool
  | .act (.declare _ _ (some _) _) => true
  | _ => false

@[simp] theorem follows_of_not_isDeclaration {s : Stmt} (h : s.isDeclaration = false) :
    s.Follows σ = s.Closed σ := by
  rcases s.declares_or_keeps with ⟨type, x, v, pad, rfl⟩ | hkeeps
  · cases h
  · exact (hkeeps σ).2

@[simp] theorem after_of_not_isDeclaration {s : Stmt} (h : s.isDeclaration = false) :
    σ.after s = σ := by
  rcases s.declares_or_keeps with ⟨type, x, v, pad, rfl⟩ | hkeeps
  · cases h
  · exact (hkeeps σ).1

theorem inTurn_of_closed : ∀ {ss : List Stmt},
    (∀ s ∈ ss, s.isDeclaration = false ∧ s.Closed σ) → InTurn σ ss
  | [], _ => trivial
  | s :: ss, h => by
    obtain ⟨hs, hclosed⟩ := h s mem_cons_self
    rw [InTurn, follows_of_not_isDeclaration hs, after_of_not_isDeclaration hs]
    exact ⟨hclosed, inTurn_of_closed fun t ht => h t (mem_cons_of_mem _ ht)⟩

/-- Is the type of what the statement declares one that the reader of declarations knows? -/
def isTyped : Stmt → Bool
  | .act (.declare type _ (some _) _) => typeNames.contains type
  | _ => true

@[simp] theorem isTyped_of_not_isDeclaration {s : Stmt} (h : s.isDeclaration = false) :
    s.isTyped = true := by
  unfold isTyped
  split
  · cases h
  · rfl

@[simp] theorem isTyped_declare :
    (Stmt.declare type x v).isTyped = typeNames.contains type := (rfl)

/-- Closed statements can stand in turn if they declare variables of known types. -/
theorem inTurn_of_allClosed : ∀ {ss : List Stmt} {σ : Scope}, Stmt.AllClosed σ ss →
    ss.all isTyped = true → InTurn σ ss
  | [], _, _, _ => trivial
  | s :: ss, σ, ⟨hs, hss⟩, htyped => by
    rw [all_cons, Bool.and_eq_true] at htyped
    refine ⟨?_, inTurn_of_allClosed (Stmt.AllClosed.mono (σ.le_after s) ss hss) htyped.2⟩
    rcases s.declares_or_keeps with ⟨type, x, v, pad, rfl⟩ | hkeeps
    · exact ⟨contains_iff_mem.mp htyped.1,
        Scope.Has.mono (σ.le_after (.act (.declare type x (some v) pad))) hs.2.1, hs.2.2⟩
    · rw [(hkeeps σ).2]
      exact hs

@[simp] theorem closed_declare :
    (Stmt.declare type x v).Closed σ ↔ σ.HasWord type ∧ σ.Has x ∧ v.Closed σ := Iff.rfl

@[simp] theorem closed_declareOnly :
    (Stmt.declareOnly type x).Closed σ ↔ σ.HasWord type ∧ σ.Has x := Iff.rfl

@[simp] theorem closed_assign : (Stmt.assign t v).Closed σ ↔ t.Closed σ ∧ v.Closed σ := Iff.rfl

@[simp] theorem closed_run : (Stmt.run e).Closed σ ↔ e.Closed σ := Iff.rfl

@[simp] theorem follows_declare :
    (Stmt.declare type x v).Follows σ ↔ type ∈ typeNames ∧ (σ.declare x).Has x ∧ v.Closed σ :=
  Iff.rfl

@[simp] theorem after_declare : σ.after (Stmt.declare type x v) = σ.declare x := rfl

/-! The side conditions of the two lemmas above. Their proofs are not definitional for `simp`, which
must not unfold statements to check them. -/

@[simp] theorem isDeclaration_assign : (Stmt.assign t v).isDeclaration = false := (rfl)

@[simp] theorem isDeclaration_run : (Stmt.run e).isDeclaration = false := (rfl)

@[simp] theorem isDeclaration_guard : (Stmt.guard e a).isDeclaration = false := (rfl)

@[simp] theorem isDeclaration_others :
    (∀ s, (Stmt.note s).isDeclaration = false) ∧ (∀ s, (Stmt.heading s).isDeclaration = false) ∧
      (∀ r s, (Stmt.remarked r s).isDeclaration = false) ∧
      (∀ e a, (Stmt.guardBelow e a).isDeclaration = false) ∧
      (∀ e es a, (Stmt.guardTall e es a).isDeclaration = false) ∧
      (∀ e b, (Stmt.branch e b).isDeclaration = false) ∧
      (∀ b, (Stmt.scope b).isDeclaration = false) ∧
      (∀ s, (Stmt.deeper s).isDeclaration = false) ∧ Stmt.blank.isDeclaration = false := by
  simp [isDeclaration]

@[simp] theorem isSimple_assign : (Stmt.assign t v).isSimple = true := rfl

@[simp] theorem isSimple_declare : (Stmt.declare type x v).isSimple = true := rfl

end Stmt

namespace Global

variable {type : String} {x : Ident} {value : Option Expr} {remark : Option String}

@[simp] theorem name_scalar : (scalar type x value remark).name = x := rfl

@[simp] theorem name_array : (array type x remark).name = x := rfl

@[simp] theorem closed_scalar :
    (scalar type x value remark).Closed σ ↔ type ∈ typeNames ∧ isWord x.text = true ∧
      (∀ v ∈ value, v.Closed σ) ∧ ∀ t ∈ remark, OneLine t := Iff.rfl

@[simp] theorem closed_array :
    (array type x remark).Closed σ ↔
      type ∈ typeNames ∧ isWord x.text = true ∧ ∀ t ∈ remark, OneLine t := Iff.rfl

@[simp] theorem closed_record {fields : List (String × Ident)} :
    (record x fields).Closed σ ↔ isWord x.text = true ∧
      ∀ f ∈ fields, isWord f.1 = true ∧ isWord f.2.text = true := Iff.rfl

end Global

namespace Platform

variable {a b : Expr}

@[simp] theorem closed_unary :
    ((symbolDouble a).Closed σ ↔ a.Closed σ) ∧
      ((symbolInteger a).Closed σ ↔ a.Closed σ) ∧
      ((positionDouble a).Closed σ ↔ a.Closed σ) ∧
      ((positionInteger a).Closed σ ↔ a.Closed σ) ∧
      ((accountDouble a).Closed σ ↔ a.Closed σ) ∧
      ((normalizePrice a).Closed σ ↔ a.Closed σ) ∧
      ((magnitude a).Closed σ ↔ a.Closed σ) := by
  simp +decide [symbol, digits, symbolDouble, symbolInteger, positionDouble, positionInteger,
    accountDouble, normalizePrice, magnitude]

@[simp] theorem closed_binary :
    ((larger a b).Closed σ ↔ a.Closed σ ∧ b.Closed σ) ∧
      ((smaller a b).Closed σ ↔ a.Closed σ ∧ b.Closed σ) ∧
      ((closeOf a b).Closed σ ↔ a.Closed σ ∧ b.Closed σ) ∧
      ((openOf a b).Closed σ ↔ a.Closed σ ∧ b.Closed σ) ∧
      ((highOf a b).Closed σ ↔ a.Closed σ ∧ b.Closed σ) ∧
      ((lowOf a b).Closed σ ↔ a.Closed σ ∧ b.Closed σ) ∧
      ((timeOf a b).Closed σ ↔ a.Closed σ ∧ b.Closed σ) := by
  simp +decide [symbol, larger, smaller, closeOf, openOf, highOf, lowOf, timeOf]

@[simp] theorem closed_constants : symbol.Closed σ ∧ point.Closed σ ∧ digits.Closed σ ∧
    pipFactor.Closed σ ∧ chart.Closed σ ∧ invalidHandle.Closed σ ∧ ask.Closed σ ∧ bid.Closed σ := by
  simp +decide [symbol, point, digits, pipFactor, chart, invalidHandle, ask, bid]

end Platform

end Mql

end TradeGraph

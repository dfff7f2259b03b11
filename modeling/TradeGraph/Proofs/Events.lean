import TradeGraph.Proofs.Distinct

/-!
# What code calls and sets, in order

Code is read as a list of events: calls of functions and assignments to variables, in the order in
which a run that takes every branch would come to them. Code that is closed in a scope calls no
function that the scope lacks, so a scope in which everything but a few functions is at hand tells
which parts of a program leave those functions alone.
-/

namespace TradeGraph.Mql

/-! ## Events -/

/-- A call of a function, or an assignment to a variable. -/
inductive Event where
  | calls (f : String) (args : List Expr)
  | sets (x : String) (value : Expr)

mutual

/-- The events of an expression: arguments come before the call. -/
def Expr.events : Expr → List Event
  | .lit _ | .name _ => []
  | .call f args => Expr.allEvents args ++ [.calls f.text args]
  | .send _ _ args => Expr.allEvents args
  | .member e _ | .not e | .neg e | .increased e | .increasing e | .cast _ e | .group e => e.events
  | .index a b | .binary _ a b => a.events ++ b.events
  | .all parts | .any parts => Expr.allEvents parts
  | .choice c yes no => c.events ++ yes.events ++ no.events

def Expr.allEvents : List Expr → List Event
  | [] => []
  | e :: es => e.events ++ Expr.allEvents es

end

def Action.events : Action → List Event
  | .declare _ x (some v) _ | .declareStatic _ x v | .assign (.name x) v =>
    v.events ++ [.sets x.text v]
  | .assign t v | .add t v | .subtract t v => t.events ++ v.events
  | .increment e | .decrement e | .run e | .retWith e => e.events
  | .declare _ _ none _ | .declareArray _ _ | .ret | .skip | .stop => []

def Loop.events : Loop → List Event
  | .count i first test _ => first.events ++ [.sets i.text first] ++ test.events
  | .during c => c.events

mutual

def Stmt.events : Stmt → List Event
  | .blank | .note _ | .heading _ => []
  | .act a => a.events
  | .remarked s _ | .deeper s => s.events
  | .guard c a | .guardBelow c a => c.events ++ a.events
  | .guardAll c as => c.events ++ as.flatMap Action.events
  | .eitherBelow c a b => c.events ++ a.events ++ b.events
  | .elseIfBelow c a d b => c.events ++ a.events ++ d.events ++ b.events
  | .guardTall c more a => c.events ++ Expr.allEvents more ++ a.events
  | .declareTall _ x c yes no =>
    c.events ++ yes.events ++ no.events ++ [.sets x.text (.choice c yes no)]
  | .branch c body => c.events ++ Stmt.allEvents body
  | .branchElse c yes no => c.events ++ Stmt.allEvents yes ++ Stmt.allEvents no
  | .scope body => Stmt.allEvents body
  | .loop head body => head.events ++ Stmt.allEvents body
  | .loopBelow head s => head.events ++ s.events

def Stmt.allEvents : List Stmt → List Event
  | [] => []
  | s :: ss => s.events ++ Stmt.allEvents ss

end

theorem Stmt.allEvents_append (ss ts : List Stmt) :
    Stmt.allEvents (ss ++ ts) = Stmt.allEvents ss ++ Stmt.allEvents ts := by
  induction ss with
  | nil => rfl
  | cons s ss ih => simp only [List.cons_append, Stmt.allEvents, ih, List.append_assoc]

/-! ## Functions that code leaves alone -/

variable {W : List String}

/-- The event calls none of the functions, nor is a call of one the value that it assigns. -/
def Event.Spares (W : List String) : Event → Prop
  | .calls f _ => f ∉ W
  | .sets _ (.call f _) => f.text ∉ W
  | .sets _ _ => True

/-- None of the events calls one of the functions. -/
def AllSpare (W : List String) (events : List Event) : Prop :=
  ∀ e ∈ events, e.Spares W

@[simp] theorem allSpare_nil : AllSpare W [] := by
  simp [AllSpare]

@[simp] theorem allSpare_append {es fs : List Event} :
    AllSpare W (es ++ fs) ↔ AllSpare W es ∧ AllSpare W fs := by
  simp [AllSpare, or_imp, forall_and]

@[simp] theorem allSpare_singleton {e : Event} : AllSpare W [e] ↔ e.Spares W := by
  simp [AllSpare]

@[simp] theorem allSpare_flatMap {α : Type} {f : α → List Event} {as : List α} :
    AllSpare W (as.flatMap f) ↔ ∀ a ∈ as, AllSpare W (f a) := by
  simp only [AllSpare, List.mem_flatMap]
  exact ⟨fun h a ha e he => h e ⟨a, ha, he⟩, fun h e ⟨a, ha, he⟩ => h a ha e he⟩

theorem AllSpare.mono {V : List String} {es : List Event} (hsub : ∀ f ∈ V, f ∈ W)
    (h : AllSpare W es) : AllSpare V es := by
  intro e he
  have hspares := h e he
  cases e with
  | calls f args => exact fun hf => hspares (hsub _ hf)
  | sets x v =>
    cases v with
    | call f args => exact fun hf => hspares (hsub _ hf)
    | _ => trivial

/-- The scope that has everything but certain functions. -/
def Scope.lacking (W : List String) : Scope where
  inputs := Set.univ
  vars := Set.univ
  functions := {f | f ∉ W}

/-- A function that is not offered is none of those that the platform has. -/
def Withheld (W : List String) : Prop :=
  ∀ f ∈ W, f ∉ platformCalls

theorem Scope.Calls.notMem (hW : Withheld W) {f : Ident} (h : (Scope.lacking W).Calls f) :
    f.text ∉ W := by
  rcases h.2 with hplatform | hprogram
  · exact fun hmem => hW _ hmem hplatform
  · exact hprogram

mutual

theorem Expr.Closed.spares (hW : Withheld W) :
    ∀ e : Expr, e.Closed (Scope.lacking W) → AllSpare W e.events
  | .lit _, _ | .name _, _ => allSpare_nil
  | .call _ args, h =>
    allSpare_append.mpr ⟨Expr.AllClosed.spares hW args h.2, allSpare_singleton.mpr (h.1.notMem hW)⟩
  | .send _ _ args, h => Expr.AllClosed.spares hW args h.2.2
  | .member e _, h => Expr.Closed.spares hW e h.1
  | .not e, h | .neg e, h | .increased e, h | .increasing e, h | .group e, h =>
    Expr.Closed.spares hW e h
  | .cast _ e, h => Expr.Closed.spares hW e h.2
  | .index a b, h =>
    allSpare_append.mpr ⟨Expr.Closed.spares hW a h.1, Expr.Closed.spares hW b h.2.1⟩
  | .binary _ a b, h =>
    allSpare_append.mpr ⟨Expr.Closed.spares hW a h.1, Expr.Closed.spares hW b h.2⟩
  | .all parts, h | .any parts, h => Expr.AllClosed.spares hW parts h
  | .choice c yes no, h =>
    allSpare_append.mpr ⟨allSpare_append.mpr ⟨Expr.Closed.spares hW c h.1,
      Expr.Closed.spares hW yes h.2.1⟩, Expr.Closed.spares hW no h.2.2⟩

theorem Expr.AllClosed.spares (hW : Withheld W) :
    ∀ es : List Expr, Expr.AllClosed (Scope.lacking W) es → AllSpare W (Expr.allEvents es)
  | [], _ => allSpare_nil
  | e :: es, h => allSpare_append.mpr ⟨Expr.Closed.spares hW e h.1, Expr.AllClosed.spares hW es h.2⟩

end

/-- The value of an assignment is no call of the functions if it is closed. -/
theorem Expr.Closed.spares_sets (hW : Withheld W) {x : String} {v : Expr}
    (h : v.Closed (Scope.lacking W)) :
    AllSpare W (v.events ++ [.sets x v]) := by
  refine allSpare_append.mpr ⟨Expr.Closed.spares hW v h, allSpare_singleton.mpr ?_⟩
  cases v with
  | call f args => exact h.1.notMem hW
  | _ => trivial

theorem Action.Closed.spares (hW : Withheld W) (a : Action) (h : a.Closed (Scope.lacking W)) :
    AllSpare W a.events := by
  have htwo {e f : Expr} (he : e.Closed (Scope.lacking W)) (hf : f.Closed (Scope.lacking W)) :
      AllSpare W (e.events ++ f.events) :=
    allSpare_append.mpr ⟨Expr.Closed.spares hW e he, Expr.Closed.spares hW f hf⟩
  cases a with
  | declare type x value pad =>
    cases value with
    | none => exact allSpare_nil
    | some v => exact Expr.Closed.spares_sets hW h.2.2
  | declareStatic type x v => exact Expr.Closed.spares_sets hW h.2.2
  | assign t v =>
    cases t with
    | name x => exact Expr.Closed.spares_sets hW h.2
    | _ => exact htwo h.1 h.2
  | add t v | subtract t v => exact htwo h.1 h.2
  | increment e | decrement e | run e => exact Expr.Closed.spares hW e h
  | retWith e => exact Expr.Closed.spares hW e h.2
  | declareArray | ret | skip | stop => exact allSpare_nil

theorem Loop.Closed.spares (hW : Withheld W) (l : Loop) (h : l.Closed (Scope.lacking W)) :
    AllSpare W l.events := by
  cases l with
  | count i first test up =>
    exact allSpare_append.mpr ⟨Expr.Closed.spares_sets hW h.2.1, Expr.Closed.spares hW test h.2.2⟩
  | during c => exact Expr.Closed.spares hW c h

mutual

theorem Stmt.Closed.spares (hW : Withheld W) :
    ∀ s : Stmt, s.Closed (Scope.lacking W) → AllSpare W s.events
  | .blank, _ | .note _, _ | .heading _, _ => allSpare_nil
  | .act a, h => Action.Closed.spares hW a h
  | .remarked s _, h => Stmt.Closed.spares hW s h.2.1
  | .deeper s, h => Stmt.Closed.spares hW s h
  | .guard c a, h | .guardBelow c a, h =>
    allSpare_append.mpr ⟨Expr.Closed.spares hW c h.1, Action.Closed.spares hW a h.2⟩
  | .guardAll c _, h =>
    allSpare_append.mpr ⟨Expr.Closed.spares hW c h.1,
      allSpare_flatMap.mpr fun a ha => Action.Closed.spares hW a (h.2 a ha)⟩
  | .eitherBelow c a b, h =>
    allSpare_append.mpr ⟨allSpare_append.mpr ⟨Expr.Closed.spares hW c h.1,
      Action.Closed.spares hW a h.2.1⟩, Action.Closed.spares hW b h.2.2⟩
  | .elseIfBelow c a d b, h =>
    allSpare_append.mpr ⟨allSpare_append.mpr ⟨allSpare_append.mpr ⟨Expr.Closed.spares hW c h.1,
      Action.Closed.spares hW a h.2.1⟩, Expr.Closed.spares hW d h.2.2.1⟩,
      Action.Closed.spares hW b h.2.2.2⟩
  | .guardTall c more a, h =>
    allSpare_append.mpr ⟨allSpare_append.mpr ⟨Expr.Closed.spares hW c h.1,
      Expr.AllClosed.spares hW more h.2.1⟩, Action.Closed.spares hW a h.2.2⟩
  | .declareTall _ _ c yes no, h =>
    allSpare_append.mpr ⟨Expr.Closed.spares hW (.choice c yes no) h.2.2,
      allSpare_singleton.mpr trivial⟩
  | .branch c body, h =>
    allSpare_append.mpr ⟨Expr.Closed.spares hW c h.1, Stmt.AllClosed.spares hW body h.2⟩
  | .branchElse c yes no, h =>
    allSpare_append.mpr ⟨allSpare_append.mpr ⟨Expr.Closed.spares hW c h.1,
      Stmt.AllClosed.spares hW yes h.2.1⟩, Stmt.AllClosed.spares hW no h.2.2⟩
  | .scope body, h => Stmt.AllClosed.spares hW body h
  | .loop head body, h =>
    allSpare_append.mpr ⟨Loop.Closed.spares hW head h.1, Stmt.AllClosed.spares hW body h.2⟩
  | .loopBelow head s, h =>
    allSpare_append.mpr ⟨Loop.Closed.spares hW head h.1, Stmt.Closed.spares hW s h.2⟩

theorem Stmt.AllClosed.spares (hW : Withheld W) :
    ∀ ss : List Stmt, Stmt.AllClosed (Scope.lacking W) ss → AllSpare W (Stmt.allEvents ss)
  | [], _ => allSpare_nil
  | s :: ss, h => allSpare_append.mpr ⟨Stmt.Closed.spares hW s h.1, Stmt.AllClosed.spares hW ss h.2⟩

end

/-- **Closed code leaves alone what its scope lacks.** -/
theorem InTurn.spares (hW : Withheld W) {ss : List Stmt} (h : InTurn (Scope.lacking W) ss) :
    AllSpare W (Stmt.allEvents ss) := by
  induction ss with
  | nil => exact allSpare_nil
  | cons s ss ih =>
    rcases s.declares_or_keeps with ⟨type, x, v, pad, rfl⟩ | hkeeps
    · -- the scope has all variables, so a declaration adds none
      have hle : (Scope.lacking W).declare x ≤ Scope.lacking W :=
        ⟨fun _ h => h, fun _ _ => trivial, fun _ h => h, fun _ h => h, by simp [Scope.lacking]⟩
      obtain ⟨⟨-, -, hv⟩, hrest⟩ := h
      exact allSpare_append.mpr ⟨Expr.Closed.spares_sets hW hv, ih (hrest.mono hle)⟩
    · obtain ⟨hs, hrest⟩ := h
      rw [(hkeeps _).2] at hs
      rw [(hkeeps _).1] at hrest
      exact allSpare_append.mpr ⟨Stmt.Closed.spares hW s hs, ih hrest⟩

end TradeGraph.Mql

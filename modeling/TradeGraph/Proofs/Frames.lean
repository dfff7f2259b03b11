import TradeGraph.Proofs.Machine

/-!
# What code leaves as it is

Code that calls only certain functions and sets only certain variables keeps all that these
functions and variables keep. Relations between the world before and after are closed under running
on, so what each call keeps is kept by all code that makes only such calls.
-/

namespace TradeGraph.Mql

/-! ## Relations along a run -/

/-- Two worlds that differ at most in what was asked and in the variables of the file. -/
structure World.Quiet (w w' : World) : Prop where
  positions : w'.positions = w.positions
  selected : w'.selected = w.selected
  moves : w'.moves = w.moves

theorem World.Quiet.refl (w : World) : w.Quiet w :=
  ⟨rfl, rfl, rfl⟩

theorem World.Quiet.trans {a b c : World} (h : a.Quiet b) (h' : b.Quiet c) : a.Quiet c :=
  ⟨h'.positions.trans h.positions, h'.selected.trans h.selected, h'.moves.trans h.moves⟩

/-- A relation between worlds that code can keep. -/
structure Along (R : World → World → Prop) : Prop where
  of_quiet : ∀ {w w'}, w.Quiet w' → R w w'
  trans : ∀ {a b c}, R a b → R b c → R a c

theorem along_quiet : Along World.Quiet :=
  ⟨id, World.Quiet.trans⟩

inductive Callee where
  | function (f : String)
  | method (receiver name : String)

/-- If it is a call, it is one of these. -/
def Query.Among (P : Callee → Prop) : Query → Prop
  | .call f _ => P (.function f)
  | .send receiver method _ => P (.method receiver method)
  | _ => True

/-- The relation holds before and after each of these calls. -/
def Caller.Respects (call : Caller) (P : Callee → Prop) (R : World → World → Prop) : Prop :=
  ∀ q : Query, q.Among P → ∀ w, R w (call q w).2

/-- The world after is related to that before, and all variables of the function but some are the
same. -/
structure Kept (R : World → World → Prop) (X : String → Prop) (s s' : State) : Prop where
  world : R s.world s'.world
  locals : ∀ x, ¬ X x → s'.locals x = s.locals x

/-! ## Calm code -/

/-- If it is a name, it is one of these variables. -/
def Expr.Settable (X : String → Prop) : Expr → Prop
  | .name x => X x.text
  | _ => True

mutual

/-- The expression makes only such calls and sets only such variables. -/
def Expr.Calm (P : Callee → Prop) (X : String → Prop) : Expr → Prop
  | .lit _ | .name _ => True
  | .call f args => P (.function f.text) ∧ Expr.AllCalm P X args
  | .send receiver method args =>
    P (.method receiver.text method.text) ∧ Expr.AllCalm P X args
  | .member e _ | .not e | .neg e | .cast _ e | .group e => e.Calm P X
  | .increased e | .increasing e => e.Calm P X ∧ e.Settable X
  | .index a b | .binary _ a b => a.Calm P X ∧ b.Calm P X
  | .all parts | .any parts => Expr.AllCalm P X parts
  | .choice c yes no => c.Calm P X ∧ yes.Calm P X ∧ no.Calm P X

def Expr.AllCalm (P : Callee → Prop) (X : String → Prop) : List Expr → Prop
  | [] => True
  | e :: es => e.Calm P X ∧ Expr.AllCalm P X es

end

/-- The action makes only such calls and sets only such variables. -/
def Action.Calm (P : Callee → Prop) (X : String → Prop) : Action → Prop
  | .declare _ x none _ => X x.text
  | .declare _ x (some e) _ => X x.text ∧ e.Calm P X
  | .assign target e | .add target e | .subtract target e =>
    target.Calm P X ∧ target.Settable X ∧ e.Calm P X
  | .increment target | .decrement target => target.Calm P X ∧ target.Settable X
  | .declareStatic _ _ e | .run e | .retWith e => e.Calm P X
  | .declareArray _ _ | .ret | .skip | .stop => True

/-- The head of the loop makes only such calls and sets only such variables. -/
def Loop.Calm (P : Callee → Prop) (X : String → Prop) : Loop → Prop
  | .count i first test _ => X i.text ∧ first.Calm P X ∧ test.Calm P X
  | .during c => c.Calm P X

mutual

/-- The statement makes only such calls and sets only such variables. -/
def Stmt.Calm (P : Callee → Prop) (X : String → Prop) : Stmt → Prop
  | .blank | .note _ | .heading _ => True
  | .act a => a.Calm P X
  | .remarked s _ | .deeper s => s.Calm P X
  | .guard c a | .guardBelow c a => c.Calm P X ∧ a.Calm P X
  | .guardAll c as => c.Calm P X ∧ ∀ a ∈ as, a.Calm P X
  | .eitherBelow c a b => c.Calm P X ∧ a.Calm P X ∧ b.Calm P X
  | .elseIfBelow c a d b => c.Calm P X ∧ a.Calm P X ∧ d.Calm P X ∧ b.Calm P X
  | .guardTall c more a => Expr.AllCalm P X (c :: more) ∧ a.Calm P X
  | .declareTall _ x c yes no => X x.text ∧ c.Calm P X ∧ yes.Calm P X ∧ no.Calm P X
  | .branch c body => c.Calm P X ∧ Stmt.AllCalm P X body
  | .branchElse c yes no => c.Calm P X ∧ Stmt.AllCalm P X yes ∧ Stmt.AllCalm P X no
  | .scope body => Stmt.AllCalm P X body
  | .loop head body => head.Calm P X ∧ Stmt.AllCalm P X body
  | .loopBelow head s => head.Calm P X ∧ s.Calm P X

/-- All statements do. -/
def Stmt.AllCalm (P : Callee → Prop) (X : String → Prop) : List Stmt → Prop
  | [] => True
  | s :: ss => s.Calm P X ∧ Stmt.AllCalm P X ss

end

attribute [simp] Expr.Settable Expr.Calm Expr.AllCalm Action.Calm Loop.Calm Stmt.Calm Stmt.AllCalm

section Calm

variable {P : Callee → Prop} {X : String → Prop} {a b : Expr}

@[simp] theorem Expr.calm_operators :
    ((a.lt b).Calm P X ↔ a.Calm P X ∧ b.Calm P X) ∧
      ((a.le b).Calm P X ↔ a.Calm P X ∧ b.Calm P X) ∧
      ((a.gt b).Calm P X ↔ a.Calm P X ∧ b.Calm P X) ∧
      ((a.ge b).Calm P X ↔ a.Calm P X ∧ b.Calm P X) ∧
      ((a.eq b).Calm P X ↔ a.Calm P X ∧ b.Calm P X) ∧
      ((a.ne b).Calm P X ↔ a.Calm P X ∧ b.Calm P X) ∧
      ((a - b).Calm P X ↔ a.Calm P X ∧ b.Calm P X) ∧
      ((a * b).Calm P X ↔ a.Calm P X ∧ b.Calm P X) ∧
      ((a / b).Calm P X ↔ a.Calm P X ∧ b.Calm P X) := by
  and_intros <;> rfl

@[simp] theorem Expr.calm_quote (t : String) : (Expr.quote t).Calm P X := trivial

@[simp] theorem Expr.calm_tenths (n : ℕ) : (Expr.tenths n).Calm P X := trivial

open Platform in
@[simp] theorem Platform.calm_constants :
    symbol.Calm P X ∧ point.Calm P X ∧ digits.Calm P X ∧ pipFactor.Calm P X := by
  and_intros <;> trivial

open Platform in
@[simp] theorem Platform.calm_unary :
    ((symbolDouble a).Calm P X ↔ P (.function "SymbolInfoDouble") ∧ a.Calm P X) ∧
      ((symbolInteger a).Calm P X ↔ P (.function "SymbolInfoInteger") ∧ a.Calm P X) ∧
      ((positionDouble a).Calm P X ↔ P (.function "PositionGetDouble") ∧ a.Calm P X) ∧
      ((positionInteger a).Calm P X ↔ P (.function "PositionGetInteger") ∧ a.Calm P X) ∧
      ((accountDouble a).Calm P X ↔ P (.function "AccountInfoDouble") ∧ a.Calm P X) ∧
      ((normalizePrice a).Calm P X ↔ P (.function "NormalizeDouble") ∧ a.Calm P X) ∧
      ((magnitude a).Calm P X ↔ P (.function "MathAbs") ∧ a.Calm P X) := by
  simp [symbolDouble, symbolInteger, positionDouble, positionInteger, accountDouble, normalizePrice,
    magnitude, Ident.text]

@[simp] theorem Platform.calm_larger : (Platform.larger a b).Calm P X ↔
    P (.function "MathMax") ∧ a.Calm P X ∧ b.Calm P X := by
  simp [Platform.larger, Ident.text]

@[simp] theorem Platform.calm_price : (Platform.bid.Calm P X ↔ P (.function "SymbolInfoDouble")) ∧
    (Platform.ask.Calm P X ↔ P (.function "SymbolInfoDouble")) := by
  simp [Platform.bid, Platform.ask]

@[simp] theorem Stmt.calm_declare {type : String} {x : Ident} :
    (Stmt.declare type x a).Calm P X ↔ X x.text ∧ a.Calm P X := Iff.rfl

@[simp] theorem Stmt.calm_assign :
    (Stmt.assign a b).Calm P X ↔ a.Calm P X ∧ a.Settable X ∧ b.Calm P X := Iff.rfl

@[simp] theorem Stmt.calm_run : (Stmt.run a).Calm P X ↔ a.Calm P X := Iff.rfl

@[simp] theorem Stmt.allCalm_append {ss ts : List Stmt} :
    Stmt.AllCalm P X (ss ++ ts) ↔ Stmt.AllCalm P X ss ∧ Stmt.AllCalm P X ts := by
  induction ss with
  | nil => simp
  | cons s ss ih => simp only [List.cons_append, Stmt.AllCalm, ih, and_assoc]

end Calm

/-! ## What calm code keeps -/

section Kept

variable {R : World → World → Prop} {P : Callee → Prop} {X : String → Prop} {s t u : State}
  {call : Caller} (hR : Along R) (hcall : call.Respects P R)

include hcall in
theorem kept_request {q : Query} (hq : q.Among P) (s : State) :
    Kept R X s (s.request call q).2 :=
  ⟨hcall q hq s.world, fun _ _ => rfl⟩

include hR

theorem Kept.refl (s : State) : Kept R X s s :=
  ⟨hR.of_quiet (.refl _), fun _ _ => rfl⟩

theorem Kept.trans (h : Kept R X s t) (h' : Kept R X t u) : Kept R X s u :=
  ⟨hR.trans h.world h'.world, fun x hx => (h'.locals x hx).trans (h.locals x hx)⟩

theorem kept_declare {x : String} (hx : X x) (v : Value) (s : State) :
    Kept R X s (s.declare x v) := by
  refine ⟨hR.of_quiet (.refl _), fun y hy => if_neg ?_⟩
  rintro rfl
  exact hy hx

theorem kept_setGlobal (x : String) (v : Value) (s : State) :
    Kept R X s (s.setGlobal x v) :=
  ⟨hR.of_quiet ⟨rfl, rfl, rfl⟩, fun _ _ => rfl⟩

theorem kept_set {x : String} (hx : X x) (v : Value) (s : State) :
    Kept R X s (s.set x v) := by
  rw [State.set]
  split
  · exact kept_declare hR hx v s
  · exact kept_setGlobal hR x v s

/-- What two pieces of code keep, one after the other, if the first runs on. -/
theorem kept_andThen {r : Flow × State} {next : State → Flow × State}
    (hfirst : Kept R X s r.2) (hnext : ∀ t, Kept R X t (next t).2) :
    Kept R X s (Flow.andThen r next).2 := by
  obtain ⟨flow, t⟩ := r
  cases flow with
  | on => exact hfirst.trans hR (hnext t)
  | skip => exact hfirst
  | stop => exact hfirst
  | ret v => exact hfirst

theorem kept_rounds {test : State → Value × State} {body : State → Flow × State}
    {next : State → State} (htest : ∀ s, Kept R X s (test s).2) (hbody : ∀ s, Kept R X s (body s).2)
    (hnext : ∀ s, Kept R X s (next s)) :
    ∀ (n : ℕ) (s : State), Kept R X s (rounds test body next n s).2
  | 0, s => .refl hR s
  | n + 1, s => by
    -- The body ends in one of four ways, and only after the first two is there another round.
    have hround := (htest s).trans hR (hbody _)
    have hrest (t : State) := (hnext t).trans hR (kept_rounds htest hbody hnext n _)
    simp only [rounds]
    split
    · revert hround
      rcases body (test s).2 with ⟨_ | _ | _ | v, t⟩
      · exact fun hround => hround.trans hR (hrest t)
      · exact fun hround => hround.trans hR (hrest t)
      · exact id
      · exact id
    · exact htest s

include hcall

theorem kept_store {target : Expr}
    (h : target.Settable X) (v : Value) (s : State) : Kept R X s (s.store call target v) := by
  cases target with
  | name x => exact kept_set hR h v s
  | _ => exact kept_request (q := .write _ _) hcall trivial s

set_option linter.unusedSectionVars false in
mutual

theorem Expr.kept_eval :
    ∀ (e : Expr), e.Calm P X → ∀ s, Kept R X s (e.eval call s).2
  | .lit _, _, s | .name _, _, s => .refl hR s
  | .call _ args, h, s =>
    (Expr.kept_evalAll args h.2 s).trans hR (kept_request (q := .call _ _) hcall h.1 _)
  | .send _ _ args, h, s =>
    (Expr.kept_evalAll args h.2 s).trans hR (kept_request (q := .send _ _ _) hcall h.1 _)
  | .member e _, h, s =>
    (Expr.kept_eval e h s).trans hR (kept_request (q := .field _ _) hcall trivial _)
  | .index a k, h, s =>
    ((Expr.kept_eval a h.1 s).trans hR (Expr.kept_eval k h.2 _)).trans hR
      (kept_request (q := .element _ _) hcall trivial _)
  | .not e, h, s | .neg e, h, s | .cast _ e, h, s | .group e, h, s => Expr.kept_eval e h s
  | .increased e, h, s | .increasing e, h, s =>
    (Expr.kept_eval e h.1 s).trans hR (kept_store hR hcall h.2 _ _)
  | .binary _ a b, h, s =>
    (Expr.kept_eval a h.1 s).trans hR (Expr.kept_eval b h.2 _)
  | .all parts, h, s => Expr.kept_evalAnd parts h s
  | .any parts, h, s => Expr.kept_evalOr parts h s
  | .choice c yes no, h, s => by
    have hc := Expr.kept_eval c h.1 s
    simp only [Expr.eval]
    split
    · exact hc.trans hR (Expr.kept_eval yes h.2.1 _)
    · exact hc.trans hR (Expr.kept_eval no h.2.2 _)

theorem Expr.kept_evalAll :
    ∀ (es : List Expr), Expr.AllCalm P X es → ∀ s, Kept R X s (Expr.evalAll call es s).2
  | [], _, s => .refl hR s
  | e :: es, h, s =>
    (Expr.kept_eval e h.1 s).trans hR (Expr.kept_evalAll es h.2 _)

theorem Expr.kept_evalAnd :
    ∀ (es : List Expr), Expr.AllCalm P X es → ∀ s, Kept R X s (Expr.evalAnd call es s).2
  | [], _, s => .refl hR s
  | e :: es, h, s => by
    have he := Expr.kept_eval e h.1 s
    simp only [Expr.evalAnd]
    split
    · exact he.trans hR (Expr.kept_evalAnd es h.2 _)
    · exact he

theorem Expr.kept_evalOr :
    ∀ (es : List Expr), Expr.AllCalm P X es → ∀ s, Kept R X s (Expr.evalOr call es s).2
  | [], _, s => .refl hR s
  | e :: es, h, s => by
    have he := Expr.kept_eval e h.1 s
    simp only [Expr.evalOr]
    split
    · exact he
    · exact he.trans hR (Expr.kept_evalOr es h.2 _)

end

theorem Action.kept_exec :
    ∀ (a : Action), a.Calm P X → ∀ s, Kept R X s (a.exec call s).2
  | .declare _ _ none _, h, s => kept_declare hR h _ s
  | .declare _ _ (some e) _, h, s =>
    (Expr.kept_eval hR hcall e h.2 s).trans hR (kept_declare hR h.1 _ _)
  | .declareStatic _ x e, h, s => by
    simp only [Action.exec]
    split
    · exact .refl hR s
    · exact (Expr.kept_eval hR hcall e h s).trans hR (kept_setGlobal hR _ _ _)
  | .assign target e, h, s =>
    ((Expr.kept_eval hR hcall e h.2.2 s).trans hR (Expr.kept_eval hR hcall target h.1 _)).trans hR
      (kept_store hR hcall h.2.1 _ _)
  | .add target e, h, s | .subtract target e, h, s =>
    ((Expr.kept_eval hR hcall target h.1 s).trans hR (Expr.kept_eval hR hcall e h.2.2 _)).trans hR
      (kept_store hR hcall h.2.1 _ _)
  | .increment target, h, s | .decrement target, h, s =>
    (Expr.kept_eval hR hcall target h.1 s).trans hR (kept_store hR hcall h.2 _ _)
  | .run e, h, s | .retWith e, h, s => Expr.kept_eval hR hcall e h s
  | .declareArray _ _, _, s | .ret, _, s | .skip, _, s | .stop, _, s => .refl hR s

theorem Action.kept_execAll :
    ∀ (as : List Action), (∀ a ∈ as, a.Calm P X) → ∀ s, Kept R X s (Action.execAll call as s).2
  | [], _, s => .refl hR s
  | a :: as, h, s =>
    kept_andThen hR (a.kept_exec hR hcall (h a List.mem_cons_self) s) fun t =>
      Action.kept_execAll as (fun b hb => h b (List.mem_cons_of_mem _ hb)) t

theorem Expr.kept_decideOn {c : Expr}
    (hc : c.Calm P X) {yes no : State → Flow × State} (hyes : ∀ s, Kept R X s (yes s).2)
    (hno : ∀ s, Kept R X s (no s).2) (s : State) :
    Kept R X s (c.decideOn call yes no s).2 := by
  have htest := c.kept_eval hR hcall hc s
  simp only [Expr.decideOn]
  split
  · exact htest.trans hR (hyes _)
  · exact htest.trans hR (hno _)

theorem Loop.kept_exec {bound : ℕ}
    {body : State → Flow × State} (hbody : ∀ s, Kept R X s (body s).2) :
    ∀ (l : Loop), l.Calm P X → ∀ s, Kept R X s (l.exec call bound body s).2
  | .count _ first test _, h, s =>
    ((first.kept_eval hR hcall h.2.1 s).trans hR (kept_declare hR h.1 _ _)).trans hR
      (kept_rounds hR (test.kept_eval hR hcall h.2.2) hbody (fun t => kept_set hR h.1 _ t) bound _)
  | .during c, h, s =>
    kept_rounds hR (c.kept_eval hR hcall h) hbody (fun t => .refl hR t) bound s

set_option linter.unusedSectionVars false in
mutual

theorem Stmt.kept_exec (bound : ℕ) :
    ∀ (c : Stmt), c.Calm P X → ∀ s, Kept R X s (c.exec call bound s).2
  | .blank, _, s | .note _, _, s | .heading _, _, s => .refl hR s
  | .act a, h, s => a.kept_exec hR hcall h s
  | .remarked c _, h, s | .deeper c, h, s => Stmt.kept_exec bound c h s
  | .guard _ a, h, s | .guardBelow _ a, h, s =>
    Expr.kept_decideOn hR hcall h.1 (a.kept_exec hR hcall h.2) (.refl hR) s
  | .guardAll _ as, h, s =>
    Expr.kept_decideOn hR hcall h.1 (Action.kept_execAll hR hcall as h.2) (.refl hR) s
  | .eitherBelow _ a b, h, s =>
    Expr.kept_decideOn hR hcall h.1 (a.kept_exec hR hcall h.2.1) (b.kept_exec hR hcall h.2.2) s
  | .elseIfBelow _ a _ b, h, s =>
    Expr.kept_decideOn hR hcall h.1 (a.kept_exec hR hcall h.2.1)
      (Expr.kept_decideOn hR hcall h.2.2.1 (b.kept_exec hR hcall h.2.2.2) (.refl hR)) s
  | .guardTall c more a, h, s =>
    Expr.kept_decideOn (c := .all (c :: more)) hR hcall h.1 (a.kept_exec hR hcall h.2) (.refl hR) s
  | .declareTall _ _ c yes no, h, s =>
    ((Expr.choice c yes no).kept_eval hR hcall h.2 s).trans hR (kept_declare hR h.1 _ _)
  | .branch _ body, h, s =>
    Expr.kept_decideOn hR hcall h.1 (Stmt.kept_execAll bound body h.2) (.refl hR) s
  | .branchElse _ yes no, h, s =>
    Expr.kept_decideOn hR hcall h.1 (Stmt.kept_execAll bound yes h.2.1)
      (Stmt.kept_execAll bound no h.2.2) s
  | .scope body, h, s => Stmt.kept_execAll bound body h s
  | .loop head body, h, s =>
    head.kept_exec hR hcall (Stmt.kept_execAll bound body h.2) h.1 s
  | .loopBelow head c, h, s =>
    head.kept_exec hR hcall (Stmt.kept_exec bound c h.2) h.1 s

/-- **Calm code keeps** what its calls keep, and all variables that it does not set. -/
theorem Stmt.kept_execAll (bound : ℕ) :
    ∀ (cs : List Stmt), Stmt.AllCalm P X cs → ∀ s, Kept R X s (Stmt.execAll call bound cs s).2
  | [], _, s => .refl hR s
  | c :: cs, h, s =>
    kept_andThen hR (Stmt.kept_exec bound c h.1 s) (Stmt.kept_execAll bound cs h.2)

end

end Kept

/-! ## One statement after the other -/

section Sequences

variable {call : Caller} {bound : ℕ} {c : Expr} {a : Action} {body yes no rest : List Stmt}
  {s : State}

theorem Flow.andThen_assoc (r : Flow × State) (f g : State → Flow × State) :
    Flow.andThen (Flow.andThen r f) g = Flow.andThen r fun s => Flow.andThen (f s) g := by
  obtain ⟨flow, s⟩ := r
  cases flow <;> rfl

theorem Stmt.execAll_append (call : Caller) (bound : ℕ) :
    ∀ (ss ts : List Stmt) (s : State), Stmt.execAll call bound (ss ++ ts) s =
      Flow.andThen (Stmt.execAll call bound ss s) (Stmt.execAll call bound ts)
  | [], _, _ => rfl
  | c :: cs, ts, s => by
    rw [List.cons_append, Stmt.execAll, Stmt.execAll, Flow.andThen_assoc]
    congr 1
    funext t
    exact Stmt.execAll_append call bound cs ts t

theorem Stmt.execAll_branch : Stmt.execAll call bound (.branch c body :: rest) s =
    Stmt.execAll call bound (if (c.eval call s).1.isTrue then body ++ rest else rest)
      (c.eval call s).2 := by
  simp only [Stmt.execAll, Stmt.exec, Expr.decideOn]
  split
  · rw [Stmt.execAll_append]
  · rfl

theorem Stmt.execAll_branchElse : Stmt.execAll call bound (.branchElse c yes no :: rest) s =
    Stmt.execAll call bound ((if (c.eval call s).1.isTrue then yes else no) ++ rest)
      (c.eval call s).2 := by
  simp only [Stmt.execAll, Stmt.exec, Expr.decideOn, Stmt.execAll_append]
  split <;> rfl

/-- An action that stands under a condition runs before the rest, or not. -/
theorem Stmt.execAll_guard : Stmt.execAll call bound (.guard c a :: rest) s =
    Stmt.execAll call bound (if (c.eval call s).1.isTrue then .act a :: rest else rest)
      (c.eval call s).2 := by
  simp only [Stmt.execAll, Stmt.exec, Expr.decideOn]
  split <;> rfl

theorem Stmt.execAll_declare {type : String} {x : Ident} :
    Stmt.execAll call bound (.declare type x c :: rest) s =
      Stmt.execAll call bound rest ((c.eval call s).2.declare x.text (c.eval call s).1) := rfl

variable {R R' : World → World → Prop} {P : Callee → Prop} {X : String → Prop} {t : State}

theorem Kept.mono (h : Kept R' X s t) (hsub : ∀ {w w'}, R' w w' → R w w') : Kept R X s t :=
  ⟨hsub h.world, h.locals⟩

theorem Kept.weaken {Y : String → Prop} (h : Kept R X s t) (hsub : ∀ x, X x → Y x) : Kept R Y s t :=
  ⟨h.world, fun x hx => h.locals x fun hX => hx (hsub x hX)⟩

theorem Stmt.kept_append {ss ts : List Stmt} (hR : Along R)
    (hfirst : Kept R X s (Stmt.execAll call bound ss s).2)
    (hsecond : ∀ t, t = (Stmt.execAll call bound ss s).2 → Kept R X s t →
      Kept R X t (Stmt.execAll call bound ts t).2) :
    Kept R X s (Stmt.execAll call bound (ss ++ ts) s).2 := by
  rw [Stmt.execAll_append]
  revert hfirst hsecond
  rcases Stmt.execAll call bound ss s with ⟨_ | _ | _ | v, t⟩
  · exact fun hfirst hsecond => hfirst.trans hR (hsecond t rfl hfirst)
  · exact fun hfirst _ => hfirst
  · exact fun hfirst _ => hfirst
  · exact fun hfirst _ => hfirst

theorem Stmt.kept_after_calm {ss ts : List Stmt} (hR : Along R) (hR' : Along R')
    (hsub : ∀ {w w'}, R' w w' → R w w') (hcall : call.Respects P R') (hss : Stmt.AllCalm P X ss)
    (hts : ∀ t, Kept R' X s t → Kept R X t (Stmt.execAll call bound ts t).2) :
    Kept R X s (Stmt.execAll call bound (ss ++ ts) s).2 := by
  have hcalm := Stmt.kept_execAll hR' hcall bound ss hss s
  refine Stmt.kept_append hR (hcalm.mono hsub) fun t ht _ => hts t ?_
  rw [ht]
  exact hcalm

end Sequences

end TradeGraph.Mql

import TradeGraph.Proofs.ClosedRuns
import TradeGraph.Proofs.Contributions
import TradeGraph.Proofs.Markers

/-!
# References of compiled programs

A compiled program refers only to what it declares: its inputs, the variables of its signals and the
functions of its helper section.
-/

namespace TradeGraph

open List Mql

/-! ## The scope of a program -/

/-- The names of the functions that every program has. -/
def Library.standardNames : List String :=
  Library.standardFunctions.map fun f => f.name.text

def Program.scope (p : Program) : Scope where
  inputs := {w | ∃ i ∈ p.inputs, i.name.text = w}
  vars := {w | ∃ g ∈ p.globals, g.name.text = w}
  functions := {w | w ∈ Library.standardNames ∨ ∃ h ∈ p.helpers, w ∈ keyNames h.key}

theorem Program.covers_scope (p : Program) : p.scope.Covers p where
  inputs i hi := ⟨i, hi, rfl⟩
  globals g hg := ⟨g, hg, rfl⟩
  helpers h hh _ hf := .inr ⟨h, hh, hf⟩

theorem Program.loose_scope (p : Program) : p.scope.loose = p.scope :=
  Scope.loose_mk _ _ _

theorem Program.scope_hasStandard (p : Program) :
    ∀ f ∈ Library.standardFunctions, p.scope.HasFunction f.name :=
  fun _ hf => .inl (mem_map_of_mem hf)

theorem Program.scope_compares (p : Program) : Library.Compares p.scope where
  above := .inl (by decide)
  below := .inl (by decide)
  notBelow := .inl (by decide)
  notAbove := .inl (by decide)

/-! ## Signals -/

section Signals

variable {σ : Scope}

theorem getElem?_of_mapM_indicator? : ∀ {nodes : List Node}
    {entries : List (Node × Signal × Indicator)}, nodes.mapM Node.indicator? = some entries →
      ∀ {i : Nat} {e : Node × Signal × Indicator}, entries[i]? = some e →
        ∃ n, nodes[i]? = some n ∧ n.indicator? = some e
  | [], entries, h, i, e, he => by
    cases h
    cases he
  | n :: ns, entries, h, i, e, he => by
    rw [mapM_cons] at h
    obtain ⟨first, hfirst, h⟩ := Option.bind_eq_some_iff.mp h
    obtain ⟨rest, hrest, h⟩ := Option.bind_eq_some_iff.mp h
    cases h
    cases i with
    | zero =>
      cases he
      exact ⟨n, rfl, hfirst⟩
    | succ i => exact getElem?_of_mapM_indicator? hrest he

theorem Mql.Scope.HasIndicator.hasFilter {i : Nat} {role : FilterRole} {a : Indicator}
    (h : σ.HasIndicator i a) (hfits : role.Fits a) : σ.HasFilter i role := by
  cases role with
  | trend =>
    obtain ⟨p, rfl⟩ := hfits
    exact h
  | confirm =>
    obtain ⟨p, rfl⟩ := hfits
    exact h
  | strength =>
    obtain ⟨p, rfl⟩ := hfits
    exact ⟨h.1, h.2.2.2⟩

/-- If the markers of all indicators fit, the scope has what their conditions refer to. -/
theorem Mql.Scope.HasIndicators.hasSignals {nodes : List Node} (h : σ.HasIndicators nodes)
    (hfits : ∀ n ∈ nodes, ∀ signal indicator, n.data.payload = .indicator signal indicator →
      signal.Fits indicator)
    {entries : List (Node × Signal × Indicator)}
    (hentries : nodes.mapM Node.indicator? = some entries) : σ.HasSignals entries := by
  have hall {i : Nat} {n : Node} {signal : Signal} {indicator : Indicator}
      (he : entries[i]? = some (n, signal, indicator)) :
      σ.HasIndicator i indicator ∧ signal.Fits indicator := by
    obtain ⟨m, hm, hindicator⟩ := getElem?_of_mapM_indicator? hentries he
    obtain ⟨-, hp⟩ := Node.indicator?_eq_some hindicator
    exact ⟨h i m hm signal indicator hp, hfits m (mem_of_getElem? hm) signal indicator hp⟩
  refine ⟨fun i n signal indicator he => (hall he).1, fun i n signal indicator role he hrole => ?_,
    fun i fast slow hpair => ?_⟩
  · obtain ⟨hhas, hfit⟩ := hall he
    exact hhas.hasFilter (hfit.filter role hrole)
  · obtain ⟨id, hcross, -⟩ := pairAt?_eq_some_iff.mp hpair
    have hleg {fast : Bool} {j : Nat} (hj : LastLeg (entries.map fun e => e.2.1) id fast j) :
        σ.HasBuffer (indVar j "Buffer") := by
      obtain ⟨s, hs, hleg⟩ := Option.bind_eq_some_iff.mp hj.leg
      rw [getElem?_map] at hs
      obtain ⟨⟨n, signal, indicator⟩, he, rfl⟩ := Option.map_eq_some_iff.mp hs
      obtain ⟨hhas, hfit⟩ := hall he
      obtain ⟨p, rfl⟩ := hfit.leg (Option.isSome_of_eq_some hleg)
      exact hhas
    exact ⟨hleg hcross.fast, hleg hcross.slow⟩

end Signals

/-! ## The scope of a compile -/

section Compiles

variable {σ : Scope} {g : Graph} {project : String} {options : Options} {c : Compiled}

theorem Run.covers_code {ss : List Step} {p q : Program} (h : Run ss p q) (hcovers : σ.Covers q)
    {s : Step} (hs : s ∈ ss) : ∃ m, σ.Covers (s m).code := by
  obtain ⟨m, r, -, rfl⟩ := h.exists_of_mem hs
  exact ⟨m, (Scope.covers_append.mp (Scope.covers_append.mp hcovers).1).2⟩

/-- The program of a compile is the end of a run of the steps for its live nodes. -/
theorem Graph.run_of_roles (h : (g.compile project options).result = .ok c) :
    Run (laterSteps (Roles.ofNodes g.liveNodes) (expand g.nodes g.edges).edges g.knownIds c.context)
      (generalInputs c.context.settings) c.program := by
  obtain ⟨r, hsort, -, hrun⟩ := Graph.run_of_compile h
  rw [Graph.sort_liveNodes] at hsort
  cases hsort
  exact hrun

theorem Graph.general_scope (h : (g.compile project options).result = .ok c) :
    Library.General c.program.scope := by
  obtain ⟨r, hr⟩ := (Graph.run_of_roles h).exists_append
  have hcovers := c.program.covers_scope
  rw [hr] at hcovers ⊢
  have hinputs := (Scope.covers_append.mp hcovers).1.inputs
  simp only [generalInputs, forall_mem_cons] at hinputs
  exact ⟨hinputs.1, hinputs.2.1⟩

/-- **The scope of a compiled program serves its steps**, if no node of the graph sets a marker. -/
theorem Graph.serves_scope (hunmarked : ∀ n ∈ g.nodes, n.Unmarked)
    (h : (g.compile project options).result = .ok c) :
    c.program.scope.Serves (Roles.ofNodes g.liveNodes) := by
  have hrun := Graph.run_of_roles h
  have hcovers := c.program.covers_scope
  have hindicators : c.program.scope.HasIndicators (Roles.ofNodes g.liveNodes).indicators := by
    intro i n hn signal indicator hp
    obtain ⟨m, hm⟩ := hrun.covers_code hcovers (mem_laterSteps_iff.mpr (.inl (.indicator hn)))
    simp only [always, emitIndicator, hp] at hm
    exact hasIndicator_of_covers hm rfl
  have hread := Scope.mayRead_of_elements (σ := c.program.scope) rfl
  refine ⟨Graph.general_scope h, fun _ _ _ _ _ => trivial, fun _ => ⟨trivial, trivial⟩,
    c.program.scope_compares, hindicators, ?_, ?_, ?_, hread _ _, hread _ _⟩
  · intro i n hn timeframe action hp
    obtain ⟨m, hm⟩ := hrun.covers_code hcovers (mem_laterSteps_iff.mpr (.inl (.priceAction hn)))
    simp only [always, emitPriceAction, hp] at hm
    exact hasAction_of_covers hm
  · intro entries hentries
    exact hindicators.hasSignals (fun n hn =>
      Graph.fits_of_mem_liveNodes hunmarked (mem_filter.mp hn).1) hentries
  · intro side n s hn hsizing hpending
    obtain ⟨m, hm⟩ := hrun.covers_code hcovers (mem_laterSteps_iff.mpr (.inl (.order hn)))
    obtain ⟨-, t, hp⟩ := payload_of_order hn
    rw [Node.sizing?, hp] at hsizing
    cases hsizing
    simp only [emitOrder, hp] at hm
    exact (hasOrder_of_covers hm).offset hpending

/-- A compiled program is closed in a scope that serves its steps and has what it declares. -/
theorem Graph.closedIn (h : (g.compile project options).result = .ok c)
    (hserves : σ.Serves (Roles.ofNodes g.liveNodes)) (hcovers : σ.Covers c.program)
    (hpass : "ManageOpenPositions" ∈ σ.reserved) : c.program.ClosedIn σ :=
  ((Graph.run_of_roles h).consistent hserves
    (fun _ hs => (mem_laterSteps_iff.mp hs).imp_right fun hs => hs.imp_right fun hs => ⟨hs, hpass⟩)
    hcovers (generalInputs_consistent _)).closed

/-- **A compiled program is closed** in its own scope, if no node of the graph sets a marker. -/
theorem Graph.closedIn_scope (hunmarked : ∀ n ∈ g.nodes, n.Unmarked)
    (h : (g.compile project options).result = .ok c) : c.program.ClosedIn c.program.scope :=
  Graph.closedIn h (Graph.serves_scope hunmarked h) c.program.covers_scope trivial

end Compiles

/-! ## Texts -/

namespace Program

variable {p : Program}

/-- The texts of the helper blocks. -/
def blocks (p : Program) : List String :=
  p.helpers.map fun h => h.body.written

def helperSection (p : Program) : String :=
  Source.helpers p.blocks

theorem ClosedIn.helperSection_defines (h : p.ClosedIn p.scope)
    (hgeneral : Library.General p.scope) :
    Defines p.scope p.helperSection (Library.standardNames ++ p.helpers.flatMap Helper.names) :=
  p.loose_scope ▸ Source.helpers_defines (Library.standard_closed hgeneral p.scope_hasStandard)
    fun k hk => (h.helpers k hk).closed

theorem ClosedIn.definedFunctions_of_mem (h : p.ClosedIn p.scope)
    (hgeneral : Library.General p.scope) {f : String} (hf : f ∈ p.scope.functions) :
    f ∈ definedFunctions p.helperSection := by
  rw [(h.helperSection_defines hgeneral).definedFunctions, mem_append, mem_flatMap]
  refine hf.imp id ?_
  rintro ⟨k, hk, hfk⟩
  exact ⟨k, hk, by rwa [(h.helpers k hk).names]⟩

/-- What is printed outside of the handler of ticks. -/
def quietTexts (p : Program) : List String :=
  p.initLines ++ p.deinitLines ++ p.helperSection :: p.blocks

theorem ClosedIn.stands (h : p.ClosedIn p.scope) (hgeneral : Library.General p.scope) :
    ∀ text ∈ p.quietTexts, Stands p.scope text := by
  intro text htext
  simp only [quietTexts, mem_append, mem_cons] at htext
  rcases htext with (hinit | hdeinit) | rfl | hblock
  · exact p.loose_scope ▸ (Stmt.block_stands p.init h.init).stands text hinit
  · exact p.loose_scope ▸ (Stmt.block_stands p.deinit h.deinit).stands text hdeinit
  · exact (h.helperSection_defines hgeneral).1
  · obtain ⟨k, hk, rfl⟩ := mem_map.mp hblock
    exact p.loose_scope ▸ (Helper.written_defines (h.helpers k hk).closed).1

theorem ClosedIn.tick_stands (h : p.ClosedIn p.scope) :
    ∀ line ∈ p.tickLines, Stands p.scope.free line :=
  (Stmt.block_stands p.tick h.tick.closed_free).stands

theorem ClosedIn.declares_of_mem (h : p.ClosedIn p.scope) {w : String} (hw : w ∈ p.scope.vars) :
    ∃ x ∈ p.globals, declaredName? x.text = some w := by
  obtain ⟨x, hx, rfl⟩ := hw
  exact ⟨x, hx, Global.declaredName_text (h.globals x hx)⟩

end Program

/-- **References are declared.** In a program that was compiled from a document whose nodes set no
markers, every word that names an input names one of the program; every variable of a signal is
declared by a global or, on a tick, by a line before the one that uses it; and every function that
is called is one of the platform or defined in the helper section. -/
theorem references_declared {document : Json} {g : Graph} (hload : Graph.load document = .ok g)
    (hunmarked : ∀ n ∈ g.nodes, n.Unmarked) {project : String} {options : Options} {c : Compiled}
    (h : (compile document project options).result = .ok c) :
    let p := c.program
    (∀ text ∈ p.quietTexts ++ p.tickLines, ∀ w ∈ words text, isInputName w = true →
      ∃ i ∈ p.inputs, i.name.text = w) ∧
    (∀ text ∈ p.quietTexts, ∀ w ∈ words text, isSignalName w = true →
      ∃ x ∈ p.globals, declaredName? x.text = some w) ∧
    (∀ before line rest, p.tickLines = before ++ line :: rest → ∀ w ∈ usedWords line,
      isSignalName w = true → (∃ x ∈ p.globals, declaredName? x.text = some w) ∨
        ∃ l ∈ before, declaredName? l = some w) ∧
    ∀ text ∈ p.quietTexts ++ p.tickLines, ∀ f ∈ calls text,
      f ∈ platformCalls ∨ f ∈ definedFunctions p.helperSection := by
  rw [compile, hload] at h
  have hclosed := Graph.closedIn_scope hunmarked h
  have hgeneral := Graph.general_scope h
  -- inputs and functions are looked up in the same way before and after declarations
  have hstands : ∀ text ∈ c.program.quietTexts ++ c.program.tickLines,
      (∀ w ∈ words text, isInputName w = true → w ∈ c.program.scope.inputs) ∧
        ∀ f ∈ calls text, c.program.scope.Offers f := by
    intro text htext
    rcases mem_append.mp htext with htext | htext
    · have := hclosed.stands hgeneral text htext
      exact ⟨fun w hw => (words_of_stands this hw).1, fun f hf => calls_of_stands this hf⟩
    · have := hclosed.tick_stands text htext
      refine ⟨fun w hw => (words_of_stands this hw).1, fun f hf => ?_⟩
      exact (calls_of_stands this hf : c.program.scope.free.Offers f)
  refine ⟨fun text htext w hw hinput => (hstands text htext).1 w hw hinput,
    fun text htext w hw hsignal => ?_, fun before line rest hsplit w hw hsignal => ?_,
    fun text htext f hf => ?_⟩
  · exact hclosed.declares_of_mem
      ((words_of_stands (hclosed.stands hgeneral text htext) hw).2.1 hsignal)
  · exact (usedWords_inTurn hclosed.tick hsplit w hw hsignal).imp hclosed.declares_of_mem id
  · exact ((hstands text htext).2 f hf).imp id (hclosed.definedFunctions_of_mem hgeneral)

theorem references_declared_crossover :
    Graph.load crossoverDocument = .ok crossoverGraph ∧
      (∀ n ∈ crossoverGraph.nodes, n.Unmarked) ∧
      ∃ c, (compile crossoverDocument "Test" {}).result = .ok c ∧
        ∀ line ∈ c.program.tickLines, ∀ w ∈ words line, isInputName w = true →
          ∃ i ∈ c.program.inputs, i.name.text = w := by
  have hload : Graph.load crossoverDocument = .ok crossoverGraph := rfl
  have hunmarked : ∀ n ∈ crossoverGraph.nodes, n.Unmarked := by
    have hcategories : ∀ n ∈ crossoverGraph.nodes, n.category ≠ .indicator := by decide
    intro n hn signal indicator hp
    refine absurd ?_ (hcategories n hn)
    rw [Node.category, Node.kind, hp]
    cases indicator <;> rfl
  obtain ⟨c, hresult⟩ : ∃ c, (compile crossoverDocument "Test" {}).result = .ok c :=
    compile_ok_of_methods hload (by decide) "Test"
  obtain ⟨hinputs, -⟩ := references_declared hload hunmarked hresult
  exact ⟨hload, hunmarked, c, hresult, fun line hline =>
    hinputs line (mem_append_right _ hline)⟩

end TradeGraph

import TradeGraph.Proofs.Distinct
import TradeGraph.Proofs.Inputs
import TradeGraph.Proofs.Lexical

/-!
# Lexical shape of emitted files

A file is made of sections that end in an empty line. Each leaves no literal and no bracket open:
its lines are those of closed trees, of inputs with plain labels, or of text from the document made
into a literal.
-/

namespace TradeGraph

open List Mql

variable {nodes : List Node} {ls : List String} {s : Settings}

/-! ## Sections -/

theorem section_toList (ls : List String) : (Text.lines (ls ++ [""])).toList = terminated ls := by
  have hall : (Text.lines (ls ++ [""])).toList ++ ['\n'] = terminated ls ++ ['\n'] := by
    rw [lines_toList (by simp), terminated_append]
    rfl
  exact append_cancel_right hall

namespace Mql

theorem Settles.lines (h : Settles ls) : Settles [Text.lines ls] := by
  cases ls with
  | nil => exact .line .empty
  | cons l ls =>
    rw [Settles, terminated_cons]
    exact (lines_toList (cons_ne_nil l ls)).symm ▸ h

theorem Settles.of_each (h : ∀ l ∈ ls, Settles [l]) : Settles ls := by
  induction ls with
  | nil => exact .nil
  | cons l ls ih =>
    rw [forall_mem_cons] at h
    exact h.1.append (ih h.2)

theorem Settles.apart : ∀ {ts : List String}, (∀ t ∈ ts, Settles [t]) →
    Settles ["\n\n".intercalate ts]
  | [], _ => .line .empty
  | [t], h => by
    rw [String.intercalate_singleton]
    exact h t mem_cons_self
  | t :: u :: ts, h => by
    rw [forall_mem_cons] at h
    have hblank : Settles [""] := .line .empty
    have := (h.1.append hblank).append (apart h.2)
    simpa [Settles, terminated] using this

theorem Passes.of_settles (h : Settles ls) : Passes (Text.lines (ls ++ [""])) := by
  rw [Passes, section_toList]
  exact h

end Mql

theorem Source.titled_passes {title : String} (htitle : OneLine title) (h : Settles ls) :
    Passes (Source.titled title ls) :=
  .of_settles ((Function.banner_settles htitle).append h)

theorem Source.handler_passes {title signature : String} {body : List String}
    (htitle : OneLine title) (hsignature : Passes signature) (h : Settles body) :
    Passes (Source.handler title signature body) :=
  Source.titled_passes htitle (.cons hsignature h.braces)

/-! ## The header -/

theorem oneLine_identifier (s : String) : OneLine (identifier s) := by
  intro hbreak
  rw [identifier, String.toList_map] at hbreak
  obtain ⟨c, -, hc⟩ := mem_map.mp hbreak
  split at hc
  · rename_i hident
    rw [hc] at hident
    revert hident
    decide
  · revert hc
    decide

theorem Source.header_passes {ctx : Context} (hname : OneLine ctx.projectName) :
    Passes (Source.header ctx) := by
  have htitle : OneLine (ctx.projectName ++ ".mq5") := by
    simpa [OneLine] using hname
  have hbar : Settles [bar] := fun _ => rfl
  have hproperty {w t : String} (hw : Passes w) : Settles [w ++ literal t] :=
    .line (hw.append (.literal t))
  have hversion : Settles ["#property version   \"1.00\""] := fun _ => rfl
  have hmade : OneLine "Generated by QuantDSL strategy compiler" := by decide
  have hsection := Passes.of_settles (hbar.append ((Function.titleLine_settles htitle).append
    ((Function.titleLine_settles hmade).append (hbar.append
      ((hproperty (w := "#property copyright ") (t := ctx.options.copyright)
        (.of_all (by decide))).append (hversion.append
          (hproperty (w := "#property description ") (t := ctx.settings.comment)
            (.of_all (by decide)))))))))
  rw [Source.header]
  simpa only [cons_append, nil_append] using hsection

/-! ## Inputs -/

theorem escape_of_isLabel {s : String} (h : isLabel s = true) : escape s = s := by
  have hsame (cs : List Char) (hcs : ∀ c ∈ cs, isLabelChar c = true) :
      cs.flatMap escapeChar = cs := by
    induction cs with
    | nil => rfl
    | cons c cs ih =>
      rw [forall_mem_cons] at hcs
      have hc := hcs.1
      simp [isLabelChar] at hc
      rw [flatMap_cons, ih hcs.2]
      simp [escapeChar, hc]
  rw [escape, hsame _ (all_eq_true.mp h), String.ofList_toList]

theorem isWord_sweptPeriod (name : String) : isWord (sweptPeriod name) = true := by
  have hknown : ∀ t ∈ sweptTimeframes, isWord ("TF_" ++ t) = true := by decide
  rw [sweptPeriod]
  split
  · rename_i h
    exact hknown name (contains_iff_mem.mp h)
  · decide

theorem Input.initialText_passes {i : Input} (h : Fits i.type i.value) :
    isWord i.type = true ∧ Passes i.initialText := by
  rw [Input.initialText]
  revert h
  generalize i.type = type, i.value = value
  rintro (n | x | n | t | name)
  · exact ⟨by decide, Passes.composes.numeral int_numeral⟩
  · exact ⟨by decide, Passes.composes.numeral (plainText_numeral x)⟩
  · exact ⟨by decide, Passes.composes.numeral int_numeral⟩
  · exact ⟨by decide, .literal t⟩
  · exact ⟨by decide, Passes.composes.word (isWord_sweptPeriod name)⟩

theorem Input.declaration_settles {i : Input} (h : i.Sourced s nodes) :
    Settles [i.declaration] := by
  obtain ⟨htype, htext⟩ := Input.initialText_passes h.supplied.fits
  have hkeyword : Passes (if i.optimizable then "input " else "sinput ") := by
    cases i.optimizable <;> exact .of_all (by decide)
  have hcode : Passes ((if i.optimizable then "input " else "sinput ") ++ i.type ++ " " ++
      i.name.text ++ " = " ++ i.initialText ++ ";") :=
    (((((hkeyword.append (Passes.composes.word htype)).append (.of_all (by decide))).append
      (Passes.composes.word h.name)).append (.of_all (by decide))).append htext).append
      (.of_all (by decide))
  have hsplit : "; // " ++ i.comment = ";" ++ (" // " ++ i.comment) := by
    rw [← String.append_assoc]
    rfl
  have hline := Settles.remark hcode (oneLine_of_isLabel h.comment)
  rw [String.append_assoc, ← hsplit, ← String.append_assoc] at hline
  exact hline

theorem Source.groupedInputs_settles :
    ∀ {is : List Input} {current : Option String}, AllSourced s nodes is →
      Settles (Source.groupedInputs current is)
  | [], _, _ => .nil
  | i :: is, current, h => by
    rw [allSourced_cons] at h
    have hgroup : Settles ["input group \"" ++ i.groupName ++ "\""] := by
      have := (Passes.of_all (s := "input group ") (by decide)).append (.literal i.groupName)
      rw [literal, escape_of_isLabel h.1.groupName] at this
      exact .line (by simpa [← String.append_assoc] using this)
    have hblank : Settles [""] := .line .empty
    refine Settles.append ?_ ((Input.declaration_settles h.1).append (groupedInputs_settles h.2))
    split
    · exact .nil
    · split
      · exact hgroup
      · exact hblank.append hgroup

theorem Source.timeframeEnum_settles : Settles Source.timeframeEnum := by
  have hopen : Moves [] (terminated ["enum " ++ Source.timeframeType, "\x7b"]) ['\x7b'] :=
    fun _ => rfl
  have hclose : Moves ['\x7b'] (terminated ["\x7d;", ""]) [] := fun _ => rfl
  have hmember : ∀ name ∈ sweptTimeframes, ∀ last, Settles [Source.timeframeMember last name] := by
    have hcode : ∀ name ∈ sweptTimeframes, ∀ last : Bool,
        (Text.padRight 21 ("TF_" ++ name ++ " = PERIOD_" ++ name ++
          (if last then "" else ","))).toList.all isQuiet = true := by decide +kernel
    have hname : ∀ name ∈ sweptTimeframes, isLabel name = true := by decide
    intro name hmem last
    have hline : OneLine (" " ++ name) := by
      simpa [OneLine] using oneLine_of_isLabel (hname name hmem)
    have := Settles.after (.of_all (hcode name hmem last)) (.comment hline)
    simpa [Source.timeframeMember, ← String.append_assoc] using this
  have hmembers : ∀ l ∈ sweptTimeframes.zipIdx.map fun x =>
      Source.timeframeMember (x.2 + 1 == sweptTimeframes.length) x.1, Settles [l] := by
    intro l hl
    obtain ⟨x, hx, rfl⟩ := mem_map.mp hl
    exact hmember x.1 (fst_mem_of_mem_zipIdx hx) _
  have := (hopen.trans (((Settles.of_each hmembers).indent 1).within ['\x7b'])).trans hclose
  rwa [← terminated_append, ← terminated_append] at this

theorem Source.inputs_passes {is : List Input} (h : AllSourced s nodes is) :
    Passes (Source.inputs is) := by
  refine .of_settles ((Settles.append ?_ (Function.banner_settles (by simp [OneLine]))).append
    (Source.groupedInputs_settles h))
  split
  · exact Source.timeframeEnum_settles
  · exact .nil

/-! ## Globals, handlers and helpers -/

section Closed

variable {σ : Scope} {p : Program}

theorem Source.globals_passes (h : ∀ g ∈ p.globals, g.Closed σ) :
    Passes (Source.globals (p.globals.map Global.text)) := by
  have hfactor : Settles ["int _pipFactor = 1; // 10 on 3/5-digit symbols"] := fun _ => rfl
  refine Source.titled_passes (by simp [OneLine]) (hfactor.append (.of_each fun l hl => ?_))
  obtain ⟨g, hg, rfl⟩ := mem_map.mp hl
  exact Global.settles (h g hg)

theorem Source.startup_closed (hmagic : σ.HasInput "InpMagicNumber")
    (hslippage : σ.HasInput "InpMaxSlippage") : Stmt.AllClosed σ Source.startup := by
  simp +decide [Source.startup, Library.magic, hmagic, hslippage]

theorem Source.tickStart_closed (hcount : σ.HasFunction "CountPositions")
    (hbars : σ.HasFunction "Bars") (hreturn : "return" ∈ σ.reserved) (bars : Int) :
    Stmt.AllClosed σ (Source.tickStart bars) := by
  simp +decide [Source.tickStart, Source.warmupGuard, hcount, hbars, hreturn]

theorem Source.onInit_passes (h : Stmt.AllClosed σ p.init)
    (hstart : Stmt.AllClosed σ Source.startup) : Passes (Source.onInit p.initLines) := by
  have hend : Settles (Stmt.block [.blank, .act (.retWith "INIT_SUCCEEDED")]) := fun _ => rfl
  exact Source.handler_passes (by simp [OneLine]) (fun _ => rfl)
    (((Stmt.block_settles _ hstart).append (Stmt.block_settles _ h)).append hend)

theorem Source.onDeinit_passes (h : Stmt.AllClosed σ p.deinit) :
    Passes (Source.onDeinit p.deinitLines) :=
  Source.handler_passes (by simp [OneLine]) (fun _ => rfl) (Stmt.block_settles _ h)

theorem Source.onTick_passes (h : Stmt.AllClosed σ p.tick) {bars : Int}
    (hstart : Stmt.AllClosed σ (Source.tickStart bars)) :
    Passes (Source.onTick p.tickLines bars) :=
  Source.handler_passes (by simp [OneLine]) (fun _ => rfl)
    ((Stmt.block_settles _ hstart).append (Stmt.block_settles _ h))

theorem Function.text_settles {f : Function} (h : f.Closed σ) : Settles [f.text] :=
  (Function.lines_settle h).lines

theorem Library.standard_settles (h : ∀ f ∈ Library.standardFunctions, f.Closed σ) :
    ∀ t ∈ Library.standard, Settles [t] := by
  rw [Library.standardFunctions, forall_mem_cons] at h
  simp only [Library.standard, forall_mem_cons, not_mem_nil, false_implies, implies_true,
    and_true]
  refine ⟨Function.text_settles h.1, (Settles.of_all fun l hl => ?_).lines⟩
  obtain ⟨f, hf, rfl⟩ := mem_map.mp hl
  refine Function.oneLine_passes (h.2 f hf) ?_
  simp only [Library.comparisons, mem_cons, not_mem_nil, or_false] at hf
  rcases hf with rfl | rfl | rfl | rfl <;> simp [Library.comparison, Stmt.isSimple]

theorem Source.helpers_passes (hstandard : ∀ f ∈ Library.standardFunctions, f.Closed σ)
    (h : ∀ k ∈ p.helpers, k.Closed σ) :
    Passes (Source.helpers (p.helpers.map fun k => k.body.written)) := by
  have hwritten : ∀ t ∈ p.helpers.map fun k => k.body.written, Settles [t] := by
    intro t ht
    obtain ⟨k, hk, rfl⟩ := mem_map.mp ht
    rw [(h k hk).body]
    refine .apart fun t ht => ?_
    obtain ⟨f, hf, rfl⟩ := mem_map.mp ht
    exact Function.text_settles ((h k hk).functions f hf)
  exact Source.titled_passes (by simp [OneLine])
    (.apart (forall_mem_append.mpr ⟨Library.standard_settles hstandard, hwritten⟩))

end Closed

/-! ## Files -/

/-- A closed program with sources for its inputs makes a file that leaves nothing open. -/
theorem Program.source_passes {p : Program} {ctx : Context} (hname : OneLine ctx.projectName)
    (hinputs : AllSourced s nodes p.inputs) (hclosed : p.ClosedIn Scope.all) :
    Passes (p.source ctx) := by
  have hincludes : Passes Source.includes := fun _ => rfl
  rw [Program.source, Text.lines]
  refine Passes.composes.intercalate (by decide) ?_
  simp only [forall_mem_cons, not_mem_nil, false_implies, implies_true, and_true]
  exact ⟨Source.header_passes hname, hincludes, Source.inputs_passes hinputs,
    Source.globals_passes hclosed.globals,
      Source.onInit_passes hclosed.init (Source.startup_closed trivial trivial),
    Source.onDeinit_passes hclosed.deinit,
    Source.onTick_passes hclosed.tick.closed_free
      (Source.tickStart_closed (σ := Scope.all.free) trivial trivial trivial _),
    Source.helpers_passes (Library.standard_closed Scope.all_general fun _ _ => trivial)
      fun k hk => (hclosed.helpers k hk).closed⟩

/-- **Compiled strategies are lexically well-formed.** Whatever the document, the project name and
the options say: every literal of the file ends on its line, and the brackets outside of literals
and comments are nested and closed. -/
theorem source_wellFormed {document : Json} {project : String} {options : Options} {c : Compiled}
    (h : (compile document project options).result = .ok c) : WellFormed c.source := by
  rw [compile] at h
  split at h
  · cases h
  rename_i g hload
  obtain ⟨r, -, hcontext, -⟩ := Graph.run_of_compile h
  have hname : OneLine c.context.projectName := by
    rw [hcontext]
    exact oneLine_identifier project
  exact Program.source_passes hname (Graph.sourced h) (Graph.closedIn_all h) []

/-- A strategy whose comment opens a literal, a bracket and a comment, and ends its line. -/
def unrulyDocument : Json :=
  .obj [("nodes", .arr [.node "rsi" "rsi", .node "buy" "place-buy"]),
    ("settings", .obj [("comment", .str "\"(\x7b // \\\n[")])]

theorem source_wellFormed_unruly :
    ∃ c, (compile unrulyDocument "a\n(b" { copyright := "]\"" }).result = .ok c ∧
      c.context.settings.comment = "\"(\x7b // \\\n[" ∧ WellFormed c.source := by
  obtain ⟨c, hc, hcomment⟩ := Compilation.exists_of_map
    (x := compile unrulyDocument "a\n(b" { copyright := "]\"" })
    (f := fun c => c.context.settings.comment) (a := "\"(\x7b // \\\n[") (by decide +kernel)
  exact ⟨c, hc, hcomment, source_wellFormed hc⟩

end TradeGraph

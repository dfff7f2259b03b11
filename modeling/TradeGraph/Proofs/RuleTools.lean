import TradeGraph.Proofs.Moves

/-!
# The functions that rules call

A rule asks tables and sets stops through functions of the program. The tables do nothing to
positions, and the function that sets a stop sets the one that it is given.
-/

namespace TradeGraph

open List Mql Rule

variable {f stem : String}
variable {stems : List String} {P : Callee → Prop} {R : World → World → Prop}

/-! ## Names -/

/-- The functions that look up and change tables. -/
def tableStems : List String :=
  ["IsPartialClosed", "MarkPartialClosed", "GetMLTPLevel", "SetMLTPLevel"]

/-- The functions that clear tables. -/
def pruneStems : List String :=
  ["PrunePartialClosed", "PruneMLTPStates"]

def ruleStems : List String :=
  ["CheckBreakevenStop", "CheckTrailingStop", "CheckPartialClose", "CheckLockProfit",
    "CheckMultiLevelTP"]

/-- The functions for open positions. -/
def managedStems : List String :=
  "SafePositionModify" :: tableStems ++ pruneStems ++ ruleStems

/-- The function for open positions that is called like this, perhaps with a number. -/
def stem? (f : String) : Option String :=
  managedStems.find? fun stem => stem.toList.isPrefixOf f.toList

theorem stem?_append (h : stem ∈ managedStems) (suffix : String) :
    stem? (stem ++ suffix) = some stem := by
  -- No stem starts another one, so the first that fits is the only one.
  have hapart : ∀ a ∈ managedStems, ∀ b ∈ managedStems, a.toList <+: b.toList → a = b := by decide
  have hstart : stem.toList.isPrefixOf (stem ++ suffix).toList = true := by
    rw [ isPrefixOf_iff_prefix, String.toList_append]
    exact prefix_append _ _
  cases hfind : stem? (stem ++ suffix) with
  | none => exact absurd hstart (find?_eq_none.mp hfind stem h)
  | some other =>
    have hother := mem_of_find?_eq_some hfind
    have hprefix := find?_some hfind
    rw [ isPrefixOf_iff_prefix] at hstart hprefix
    rcases prefix_or_prefix_of_prefix hstart hprefix with hle | hle
    · rw [hapart stem h other hother hle]
    · rw [hapart other hother stem h hle]

theorem stem?_name (h : stem ∈ managedStems) (k : RuleNumber) :
    stem? (k.name stem).text = some stem := by
  rw [RuleNumber.name, Ident.text, String.append_assoc]
  exact stem?_append h _

/-! ## Calls -/

/-- The function is one of these, perhaps with a number. -/
def CalledLike (stems : List String) (f : String) : Prop :=
  ∃ stem ∈ stems, stem? f = some stem

theorem calledLike_name (h : stem ∈ stems) (hmanaged : stem ∈ managedStems)
    (k : RuleNumber) : CalledLike stems (k.name stem).text :=
  ⟨stem, h, stem?_name hmanaged k⟩

theorem not_calledLike (hname : stem? f = some stem) (h : stem ∉ stems) :
    ¬ CalledLike stems f := by
  rintro ⟨other, hother, hother'⟩
  cases hname.symm.trans hother'
  exact h hother

/-- Functions of the platform that select nothing, and tables. -/
def QuietCall : Callee → Prop
  | .function f => f ∈ platformCalls ∧ f ∉ selectCalls ∨ CalledLike tableStems f
  | .method _ _ => False

/-- Functions of the platform, and tables. -/
def IdleCall : Callee → Prop
  | .function f => f ∈ platformCalls ∨ CalledLike tableStems f ∨ CalledLike pruneStems f
  | .method _ _ => False

/-- These, and all methods but the one that sets stops. -/
def StillCall : Callee → Prop
  | .function f => IdleCall (.function f)
  | .method _ m => m ≠ "PositionModify"

/-- What rules need of calls: the platform performs what it is asked for, tables do nothing to
positions, and stops are set if they are fine. -/
structure Mql.Caller.Serves (F : Move → Prop) (market : Market) (call : Caller) : Prop where
  platform : ∀ f ∈ platformCalls, ∀ args w, call (.call f args) w = perform market (.call f args) w
  direct : ∀ q : Query, (∀ f args, q ≠ .call f args) → ∀ w, call q w = perform market q w
  table : ∀ f, CalledLike tableStems f → ∀ args (w : World), w.Quiet (call (.call f args) w).2
  prune : ∀ f, CalledLike pruneStems f → ∀ args (w : World), w.Idle (call (.call f args) w).2
  modify : ∀ (t stop target : Value) (w : World),
    (∀ p, w.position? t.toNum = some p → F ⟨p, stop.toNum⟩) →
      w.Later F (call (.call "SafePositionModify" [t, stop, target]) w).2

/-- A relation is respected if it holds along calls of functions and of methods: all other questions
go to the platform, and change nothing. -/
theorem Mql.Caller.respects_of {market : Market} {call : Caller} (hR : Along R)
    (hdirect : ∀ q : Query, (∀ f args, q ≠ .call f args) → ∀ w, call q w = perform market q w)
    (hcall : ∀ f args, P (.function f) → ∀ w, R w (call (.call f args) w).2)
    (hsend : ∀ r m args, P (.method r m) → ∀ w, R w (perform market (.send r m args) w).2) :
    call.Respects P R := by
  intro q hq w
  cases q with
  | call f args => exact hcall f args hq w
  | send r m args =>
    rw [hdirect _ (by simp)]
    exact hsend r m args hq w
  | _ =>
    rw [hdirect _ (by simp)]
    exact hR.of_quiet (ask_quiet market _ w)

namespace Mql.Caller.Serves

variable {F : Move → Prop} {market : Market} {call : Caller}

theorem quiet (h : call.Serves F market) : call.Respects QuietCall World.Quiet := by
  refine Caller.respects_of along_quiet h.direct (fun f args hf w => ?_) fun _ _ _ hm => hm.elim
  rcases hf with ⟨hplatform, hselect⟩ | htable
  · rw [h.platform f hplatform]
    exact perform_quiet (q := .call f args) hselect w
  · exact h.table f htable args w

theorem idle (h : call.Serves F market) : call.Respects IdleCall World.Idle := by
  refine Caller.respects_of along_idle h.direct (fun f args hf w => ?_) fun _ _ _ hm => hm.elim
  rcases hf with hplatform | htable | hprune
  · rw [h.platform f hplatform]
    exact perform_idle (q := .call f args) trivial w
  · exact (h.table f htable args w).idle
  · exact h.prune f hprune args w

theorem still (h : call.Serves F market) : call.Respects StillCall World.Still :=
  Caller.respects_of along_still h.direct (fun f args hf w => (h.idle (.call f args) hf w).still)
    fun r m args hm w => perform_still (q := .send r m args) hm w

end Mql.Caller.Serves

/-! ## Tables -/

section Functions

variable {market : Market} {functions : List Function} {bound : ℕ}

theorem callAt_platform (hf : f ∈ platformCalls) (depth : ℕ) (args : List Value) (w : World) :
    callAt market functions bound depth (.call f args) w = perform market (.call f args) w := by
  cases depth with
  | zero => rfl
  | succ depth => rw [callAt, if_pos hf]

theorem callAt_direct {q : Query} (hq : ∀ f args, q ≠ .call f args) (depth : ℕ) (w : World) :
    callAt market functions bound depth q w = perform market q w := by
  cases q with
  | call f args => exact absurd rfl (hq f args)
  | _ => cases depth <;> rfl

theorem Mql.Function.run_world (f : Function) (call : Caller) (bound : ℕ) (args : List Value)
    (w : World) : (f.run call bound args w).2 =
      (Stmt.execAll call bound f.body ⟨f.enter args, w⟩).2.world := by
  rw [Function.run]
  split
  · rename_i h
    rw [h]
  · rename_i h
    rw [h]

/-- Functions of the platform that select nothing. -/
def PlatformQuiet : Callee → Prop
  | .function f => f ∈ platformCalls ∧ f ∉ selectCalls
  | .method _ _ => False

/-- Functions of the platform, and methods that change no position. -/
def PlatformCall : Callee → Prop
  | .function f => f ∈ platformCalls
  | .method _ m => m ∉ tradeMethods

theorem callAt_quiet (depth : ℕ) :
    (callAt market functions bound depth).Respects PlatformQuiet World.Quiet := by
  refine Caller.respects_of along_quiet (fun q hq w => callAt_direct hq depth w)
    (fun f args hf w => ?_) fun _ _ _ hm => hm.elim
  rw [callAt_platform hf.1]
  exact perform_quiet (q := .call f args) hf.2 w

theorem callAt_idle (depth : ℕ) :
    (callAt market functions bound depth).Respects PlatformCall World.Idle := by
  refine Caller.respects_of along_idle (fun q hq w => callAt_direct hq depth w)
    (fun f args hf w => ?_) fun r m args hm w => perform_idle (q := .send r m args) hm w
  rw [callAt_platform hf]
  exact perform_idle (q := .call f args) trivial w

structure Mql.Function.OfTable (f : Function) : Prop where
  calm : Stmt.AllCalm PlatformCall (fun _ => True) f.body
  named : CalledLike tableStems f.name.text ∨ CalledLike pruneStems f.name.text
  quiet : CalledLike tableStems f.name.text → Stmt.AllCalm PlatformQuiet (fun _ => True) f.body

theorem closedTable_ofTable (k : RuleNumber) : ∀ f ∈ closedTableFunctions k, f.OfTable := by
  have hnamed {stem : String} (h : stem ∈ managedStems) := stem?_name h k
  simp only [closedTableFunctions, forall_mem_cons]
  refine ⟨⟨?_, .inl ⟨_, ?_, hnamed ?_⟩, fun _ => ?_⟩, ⟨?_, .inl ⟨_, ?_, hnamed ?_⟩, fun _ => ?_⟩,
    ⟨?_, .inr ⟨_, ?_, hnamed ?_⟩, fun htable => ?_⟩, by simp⟩
  case refine_12 => exact absurd htable (not_calledLike (hnamed (by decide)) (by decide))
  all_goals simp +decide [Library.downFrom, selectTicket, PlatformCall, PlatformQuiet]

theorem levelTable_ofTable : ∀ f ∈ levelTableFunctions, f.OfTable := by
  have hnamed {stem : String} (h : stem ∈ managedStems) : stem? stem = some stem := by
    simpa using stem?_append h ""
  simp only [levelTableFunctions, forall_mem_cons]
  refine ⟨⟨?_, .inl ⟨_, ?_, hnamed ?_⟩, fun _ => ?_⟩, ⟨?_, .inl ⟨_, ?_, hnamed ?_⟩, fun _ => ?_⟩,
    ⟨?_, .inr ⟨_, ?_, hnamed ?_⟩, fun htable => ?_⟩, by simp⟩
  case refine_12 => exact absurd htable (not_calledLike (hnamed (by decide)) (by decide))
  all_goals simp +decide [Library.downFrom, selectTicket, PlatformCall, PlatformQuiet, levelEntry,
    levelCount]

/-! ## Setting stops -/

theorem safeModify_later {F : Move → Prop} {depth : ℕ} {t stop target : Value} {w : World}
    (h : ∀ p, w.position? t.toNum = some p → F ⟨p, stop.toNum⟩) :
    w.Later F
      (safeModify.run (callAt market functions bound depth) bound [t, stop, target] w).2 := by
  let call := callAt market functions bound depth
  let X (x : String) : Prop := x ∉ ["ticket", "sl", "tp"]
  let sets : Expr := .send "trade" "PositionModify" ["ticket", "sl", "tp"]
  let start : State := ⟨safeModify.enter [t, stop, target], w⟩
  have hpre : Stmt.AllCalm PlatformCall X (safeModify.body.take 4) := by
    simp +decide [safeModify, selectTicket, PlatformCall, X]
  have hlater : call.Respects PlatformCall (World.Later F) := fun q hq w =>
    (callAt_idle depth q hq w).still.later
  suffices hkept : Kept (World.Later F) X start
      (Stmt.execAll call bound (safeModify.body.take 4 ++ safeModify.body.drop 4) start).2 by
    rw [Function.run_world, ← take_append_drop 4 safeModify.body]
    exact hkept.world
  refine Stmt.kept_after_calm (along_later F) along_idle (fun hidle => hidle.still.later)
    (callAt_idle depth) hpre fun s hs => ?_
  have hlocal {x : String} (hx : x ∈ ["ticket", "sl", "tp"]) : s.locals x = start.locals x :=
    hs.locals x (not_not.mpr hx)
  have hticket : s.lookup "ticket" = t := State.lookup_of_local (by decide) (hlocal (by decide))
  have hstop : s.lookup "sl" = stop := State.lookup_of_local (by decide) (hlocal (by decide))
  have htarget : s.lookup "tp" = target := State.lookup_of_local (by decide) (hlocal (by decide))
  have hsets : (sets.eval call s).2.world =
      (perform market (.send "trade" "PositionModify" [t, stop, target]) s.world).2 := by
    rw [← hticket, ← hstop, ← htarget]
    exact congrArg Prod.snd (callAt_direct (by simp) depth s.world)
  have hmoved : Kept (World.Later F) X s (Expr.eval call (.not sets) s).2 := by
    refine ⟨?_, fun _ _ => rfl⟩
    show s.world.Later F (sets.eval call s).2.world
    rw [hsets]
    refine modify_later fun p hp => h p ?_
    rwa [hs.world.position?_eq] at hp
  show Kept _ X s (Stmt.execAll call bound [.branch (.not sets) _, _] s).2
  rw [Stmt.execAll_branch]
  -- what comes after that reports a failure
  refine hmoved.trans (along_later F) (Stmt.kept_execAll (along_later F) hlater bound _ ?_ _)
  split <;> simp +decide [PlatformCall]

/-! ## Programs -/

/-- Functions that are called like one for open positions are of a table, of a rule, or the one that
sets stops. -/
def Managed (functions : List Function) : Prop :=
  ∀ f ∈ functions, ∀ stem, stem? f.name.text = some stem →
    stem ∈ ruleStems ∨ f.OfTable ∨ f = safeModify

/-- A call is performed by the platform, or runs a function of that name. -/
theorem callAt_call (f : String) (args : List Value) (depth : ℕ) (w : World) :
    callAt market functions bound depth (.call f args) w = perform market (.call f args) w ∨
      ∃ g ∈ functions, g.name.text = f ∧ ∃ below,
        callAt market functions bound depth (.call f args) w =
          g.run (callAt market functions bound below) bound args w := by
  cases depth with
  | zero => exact .inl rfl
  | succ depth =>
    rw [callAt]
    split
    · exact .inl rfl
    · split
      · rename_i g hg
        exact .inr ⟨g, mem_of_find?_eq_some hg, by simpa using find?_some hg, depth, rfl⟩
      · exact .inl rfl

theorem tableStems_apart : ∀ stem ∈ tableStems ++ pruneStems, stem ∉ ruleStems := by
  decide

theorem not_mem_selectCalls (h : stem? f = some stem) : f ∉ selectCalls := by
  have hnone : ∀ g ∈ selectCalls, stem? g = none := by decide
  intro hf
  rw [hnone f hf] at h
  cases h

theorem run_of_calm {call : Caller} {f : Function}
    (hR : Along R) (hcall : call.Respects P R) (hf : Stmt.AllCalm P (fun _ => True) f.body)
    (args : List Value) (w : World) : R w (f.run call bound args w).2 := by
  rw [Function.run_world]
  exact (Stmt.kept_execAll hR hcall bound f.body hf ⟨f.enter args, w⟩).world

/-- **Calls serve rules**, in a program whose functions for open positions are the known ones. -/
theorem serves_callAt {F : Move → Prop} (h : Managed functions) (depth : ℕ) :
    (callAt market functions bound depth).Serves F market where
  platform f hf args w := callAt_platform hf depth args w
  direct q hq w := callAt_direct hq depth w
  table f hf args w := by
    obtain ⟨stem, hstem, hname⟩ := hf
    rcases callAt_call f args depth w with hcall | ⟨g, hg, rfl, below, hcall⟩
    · rw [hcall]
      exact perform_quiet (q := .call f args) (not_mem_selectCalls hname) w
    · rw [hcall]
      rcases h g hg stem hname with hrule | htable | rfl
      · exact absurd hrule (tableStems_apart stem (mem_append_left _ hstem))
      · have hcalm := htable.quiet ⟨stem, hstem, hname⟩
        exact run_of_calm along_quiet (callAt_quiet below) hcalm args w
      · cases hname
        exact absurd hstem (by decide)
  prune f hf args w := by
    obtain ⟨stem, hstem, hname⟩ := hf
    rcases callAt_call f args depth w with hcall | ⟨g, hg, rfl, below, hcall⟩
    · rw [hcall]
      exact perform_idle (q := .call f args) trivial w
    · rw [hcall]
      rcases h g hg stem hname with hrule | htable | rfl
      · exact absurd hrule (tableStems_apart stem (mem_append_right _ hstem))
      · exact run_of_calm along_idle (callAt_idle below) htable.calm args w
      · cases hname
        exact absurd hstem (by decide)
  modify t stop target w hfine := by
    have hname : stem? "SafePositionModify" = some "SafePositionModify" := by decide
    rcases callAt_call "SafePositionModify" [t, stop, target] depth w with
      hcall | ⟨g, hg, hnamed, below, hcall⟩
    · rw [hcall]
      exact (perform_quiet (q := .call _ _) (not_mem_selectCalls hname) w).later
    · rw [hcall]
      rcases h g hg "SafePositionModify" (hnamed.symm ▸ hname) with hrule | htable | rfl
      · exact absurd hrule (by decide)
      · rcases htable.named with ⟨stem, hstem, hother⟩ | ⟨stem, hstem, hother⟩
        all_goals
          rw [hnamed, hname] at hother
          cases hother
          exact absurd hstem (by decide)
      · exact safeModify_later hfine

end Functions

end TradeGraph

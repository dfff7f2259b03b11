import TradeGraph.Proofs.References

/-!
# Names are declared once

Every part of a program declares names of a family of its own, so two parts clash only if they are
of one kind; then they carry different numbers. Signals and exits are numbered by their place, rules
by counting those that came before.
-/

namespace TradeGraph

open List Mql

variable {ns : List Node} {p program q : Program} {w : String}
variable {P : Ident → Prop} {marker stem suffix : String} {hs : List Helper}

/-! ## Families in use -/

/-- The program declares names of the families, and none twice. -/
def Program.Uses (fs : List Family) (p : Program) : Prop :=
  p.Declares fun x => ∃ f ∈ fs, x.Named f

variable {fs : List Family} {f : Family}

theorem Program.Declares.mono {Q : Ident → Prop} (h : p.Declares P) (hPQ : ∀ x, P x → Q x) :
    p.Declares Q :=
  ⟨fun x hx => hPQ x (h.named x hx), h.nodup⟩

theorem Program.Declares.append_nil (hp : p.Declares P) (hq : q.names = []) :
    (p ++ q).Declares P :=
  (hp.append (Program.declares_nil (P := fun _ => False) hq) fun _ _ _ h => h.elim).mono
    fun _ h => h.elim id False.elim

theorem text_ne_of_not_mem (hf : f ∉ fs) {x y : Ident} (hx : ∃ g ∈ fs, x.Named g)
    (hy : y.Named f) : x.text ≠ y.text := by
  intro htext
  obtain ⟨g, hg, hx⟩ := hx
  obtain ⟨rfl, -⟩ := hx.eq_of_text_eq hy htext
  exact hf hg

theorem Program.Uses.append (hp : p.Uses fs) (hf : f ∉ fs) (hq : q.Declares (Ident.Named f)) :
    (p ++ q).Uses (fs ++ [f]) := by
  refine (Program.Declares.append hp hq fun x y hx hy => text_ne_of_not_mem hf hx hy).mono ?_
  rintro x (⟨g, hg, hx⟩ | hx)
  · exact ⟨g, mem_append_left _ hg, hx⟩
  · exact ⟨f, mem_append_right _ (mem_singleton_self f), hx⟩

theorem Program.Uses.mono {gs : List Family} (h : p.Uses fs) (hsub : ∀ f ∈ fs, f ∈ gs) :
    p.Uses gs :=
  Program.Declares.mono h fun _ ⟨f, hf, hx⟩ => ⟨f, hsub f hf, hx⟩

/-- Names of the families in use, or of one family with the number of a place before. -/
def Before (fs : List Family) (f : Family) (number : Nat → Option Nat) (k : Nat)
    (x : Ident) : Prop :=
  (∃ g ∈ fs, x.Named g) ∨ ∃ j < k, At f (number j) x

section Numbered

variable (number : Nat → Option Nat) (hnumber : Function.Injective number) {Pre : Program → Prop}
  (hmono : ∀ p q, Pre p → Pre (p ++ q)) {s : Node → Nat → Step} (hf : f ∉ fs)

include hnumber hmono hf

/-- Parts of one family from a place on, each with the number of its place. -/
theorem Run.declares_numbered : ∀ {ns : List Node} {k : Nat} {p q : Program},
    p.Declares (Before fs f number k) → Pre p →
    (∀ i n, ns[i]? = some n → ∀ m, Pre m → (s n (k + i) m).code.Declares (At f (number (k + i)))) →
    Run ((ns.zipIdx k).map fun (n, i) => s n i) p q →
    q.Declares (Before fs f number (k + ns.length))
  | [], k, p, q, hp, _, _, hrun => by
    cases hrun
    exact hp
  | n :: ns, k, p, q, hp, hpre, hdeclares, hrun => by
    rw [zipIdx_cons, map_cons] at hrun
    obtain ⟨-, hrest⟩ : _ ∧ Run _ (p ++ (s n k p).code) q := by
      cases hrun with
      | step hs h => exact ⟨hs, h⟩
    have hcode : (s n k p).code.Declares (At f (number k)) := hdeclares 0 n rfl p hpre
    have hnext : (p ++ (s n k p).code).Declares (Before fs f number (k + 1)) := by
      refine (hp.append hcode ?_).mono ?_
      · rintro x y (hx | ⟨j, hj, hx⟩) hy
        · exact text_ne_of_not_mem hf hx hy.1
        · -- the same family, but another place
          intro htext
          obtain ⟨-, -, hsame, -⟩ := hx.1.eq_of_text_eq hy.1 htext
          have : j = k := hnumber (hx.2.symm.trans (hsame.trans hy.2))
          omega
      · rintro x ((hx | ⟨j, hj, hx⟩) | hx)
        · exact .inl hx
        · exact .inr ⟨j, by omega, hx⟩
        · exact .inr ⟨k, by omega, hx⟩
    have hlater := Run.declares_numbered hnext (hmono p _ hpre) (fun i m hm => by
        have := hdeclares (i + 1) m (by simpa using hm)
        rwa [show k + (i + 1) = k + 1 + i by omega] at this) hrest
    rwa [show k + 1 + ns.length = k + (n :: ns).length by simp; omega] at hlater

/-- Parts of one family, each with the number of its place. `Pre` is what the parts before have seen
to; it is not undone. -/
theorem Run.uses_numbered (hp : p.Uses fs) (hpre : Pre p)
    (hdeclares : ∀ i n, ns[i]? = some n → ∀ m, Pre m → (s n i m).code.Declares (At f (number i)))
    (hrun : Run (ns.zipIdx.map fun (n, i) => s n i) p q) : q.Uses (fs ++ [f]) := by
  have hstart : p.Declares (Before fs f number 0) := Program.Declares.mono hp fun _ => .inl
  have hend := Run.declares_numbered number hnumber hmono hf hstart hpre
    (fun i n hn m hm => by simpa using hdeclares i n hn m hm) hrun
  refine hend.mono ?_
  rintro x (⟨g, hg, hx⟩ | ⟨j, -, hx⟩)
  · exact ⟨g, mem_append_left _ hg, hx⟩
  · exact ⟨f, mem_append_right _ (mem_singleton_self f), hx.1⟩

end Numbered

theorem Run.uses_silent {ss : List Step} (hp : p.Uses fs)
    (hsilent : ∀ s ∈ ss, ∀ m, (s m).code.names = []) (hrun : Run ss p q) : q.Uses fs :=
  hrun.invariant (fun s hs m hm _ => Program.Declares.append_nil hm (hsilent s hs m)) hp

theorem Run.uses_step {s : Step} (hp : p.Uses fs) (hf : f ∉ fs)
    (hdeclares : (s p).code.Declares (Ident.Named f)) (hrun : Run [s] p q) :
    q.Uses (fs ++ [f]) := by
  cases hrun with
  | step _ hdone =>
    cases hdone
    exact hp.append hf hdeclares

/-! ## Signals, orders and exits -/

section Plan

variable {r : Roles} {edges : List Edge} {known : List String} {ctx : Context}

def HasCloseTimes (ns : List Node) (p : Program) : Prop :=
  ∀ i n, ns[i]? = some n → n.closeTime?.isSome = true →
    p.hasInput (exitName "InpCloseHour" i).text = true

theorem HasCloseTimes.append (p q : Program) (h : HasCloseTimes ns p) :
    HasCloseTimes ns (p ++ q) := by
  intro i n hn htime
  rw [Program.hasInput_append, h i n hn htime, Bool.true_or]

theorem hasInput_closeTimeCheck (n : Node) (p : TimeExit) (i : Nat) (ctx : Context)
    (program : Program) :
    (program ++ closeTimeCheck n p i ctx program).hasInput
    (exitName "InpCloseHour" i).text = true := by
  rw [Program.hasInput_append]
  simp only [closeTimeCheck]
  split
  · rename_i hthere
    rw [hthere, Bool.true_or]
  · simp [Program.hasInput]

theorem closeTimeChecks_hasInput (ctx : Context) : ∀ (ns : List Node) (k : Nat) (program : Program),
    ∀ i n, ns[i]? = some n → n.closeTime?.isSome = true →
      (program ++ (closeTimeChecks ctx k ns program).1).hasInput
        (exitName "InpCloseHour" (k + i)).text = true
  | [], _, _, i, n, hn, _ => by cases hn
  | m :: ns, k, program, i, n, hn, htime => by
    rw [closeTimeChecks]
    cases i with
    | zero =>
      cases hn
      obtain ⟨p, hp⟩ := Option.isSome_iff_exists.mp htime
      simp only [hp]
      rw [← Program.append_assoc, Program.hasInput_append, Nat.add_zero,
        hasInput_closeTimeCheck, Bool.true_or]
    | succ i =>
      have hlater (program : Program) := closeTimeChecks_hasInput ctx ns (k + 1) program i n
        (by simpa using hn) htime
      rw [show k + (i + 1) = k + 1 + i by omega]
      split
      · exact hlater program
      · rw [← Program.append_assoc]
        exact hlater _

theorem closeTimeChecks_flags (ctx : Context) : ∀ (ns : List Node) (k : Nat) (program : Program),
    (closeTimeChecks ctx k ns program).2 = [] → ∀ n ∈ ns, n.closeTime? = none
  | [], _, _, _ => by simp
  | m :: ns, k, program, h => by
    rw [closeTimeChecks] at h
    cases hm : m.closeTime? with
    | some p =>
      simp only [hm] at h
      cases h
    | none =>
      simp only [hm] at h
      intro n hn
      rcases mem_cons.mp hn with rfl | hn
      · exact hm
      · exact closeTimeChecks_flags ctx ns (k + 1) program h n hn

theorem emitCloseTimeGate_hasCloseTimes (ns : List Node) (ctx : Context) (program : Program) :
    HasCloseTimes ns (program ++ (emitCloseTimeGate ns ctx program).code) := by
  intro i n hn htime
  unfold emitCloseTimeGate
  split
  · rename_i code hnone
    have hflags := closeTimeChecks_flags ctx ns 0 program (by rw [hnone])
      n (mem_of_getElem? hn)
    rw [hflags] at htime
    cases htime
  · rename_i code flags hne hsome
    have hthere := closeTimeChecks_hasInput ctx ns 0 program i n hn htime
    rw [hsome, Nat.zero_add] at hthere
    rw [← Program.append_assoc, Program.hasInput_append, hthere, Bool.true_or]

theorem emitTimeExit_declares {n : Node} {i : Nat} (hn : ns[i]? = some n)
    (h : HasCloseTimes ns program) :
    (emitTimeExit n i ctx program).code.Declares (At .barExit (exitNumber i)) := by
  have hnames := emitTimeExit_names n i ctx program
  split at hnames
  · rename_i p hp
    split at hnames
    · have hbars := closeAfterBars_declares n p i
      exact ⟨fun x hx => hbars.named x (hnames ▸ hx), hnames ▸ hbars.nodup⟩
    · rename_i hmode
      have htime : n.closeTime?.isSome = true := by simp [Node.closeTime?, hp, hmode]
      refine Program.declares_nil (hnames.trans ?_)
      simp only [closeTimeCheck, h i n hn htime, if_true]
      rfl
  · exact Program.declares_nil hnames

theorem Run.uses_option {o : Option Node} {s : Node → Step} (hp : p.Uses fs) (hf : f ∉ fs)
    (hdeclares : ∀ n m, (s n m).code.Declares (Ident.Named f)) (hrun : Run (o.toList.map s) p q) :
    q.Uses (fs ++ o.toList.map fun _ => f) := by
  cases o with
  | none =>
    cases hrun
    exact hp.mono fun g hg => mem_append_left _ hg
  | some n => exact hrun.uses_step hp hf (hdeclares n p)

theorem At.named {number : Option Nat} (x : Ident) (h : At f number x) : x.Named f :=
  h.1

/-- The families of the orders that there are. -/
def Roles.orderFamilies (r : Roles) : List Family :=
  (r.orders.buy.toList.map fun _ => .order .buy) ++ r.orders.sell.toList.map fun _ => .order .sell

theorem Run.uses_risk (hp : p.Uses fs)
    (hnew : ∀ f ∈ [Family.stop, .target, .order .buy, .order .sell], f ∉ fs)
    (hrun : Run (riskSteps r edges known ctx) p q) :
    q.Uses (fs ++ [.stop, .target] ++ r.orderFamilies) := by
  simp only [forall_mem_cons, not_mem_nil, IsEmpty.forall_iff, implies_true,
    and_true] at hnew
  obtain ⟨hstop, htarget, hbuy, hsell⟩ := hnew
  rcases hrun.risk_cases with ⟨-, rfl⟩ | ⟨-, stopped, measured, hfirst, hsecond, horders⟩
  · exact hp.mono fun g hg => mem_append_left _ (mem_append_left _ hg)
  · have hone : stopped.Uses (fs ++ [.stop]) := by
      refine hfirst.uses_step hp hstop ?_
      rw [stopStep]
      cases r.stopLoss.head? with
      | some n => exact (emitStopLoss_declares _ _ _ _ _ _).mono At.named
      | none => exact Program.declares_nil rfl
    have htwo : measured.Uses (fs ++ [.stop] ++ [.target]) := by
      refine hsecond.uses_step hone (by simp [htarget]) ?_
      rw [targetStep]
      cases r.takeProfit.head? with
      | some n => exact (emitTakeProfit_declares _ _).mono At.named
      | none => exact Program.declares_nil rfl
    obtain ⟨bought, hbuys, hsells⟩ := Run.append_iff.mp horders
    have hthree := hbuys.uses_option htwo (f := .order .buy) (by simp [hbuy])
      fun n m => (emitOrder_declares .buy n m).mono At.named
    have hfour := hsells.uses_option (f := .order .sell) hthree (by simp [hsell])
      fun n m => (emitOrder_declares .sell n m).mono At.named
    simpa [Roles.orderFamilies] using hfour

/-- The families of all parts but the rules. -/
def plainFamilies : List Family :=
  [.general, .closeTime, .indicator, .priceAction, .stop, .target, .order .buy,
    .order .sell, .entry, .barExit]

/-- Those that a plan uses. -/
def Roles.plainFamilies (r : Roles) : List Family :=
  [.general, .closeTime, .indicator, .priceAction, .stop, .target] ++ r.orderFamilies ++ [.entry] ++
    [.barExit]

theorem Roles.plainFamilies_subset (r : Roles) :
    ∀ f ∈ r.plainFamilies, f ∈ TradeGraph.plainFamilies := by
  cases hbuy : r.orders.buy <;> cases hsell : r.orders.sell <;>
    simp [Roles.plainFamilies, Roles.orderFamilies, TradeGraph.plainFamilies, hbuy, hsell]

theorem Run.uses_plain (hp : p.Uses [.general])
    (hrun : Run (earlierSteps r edges known ctx) p q) : q.Uses r.plainFamilies := by
  obtain ⟨closed, hrun, htimes⟩ := Run.append_iff.mp hrun
  obtain ⟨entered, hrun, hcloses⟩ := Run.append_iff.mp hrun
  obtain ⟨risked, hrun, hentry⟩ := Run.append_iff.mp hrun
  obtain ⟨signalled, hrun, hrisk⟩ := Run.append_iff.mp hrun
  obtain ⟨indicated, hrun, hactions⟩ := Run.append_iff.mp hrun
  obtain ⟨gated, hrun, hindicators⟩ := Run.append_iff.mp hrun
  obtain ⟨spread, hspread, hrun⟩ := Run.cons_iff.mp hrun
  obtain ⟨opened, htiming, hgate⟩ := Run.cons_iff.mp hrun
  have hopened : opened.Uses [.general] := by
    refine htiming.uses_silent (hspread.uses_silent hp ?_) ?_
    · exact forall_mem_singleton.mpr fun _ => emitSpread_names _
    · exact forall_mem_singleton.mpr fun _ => emitTiming_names _
  have hgated : gated.Uses [.general, .closeTime] :=
    hgate.uses_step hopened (by decide) (emitCloseTimeGate_declares _ ctx opened)
  have hanything : ∀ p q : Program, True → True := fun _ _ h => h
  have hindicated : indicated.Uses [.general, .closeTime, .indicator] :=
    hindicators.uses_numbered some (fun _ _ => Option.some.inj) hanything (by decide)
      hgated trivial fun i n _ m _ => emitIndicator_declares n i
  have hsignalled : signalled.Uses [.general, .closeTime, .indicator, .priceAction] :=
    hactions.uses_numbered some (fun _ _ => Option.some.inj) hanything (by decide)
      hindicated trivial fun i n _ m _ => emitPriceAction_declares n i
  have hrisked := hrisk.uses_risk hsignalled (by decide)
  have hentered := hentry.uses_step (f := .entry) hrisked (by simp [Roles.orderFamilies])
    (emitEntry_declares _ _ _ ctx risked)
  have hclosed := hcloses.uses_silent hentered fun s hs m => by
    obtain ⟨⟨n, i⟩, -, rfl⟩ := mem_map.mp hs
    exact emitCloseCondition_names n i _ _ edges
  -- what the gate has seen to is not undone
  have htimed : HasCloseTimes r.timeExit closed := by
    have hstart : HasCloseTimes r.timeExit gated := by
      cases hgate with
      | step _ hdone =>
        cases hdone
        exact emitCloseTimeGate_hasCloseTimes _ ctx opened
    obtain ⟨a, rfl⟩ := hindicators.exists_append
    obtain ⟨b, rfl⟩ := hactions.exists_append
    obtain ⟨c, rfl⟩ := hrisk.exists_append
    obtain ⟨d, rfl⟩ := hentry.exists_append
    obtain ⟨e, rfl⟩ := hcloses.exists_append
    exact ((((hstart.append _ a).append _ b).append _ c).append _ d).append _ e
  exact htimes.uses_numbered exitNumber (fun _ _ => exitNumber_injective)
    HasCloseTimes.append (by simp [Roles.orderFamilies]) hclosed htimed fun i n hn m hm =>
      emitTimeExit_declares hn hm

end Plan

/-! ## Rules -/

def ruleMarkers : List (Family × String) :=
  [(.breakeven, "InpBELockPips"), (.trailing, "InpTrailStartPips"), (.lock, "InpLockCheckInterval"),
    (.partialClose, "InpPartialClosePercent"), (.levels, "InpMLTP1Pips")]

theorem eq_of_mem_ruleMarkers {v : String} (hv : (f, v) ∈ ruleMarkers) (hw : (f, w) ∈ ruleMarkers) :
    v = w := by
  have hnodup : (ruleMarkers.map Prod.fst).Nodup := by decide
  exact congrArg Prod.snd (inj_on_of_nodup_map hnodup hv hw rfl)

theorem family_of_mem_ruleMarkers (h : (f, w) ∈ ruleMarkers) :
    f ∉ .levelTable :: plainFamilies := by
  have hall : ∀ e ∈ ruleMarkers, e.1 ∉ .levelTable :: plainFamilies := by decide
  exact hall _ h

/-- The next rule has the number of the place after those that are counted. -/
theorem nextRule_eq (p : Program) (marker : String) :
    Rule.nextRule p marker = exitNumber (p.countInputs marker) := by
  unfold Rule.nextRule
  split <;> rename_i h <;> rw [h] <;> rfl

theorem Program.countInputs_append (p q : Program) (marker : String) :
    (p ++ q).countInputs marker = p.countInputs marker + q.countInputs marker :=
  countP_append

/-- No name is declared twice, the rules of each kind are numbered by counting, and there is at most
one table of levels. -/
structure Program.Counted (p : Program) : Prop where
  named : ∀ x ∈ p.names, ∃ f, x.Named f
  nodup : (p.names.map Ident.text).Nodup
  rules : ∀ f marker, (f, marker) ∈ ruleMarkers → ∀ x ∈ p.names, x.Named f →
    ∃ j < p.countInputs marker, x.number = exitNumber j
  table : ∀ x ∈ p.names, x.Named .levelTable → p.mentions "SMLTPState" = true

theorem family_unique {x : Ident} {f g : Family} (hf : x.Named f) (hg : x.Named g) : f = g :=
  Family.eq_of_mem_leads hf.lead hg.lead

theorem Program.Uses.counted (h : p.Uses plainFamilies) : p.Counted where
  named x hx := by
    obtain ⟨f, -, hf⟩ := h.named x hx
    exact ⟨f, hf⟩
  nodup := h.nodup
  rules f marker hmarker x hx hf := by
    obtain ⟨g, hg, hxg⟩ := h.named x hx
    rw [family_unique hxg hf] at hg
    exact absurd (mem_cons_of_mem _ hg) (family_of_mem_ruleMarkers hmarker)
  table x hx htable := by
    obtain ⟨g, hg, hxg⟩ := h.named x hx
    rw [family_unique hxg htable] at hg
    exact absurd hg (by decide)

namespace Program.Counted

variable {p q : Program}

theorem append (hp : p.Counted) (hnodup : (q.names.map Ident.text).Nodup)
    (hnamed : ∀ y ∈ q.names, ∃ f, y.Named f)
    (hnew : ∀ x ∈ p.names, ∀ y ∈ q.names, x.text ≠ y.text)
    (hrules : ∀ f marker, (f, marker) ∈ ruleMarkers → ∀ y ∈ q.names, y.Named f →
      ∃ j < (p ++ q).countInputs marker, y.number = exitNumber j)
    (htable : ∀ y ∈ q.names, y.Named .levelTable → q.mentions "SMLTPState" = true) :
    (p ++ q).Counted where
  named x hx := (Program.mem_names_append.mp hx).elim (hp.named x) (hnamed x)
  nodup := by
    rw [((Program.names_append_perm p q).map Ident.text).nodup_iff, map_append,
      nodup_append]
    refine ⟨hp.nodup, hnodup, fun s hs t ht => ?_⟩
    obtain ⟨x, hx, rfl⟩ := mem_map.mp hs
    obtain ⟨y, hy, rfl⟩ := mem_map.mp ht
    exact hnew x hx y hy
  rules f marker hmarker x hx hf := by
    rcases Program.mem_names_append.mp hx with hx | hx
    · obtain ⟨j, hj, hnumber⟩ := hp.rules f marker hmarker x hx hf
      exact ⟨j, by rw [Program.countInputs_append]; omega, hnumber⟩
    · exact hrules f marker hmarker x hx hf
  table x hx hlevel := by
    rw [Program.mentions_append]
    rcases Program.mem_names_append.mp hx with hx | hx
    · rw [hp.table x hx hlevel, Bool.true_or]
    · rw [htable x hx hlevel, Bool.or_true]

theorem append_rule (hp : p.Counted) (hmarker : (f, marker) ∈ ruleMarkers)
    (hq : q.Declares (At f (Rule.nextRule p marker))) (hcount : 0 < q.countInputs marker) :
    (p ++ q).Counted := by
  rw [nextRule_eq] at hq
  have hfamily := family_of_mem_ruleMarkers hmarker
  refine hp.append hq.nodup (fun y hy => ⟨f, (hq.named y hy).1⟩) (fun x hx y hy htext => ?_)
    (fun g v hv y hy hg => ?_) (fun y hy hlevel => ?_)
  · -- a name of the same family was counted before
    obtain ⟨hy, hynumber⟩ := hq.named y hy
    obtain ⟨g, hxg⟩ := hp.named x hx
    obtain ⟨rfl, -, hsame, -⟩ := hxg.eq_of_text_eq hy htext
    obtain ⟨j, hj, hxnumber⟩ := hp.rules _ marker hmarker x hx hxg
    have := exitNumber_injective (hxnumber.symm.trans (hsame.trans hynumber))
    omega
  · obtain ⟨hyf, hnumber⟩ := hq.named y hy
    obtain rfl := family_unique hyf hg
    obtain rfl := eq_of_mem_ruleMarkers hmarker hv
    exact ⟨_, by rw [Program.countInputs_append]; omega, hnumber⟩
  · rw [family_unique (hq.named y hy).1 hlevel] at hfamily
    exact absurd mem_cons_self hfamily

theorem append_table (hp : p.Counted) (hnone : p.mentions "SMLTPState" = false) :
    (p ++ Rule.levelTable).Counted := by
  have htable := Rule.levelTable_declares
  refine hp.append htable.nodup (fun y hy => ⟨_, (htable.named y hy).1⟩) (fun x hx y hy htext => ?_)
    (fun f marker hmarker y hy hf => ?_) (fun _ _ _ => by decide)
  · obtain ⟨g, hxg⟩ := hp.named x hx
    obtain ⟨rfl, -⟩ := hxg.eq_of_text_eq (htable.named y hy).1 htext
    rw [hp.table x hx hxg] at hnone
    cases hnone
  · have hfamily := family_of_mem_ruleMarkers hmarker
    rw [family_unique hf (htable.named y hy).1] at hfamily
    exact absurd mem_cons_self hfamily

theorem congr (hp : p.Counted) (hinputs : q.inputs = p.inputs) (hglobals : q.globals = p.globals) :
    q.Counted := by
  have hnames : q.names = p.names := by rw [Program.names, Program.names, hinputs, hglobals]
  have hmentions : q.mentions "SMLTPState" = p.mentions "SMLTPState" := by
    rw [Program.mentions, Program.mentions, hglobals]
  have hcount (marker : String) : q.countInputs marker = p.countInputs marker := by
    rw [Program.countInputs, Program.countInputs, hinputs]
  refine ⟨?_, ?_, ?_, ?_⟩
  · rw [hnames]
    exact hp.named
  · rw [hnames]
    exact hp.nodup
  · simp only [hnames, hcount]
    exact hp.rules
  · rw [hnames, hmentions]
    exact hp.table

end Program.Counted

theorem countInputs_pos (number : Option Nat)
    (h : (⟨marker, number, ""⟩ : Ident) ∈ p.inputs.map Input.name) : 0 < p.countInputs marker := by
  obtain ⟨i, hi, hname⟩ := mem_map.mp h
  refine countP_pos_iff.mpr ⟨i, hi, ?_⟩
  rw [hname, Ident.text_eq, String.toList_append]
  exact isPrefixOf_iff_prefix.mpr (prefix_append _ _)

namespace Rule

variable {n : Node} {program : Program}

theorem targetsCode_counted (p : MultiTarget) (h : program.Counted) :
    (program ++ targetsCode n p program).Counted := by
  let k := nextRule program "InpMLTP1Pips"
  have hinputs : (program ++ levelInputsOf n p k).Counted :=
    h.append_rule (f := .levels) (by decide) (levelInputsOf_declares n p k)
      (countInputs_pos k mem_cons_self)
  have htable : (program ++ levelInputsOf n p k ++
      if program.mentions "SMLTPState" then {} else levelTable).Counted := by
    split
    · rwa [Program.append_empty]
    · rename_i hnone
      refine hinputs.append_table ?_
      rw [Program.mentions_append, Bool.not_eq_true _ |>.mp hnone]
      rfl
  refine htable.congr ?_ ?_
  · simp only [targetsCode, Program.append_inputs, levelInputsOf]
    split <;> simp [ruleCode, levelTable, k]
  · simp only [targetsCode, Program.append_globals, levelInputsOf]
    split <;> simp [ruleCode]

end Rule

theorem managementCode_counted {n : Node} (rule : Management) (h : program.Counted) :
    (program ++ managementCode n program rule).Counted := by
  have hcount : 0 < (managementCode n program rule).countInputs rule.marker := by
    refine countInputs_pos (Rule.nextRule program rule.marker) ?_
    rw [inputs_managementCode]
    exact mem_map_of_mem rule.marker_mem_inputStems
  cases rule with
  | breakeven p => exact h.append_rule (by decide) (Rule.breakevenCode_declares n p program) hcount
  | trailing p => exact h.append_rule (by decide) (Rule.trailingCode_declares n p program) hcount
  | partialClose p => exact h.append_rule (by decide) (Rule.partialCode_declares n p program) hcount
  | lockProfit p => exact h.append_rule (by decide) (Rule.lockCode_declares n p program) hcount
  | multiTarget p => exact Rule.targetsCode_counted p h

theorem emitManagement_counted {n : Node} (h : program.Counted) :
    (program ++ (emitManagement n program).code).Counted := by
  rw [emitManagement]
  split
  · rename_i rule hp
    refine (managementCode_counted (n := n) rule h).congr ?_ ?_ <;> simp
  · refine h.congr ?_ ?_ <;> simp [Emission.fail]

/-- **All names of a run differ.** -/
theorem Run.counted {r : Roles} {edges : List Edge} {known : List String} {ctx : Context}
    (h : Run (laterSteps r edges known ctx) (generalInputs ctx.settings) q) : q.Counted := by
  rw [laterSteps_eq] at h
  obtain ⟨managed, h, hpass⟩ := Run.append_iff.mp h
  obtain ⟨exited, h, hrules⟩ := Run.append_iff.mp h
  have hgeneral : (generalInputs ctx.settings).Uses [.general] :=
    (generalInputs_declares ctx.settings).mono fun x hx => ⟨_, mem_singleton_self _, hx.1⟩
  have hexited : exited.Counted := ((h.uses_plain hgeneral).mono r.plainFamilies_subset).counted
  have hmanaged : managed.Counted := by
    refine hrules.invariant (fun s hs m hm _ => ?_) hexited
    obtain ⟨n, -, rfl⟩ := mem_map.mp hs
    exact emitManagement_counted hm
  refine hpass.invariant (fun s hs m hm _ => ?_) hmanaged
  rw [mem_singleton.mp hs, emitPass]
  split <;> exact hm.congr (by simp) (by simp)

/-! ## Functions -/

theorem nodup_keys_joinHelper {h : Helper} (hnodup : (hs.map Helper.key).Nodup) :
    ((Program.joinHelper hs h).map Helper.key).Nodup := by
  by_cases hkey : Program.HasKey hs h.key
  · rwa [Program.joinHelper_of_hasKey hkey]
  · rw [Program.joinHelper_of_not_hasKey hkey, map_append, nodup_append]
    refine ⟨hnodup, nodup_singleton _, ?_⟩
    rintro k hk l hl rfl
    obtain ⟨g, hg, rfl⟩ := mem_map.mp hk
    exact hkey ⟨g, hg, mem_singleton.mp hl⟩

theorem nodup_keys_append (h : (p.helpers.map Helper.key).Nodup) :
    ((p ++ q).helpers.map Helper.key).Nodup := by
  rw [Program.append_helpers]
  generalize p.helpers = hs at h
  induction q.helpers generalizing hs with
  | nil => exact h
  | cons k ks ih => exact ih _ (nodup_keys_joinHelper h)

def ticketStems : List String :=
  ["IsPartialClosed", "MarkPartialClosed", "PrunePartialClosed"]

def levelFunctions : List String :=
  ["GetMLTPLevel", "SetMLTPLevel", "PruneMLTPStates"]

/-- What the functions of a helper block are called, told by its key. -/
inductive KeyCase : String → List String → Prop
  | levels : KeyCase "MLTPStateTable" levelFunctions
  | tickets (suffix : String) :
      KeyCase ("PartialClosedTable" ++ suffix) (ticketStems.map fun stem => stem ++ suffix)
  | free {key : String} : isFree key = true → KeyCase key [key]

theorem keyCase_of_isKey {key : String} (h : isKey key = true) : KeyCase key (keyNames key) := by
  by_cases hlevels : key = "MLTPStateTable"
  · subst hlevels
    exact .levels
  by_cases htickets : "PartialClosedTable".toList.isPrefixOf key.toList = true
  · obtain ⟨suffix, hsuffix⟩ := isPrefixOf_iff_prefix.mp htickets
    have hkey : key = "PartialClosedTable" ++ String.ofList suffix := by
      refine String.toList_inj.mp ?_
      rw [String.toList_append, ← hsuffix]
      exact congrArg _ String.toList_ofList.symm
    subst hkey
    have hnames : keyNames ("PartialClosedTable" ++ String.ofList suffix) =
        ticketStems.map fun stem => stem ++ String.ofList suffix := by
      rw [keyNames, if_neg hlevels, if_pos htickets]
      simp [ticketStems]
    rw [hnames]
    exact .tickets _
  · rw [isKey, Bool.or_eq_true, Bool.or_eq_true, beq_iff_eq] at h
    obtain hfree : isFree key = true := by tauto
    rw [keyNames_of_isFree hfree]
    exact .free hfree

theorem ticket_ne_fixed (hstem : stem ∈ ticketStems) (hw : w ∈ fixedNames) :
    stem ++ suffix ≠ w := by
  have hstart : ∀ s ∈ ticketStems, ∀ v ∈ fixedNames, ¬ s.toList <+: v.toList := by decide
  rintro rfl
  refine hstart stem hstem _ hw ?_
  rw [String.toList_append]
  exact prefix_append _ _

theorem free_ne {key : String} (hfree : isFree key = true)
    (hw : w ∈ fixedNames ∨ ∃ stem ∈ ticketStems, ∃ suffix, w = stem ++ suffix) : key ≠ w := by
  simp only [isFree, Bool.and_eq_true, all_eq_true, bne_iff_ne, Bool.not_eq_true'] at hfree
  rintro rfl
  rcases hw with hw | ⟨stem, hstem, suffix, rfl⟩
  · exact hfree.1 _ hw rfl
  · have hopen : ∀ s ∈ ticketStems, s ∈ openNames := by decide
    have hnot := hfree.2 stem (hopen stem hstem)
    rw [← Bool.not_eq_true, isPrefixOf_iff_prefix, String.toList_append] at hnot
    exact hnot (prefix_append _ _)

/-- Functions of tables of tickets that are called alike belong to the same table. -/
theorem suffix_of_ticket_eq {stem' suffix' : String} (h : stem ∈ ticketStems)
    (h' : stem' ∈ ticketStems) (heq : stem ++ suffix = stem' ++ suffix') : suffix = suffix' := by
  have happart : ∀ s ∈ ticketStems, ∀ t ∈ ticketStems, s.toList <+: t.toList → s = t := by decide
  have hlist := congrArg String.toList heq
  rw [String.toList_append, String.toList_append] at hlist
  have hboth : stem = stem' := by
    rcases prefix_or_prefix_of_prefix (prefix_append stem.toList suffix.toList)
      (hlist ▸ prefix_append stem'.toList suffix'.toList) with hstart | hstart
    · exact happart stem h stem' h' hstart
    · exact (happart stem' h' stem h hstart).symm
  subst hboth
  exact String.toList_inj.mp (append_cancel_left hlist)

theorem levelFunctions_fixed : ∀ w ∈ levelFunctions, w ∈ fixedNames := by
  decide

namespace KeyCase

variable {key key' : String} {names names' : List String}

theorem nodup (h : KeyCase key names) : names.Nodup := by
  cases h with
  | levels => decide
  | tickets suffix =>
    have hstems : ticketStems.Nodup := by decide
    exact hstems.map fun s t heq => String.append_left_inj suffix |>.mp heq
  | free => exact nodup_singleton _

theorem disjoint (h : KeyCase key names) (h' : KeyCase key' names') (hne : key ≠ key') :
    List.Disjoint names names' := by
  intro w hw hw'
  cases h with
  | levels =>
    cases h' with
    | levels => exact hne rfl
    | tickets suffix =>
      obtain ⟨stem, hstem, rfl⟩ := mem_map.mp hw'
      exact ticket_ne_fixed hstem (levelFunctions_fixed _ hw) rfl
    | free hfree =>
      rw [mem_singleton.mp hw'] at hw
      exact free_ne hfree (.inl (levelFunctions_fixed _ hw)) rfl
  | tickets suffix =>
    obtain ⟨stem, hstem, rfl⟩ := mem_map.mp hw
    cases h' with
    | levels => exact ticket_ne_fixed hstem (levelFunctions_fixed _ hw') rfl
    | tickets suffix' =>
      obtain ⟨stem', hstem', heq⟩ := mem_map.mp hw'
      exact hne (congrArg _ (suffix_of_ticket_eq hstem hstem' heq.symm))
    | free hfree =>
      exact free_ne hfree (.inr ⟨stem, hstem, suffix, (mem_singleton.mp hw').symm⟩) rfl
  | free hfree =>
    rw [mem_singleton.mp hw] at hw'
    cases h' with
    | levels => exact free_ne hfree (.inl (levelFunctions_fixed _ hw')) rfl
    | tickets suffix =>
      obtain ⟨stem, hstem, heq⟩ := mem_map.mp hw'
      exact free_ne hfree (.inr ⟨stem, hstem, suffix, heq.symm⟩) rfl
    | free => exact hne (mem_singleton.mp hw')

theorem disjoint_standard (h : KeyCase key names) : List.Disjoint Library.standardNames names := by
  have hfixed : ∀ w ∈ Library.standardNames, w ∈ fixedNames ∧ w ∉ levelFunctions := by decide
  intro w hw hw'
  cases h with
  | levels => exact (hfixed w hw).2 hw'
  | tickets suffix =>
    obtain ⟨stem, hstem, rfl⟩ := mem_map.mp hw'
    exact ticket_ne_fixed hstem (hfixed _ hw).1 rfl
  | free hfree =>
    rw [mem_singleton.mp hw'] at hw
    exact free_ne hfree (.inl (hfixed _ hw).1) rfl

end KeyCase

/-- Functions of helper blocks with different keys are all different, and no standard function is
among them. -/
theorem nodup_functions (hkeys : (hs.map Helper.key).Nodup)
    (hnames : ∀ h ∈ hs, h.names = keyNames h.key ∧ isKey h.key = true) :
    (Library.standardNames ++ hs.flatMap Helper.names).Nodup := by
  have hcase : ∀ h ∈ hs, KeyCase h.key h.names := fun h hh =>
    (hnames h hh).1 ▸ keyCase_of_isKey (hnames h hh).2
  refine nodup_append.mpr ⟨by decide, nodup_flatMap.mpr ⟨fun h hh => (hcase h hh).nodup, ?_⟩,
    fun w hw v hv heq => ?_⟩
  · rw [List.Nodup, pairwise_map] at hkeys
    exact hkeys.imp_of_mem fun hg hh hne => (hcase _ hg).disjoint (hcase _ hh) hne
  · obtain ⟨h, hh, hv⟩ := mem_flatMap.mp hv
    exact (hcase h hh).disjoint_standard hw (heq ▸ hv)

/-- What is declared twice does not depend on what is in scope, so that scope is taken in which
everything is. -/
def Mql.Scope.all : Scope where
  inputs := Set.univ
  vars := Set.univ
  functions := Set.univ

theorem Mql.Scope.all_covers (p : Program) : Scope.all.Covers p :=
  ⟨fun _ _ => trivial, fun _ _ => trivial, fun _ _ _ _ => trivial⟩

theorem Mql.Scope.all_general : Library.General Scope.all :=
  ⟨trivial, trivial⟩

/-- A scope with all inputs and variables, and all values that are copied, has whatever a plan
refers to. -/
theorem Mql.Scope.serves_of_all {σ : Scope} (hinputs : ∀ x, σ.HasInput x) (hvars : ∀ x, σ.HasVar x)
    (hcompares : Library.Compares σ) (hread : ∀ x, ∀ k < copiedBars, σ.MayRead x k) {r : Roles}
    (htrades : ∀ side n, r.orders.of side = some n → σ.Trades side)
    (hmeasures : r.hasEntry = true → σ.Measures) : σ.Serves r := by
  have hbuffer (x : Ident) : σ.HasBuffer x := ⟨hvars x, hread x.text⟩
  have hindicator (i : Nat) (indicator : Indicator) : σ.HasIndicator i indicator := by
    cases indicator <;> simp only [Scope.HasIndicator, hbuffer, hinputs, and_self]
  refine ⟨⟨hinputs _, hinputs _⟩, htrades, hmeasures, hcompares,
    fun i _ _ _ indicator _ => hindicator i indicator, fun _ _ _ _ _ _ _ _ => hvars _,
    fun _ _ => ?_, fun _ _ _ _ _ _ => hinputs _, hread _ 0 (by decide), hread _ 0 (by decide)⟩
  refine ⟨fun i _ _ indicator _ => hindicator i indicator, fun i _ _ _ role _ _ => ?_,
    fun _ _ _ _ => ⟨hbuffer _, hbuffer _⟩⟩
  cases role with
  | trend => exact hbuffer _
  | confirm => exact ⟨hbuffer _, hinputs _, hinputs _⟩
  | strength => exact ⟨hbuffer _, hinputs _⟩

theorem Mql.Scope.all_serves (r : Roles) : Scope.all.Serves r := by
  refine Scope.serves_of_all (fun _ => ?_) (fun _ => ?_) ⟨?_, ?_, ?_, ?_⟩
    (fun x k _ => Scope.mayRead_of_elements rfl x k) (fun _ _ _ _ _ => ?_) fun _ => ⟨?_, ?_⟩ <;>
    trivial

section Compiles

variable {g : Graph} {project : String} {options : Options} {c : Compiled}

theorem Graph.closedIn_all (h : (g.compile project options).result = .ok c) :
    c.program.ClosedIn Scope.all :=
  Graph.closedIn h (Scope.all_serves _) (Scope.all_covers _) trivial

theorem Graph.definedFunctions_eq (h : (g.compile project options).result = .ok c) :
    definedFunctions c.program.helperSection =
      Library.standardNames ++ c.program.helpers.flatMap Helper.names :=
  (Source.helpers_defines (Library.standard_closed Scope.all_general fun _ _ => trivial)
    fun k hk => ((Graph.closedIn_all h).helpers k hk).closed).definedFunctions

theorem Graph.nodup_keys (h : (g.compile project options).result = .ok c) :
    (c.program.helpers.map Helper.key).Nodup :=
  (Graph.run_of_roles h).invariant (I := fun p => (p.helpers.map Helper.key).Nodup)
    (fun _ _ _ hm _ => nodup_keys_append hm) nodup_nil

theorem Graph.nodup_definedFunctions (h : (g.compile project options).result = .ok c) :
    (definedFunctions c.program.helperSection).Nodup := by
  have hclosed := Graph.closedIn_all h
  rw [Graph.definedFunctions_eq h]
  exact nodup_functions (Graph.nodup_keys h) fun k hk =>
    ⟨(hclosed.helpers k hk).names, (hclosed.helpers k hk).key⟩

end Compiles

/-- **Nothing is declared twice.** In a compiled program the inputs differ from each other, every
line of a global declares a variable of its own, which is called like no input, and no function of
the helper section is defined twice. -/
theorem declarations_distinct {document : Json} {project : String} {options : Options}
    {c : Compiled} (h : (compile document project options).result = .ok c) :
    let p := c.program
    let inputs := p.inputs.map fun i => i.name.text
    inputs.Nodup ∧
    (∃ names : List String, p.globals.map (fun x => declaredName? x.text) = names.map some ∧
      names.Nodup ∧ ∀ w ∈ names, w ∉ inputs) ∧
    (definedFunctions p.helperSection).Nodup := by
  rw [compile] at h
  split at h
  · cases h
  rename_i g hload
  have hclosed := Graph.closedIn_all h
  have hnames := (Graph.run_of_roles h).counted.nodup
  rw [Program.names, map_append, map_map, map_map, nodup_append] at hnames
  obtain ⟨hinputs, hglobals, happart⟩ := hnames
  refine ⟨hinputs, ⟨c.program.globals.map fun x => x.name.text, ?_, hglobals,
    fun w hw hinput => happart w hinput w hw rfl⟩, Graph.nodup_definedFunctions h⟩
  rw [map_map]
  exact map_congr_left fun x hx => Global.declaredName_text (hclosed.globals x hx)

theorem declarations_distinct_crossover :
    ∃ c, (compile crossoverDocument "Test" {}).result = .ok c ∧
      (c.program.inputs.map fun i => i.name.text).Nodup ∧
      (definedFunctions c.program.helperSection).Nodup := by
  have hload : Graph.load crossoverDocument = .ok crossoverGraph := rfl
  obtain ⟨c, hresult⟩ : ∃ c, (compile crossoverDocument "Test" {}).result = .ok c :=
    compile_ok_of_methods hload (by decide) "Test"
  obtain ⟨hinputs, -, hfunctions⟩ := declarations_distinct hresult
  exact ⟨c, hresult, hinputs, hfunctions⟩

end TradeGraph

import TradeGraph.SetFile
import TradeGraph.Proofs.SourceShape

/-!
# Set files read back

A set file is read line by line: remarks are dropped, a line is cut at its first equals sign, and
what follows it at double bars. All that is written comes back, as long as the comment of the
strategy, which is written as it is, has neither a line feed nor a double bar.
-/

namespace TradeGraph

open List Mql

variable {cs f v : List Char} {value : Scalar} {s : Settings} {l type : String}
variable {name : Ident} {r : Row} {rs : List Row} {i : Input}

/-! ## Reading -/

/-- Text split at double bars. -/
def barFields : List Char → List (List Char)
  | [] => [[]]
  | '|' :: '|' :: cs => [] :: barFields cs
  | c :: cs =>
    match barFields cs with
    | [] => [[c]]
    | f :: fs => (c :: f) :: fs

/-- A line of a set file: a name and the fields after it. -/
structure SetEntry where
  name : String
  fields : List String
deriving DecidableEq, Repr

def SetEntry.ofLine (l : List Char) : SetEntry where
  name := String.ofList (l.takeWhile (· != '='))
  fields := (barFields ((l.dropWhile (· != '=')).drop 1)).map String.ofList

def isRemark (l : List Char) : Bool :=
  l.head? == some ';'

@[simp] theorem isRemark_semicolon (cs : List Char) : isRemark (';' :: cs) = true := rfl

/-- The lines of a text, without the empty one after the last line feed. -/
def textLines (text : String) : List (List Char) :=
  let ls := text.toList.splitOn '\n'
  if ls.getLast? = some [] then ls.dropLast else ls

/-- The entries of a set file. -/
def readSet (text : String) : List SetEntry :=
  ((textLines text).filter fun l => !isRemark l).map SetEntry.ofLine

def Input.valueText (i : Input) : String :=
  if i.type == "string" then i.value.shown else i.value.written

/-- The entry says what the input holds: its name, its value, and perhaps a range with the flag of
the optimizer. -/
structure SetEntry.Gives (e : SetEntry) (i : Input) : Prop where
  name : e.name = i.name.text
  fields : ∃ more, e.fields = i.valueText :: more ∧
    (more = [] ∨ ∃ start step stop, more = [start, step, stop, if i.optimizable then "Y" else "N"])

/-! ## Double bars -/

/-- No two bars stand together. -/
def BarFree (cs : List Char) : Prop :=
  ¬ ['|', '|'] <:+: cs

theorem barFields_append (h : '|' ∉ v) (rest : List Char) :
    barFields (v ++ '|' :: '|' :: rest) = v :: barFields rest := by
  induction v with
  | nil => rfl
  | cons c v ih =>
    rw [mem_cons, not_or] at h
    rw [cons_append, barFields.eq_3 _ _ (by simp [Ne.symm h.1]), ih h.2]

theorem barFields_of_barFree (h : BarFree v) : barFields v = [v] := by
  have htail {c : Char} {cs : List Char} (h : BarFree (c :: cs)) : BarFree cs :=
    fun hbars => h (hbars.trans ⟨[c], [], by simp⟩)
  fun_induction barFields v with
  | case1 => rfl
  | case2 cs ih => exact absurd ⟨[], cs, rfl⟩ h
  | case3 c cs hc hnil ih =>
    rw [ih (htail h)] at hnil
    cases hnil
  | case4 c cs hc f fs hcons ih =>
    rw [ih (htail h)] at hcons
    cases hcons
    rfl

theorem barFree_of_not_mem (h : '|' ∉ v) : BarFree v :=
  fun hbars => h (hbars.subset mem_cons_self)

theorem isPrefix_of_barFields {fs : List (List Char)} (h : barFields cs = f :: fs) : f <+: cs := by
  fun_induction barFields cs generalizing f fs with
  | case1 => cases h; exact nil_prefix
  | case2 cs ih => cases h; exact nil_prefix
  | case3 c cs hc hnil ih => cases h; exact cons_prefix_cons.mpr ⟨rfl, nil_prefix⟩
  | case4 c cs hc f fs hcons ih =>
    cases h
    exact cons_prefix_cons.mpr ⟨rfl, ih hcons⟩

theorem barFree_of_mem_barFields (hf : f ∈ barFields cs) : BarFree f := by
  fun_induction barFields cs generalizing f with
  | case1 =>
    rw [mem_singleton.mp hf]
    exact barFree_of_not_mem not_mem_nil
  | case2 cs ih =>
    rcases mem_cons.mp hf with rfl | hf
    · exact barFree_of_not_mem not_mem_nil
    · exact ih hf
  | case3 c cs hc hnil ih =>
    rw [mem_singleton.mp hf]
    exact fun hbars => absurd hbars.length_le (by simp)
  | case4 c cs hc g gs hcons ih =>
    rw [hcons] at ih
    rcases mem_cons.mp hf with rfl | hf
    · intro hbars
      rcases infix_cons_iff.mp hbars with hstart | hbars
      · -- two bars at the start would have been split
        obtain ⟨rfl, hbar⟩ := cons_prefix_cons.mp hstart
        obtain ⟨rest, hrest⟩ := hbar.trans (isPrefix_of_barFields hcons)
        exact hc rest rfl hrest.symm
      · exact ih mem_cons_self hbars
    · exact ih (mem_cons_of_mem _ hf)

/-! ## Lines -/

theorem not_mem_of_mem_splitOn {x : Char} {l : List Char} (h : l ∈ cs.splitOn x) : x ∉ l := by
  induction cs generalizing l with
  | nil =>
    rw [splitOn_nil, mem_singleton] at h
    rw [h]
    exact not_mem_nil
  | cons c cs ih =>
    rw [List.splitOn, splitOnP_cons_eq_if_modifyHead] at h
    split at h
    · rcases mem_cons.mp h with rfl | h
      · exact not_mem_nil
      · exact ih h
    · rename_i hc
      obtain ⟨m, ms, hms⟩ : ∃ m ms, cs.splitOn x = m :: ms :=
        exists_cons_of_ne_nil (splitOn_ne_nil _ _)
      rw [List.splitOn] at hms
      rw [hms, modifyHead_cons] at h
      rcases mem_cons.mp h with rfl | h
      · have hm := ih (l := m) (by rw [List.splitOn, hms]; exact mem_cons_self)
        rw [mem_cons, not_or]
        exact ⟨fun hx => hc (beq_iff_eq.mpr hx.symm), hm⟩
      · exact ih (by rw [List.splitOn, hms]; exact mem_cons_of_mem _ h)

theorem textLines_of_terminated {text : String} {ls : List String}
    (htext : text.toList = terminated ls)
    (hls : ∀ l ∈ ls, OneLine l) : textLines text = ls.map String.toList := by
  have hsplit : text.toList.splitOn '\n' = ls.map String.toList ++ [[]] := by
    have hjoin : terminated ls = ['\n'].intercalate (ls.map String.toList ++ [[]]) := by
      clear htext hls
      induction ls with
      | nil => rfl
      | cons l ls ih =>
        rw [terminated_cons, ih, map_cons, cons_append,
          intercalate_cons_of_ne_nil (by simp), append_assoc]
        rfl
    rw [htext, hjoin]
    refine splitOn_intercalate '\n' (fun l hl => ?_) (by simp)
    rcases mem_append.mp hl with hl | hl
    · obtain ⟨m, hm, rfl⟩ := mem_map.mp hl
      exact hls m hm
    · rw [mem_singleton.mp hl]
      exact not_mem_nil
  rw [textLines, hsplit]
  simp

theorem SetEntry.ofLine_append {name : String} (hname : isWord name = true) (rest : List Char) :
    SetEntry.ofLine (name.toList ++ '=' :: rest) = ⟨name, (barFields rest).map String.ofList⟩ := by
  have hall : ∀ c ∈ name.toList, (c != '=') = true := by
    intro c hc
    rw [isWord, Bool.and_eq_true] at hname
    have hident := all_eq_true.mp hname.2 c hc
    rw [bne_iff_ne]
    rintro rfl
    revert hident
    decide
  rw [SetEntry.ofLine, takeWhile_append_of_pos hall, dropWhile_append_of_pos hall]
  simp

theorem mem_of_mem_barFields (hf : f ∈ barFields cs) : f ⊆ cs := by
  fun_induction barFields cs generalizing f with
  | case1 => rw [mem_singleton.mp hf]; exact nil_subset _
  | case2 cs ih =>
    rcases mem_cons.mp hf with rfl | hf
    · exact nil_subset _
    · exact fun c hc => mem_cons_of_mem _ (mem_cons_of_mem _ (ih hf hc))
  | case3 c cs hc hnil ih =>
    rw [mem_singleton.mp hf]
    exact cons_subset_cons c (nil_subset _)
  | case4 c cs hc g gs hcons ih =>
    rw [hcons] at ih
    rcases mem_cons.mp hf with rfl | hf
    · exact cons_subset_cons c (ih mem_cons_self)
    · exact fun d hd => mem_cons_of_mem _ (ih (mem_cons_of_mem _ hf) hd)

/-! ## What is written -/

theorem not_mem_of_numeral {s : String} (h : ∀ c ∈ s.toList, isNumeralChar c = true) :
    OneLine s ∧ '|' ∉ s.toList := by
  constructor
  · exact fun hmem => absurd (h _ hmem) (by decide)
  · exact fun hmem => absurd (h _ hmem) (by decide)

theorem Row.numberText_numeral {integral : Bool} {x : Float} {t : String}
    (h : Row.numberText integral x = .ok t) : ∀ c ∈ t.toList, isNumeralChar c = true := by
  rw [Row.numberText] at h
  split at h
  · split at h
    · cases h
    · cases h
    · cases h
      exact int_numeral
  · cases h
    exact plainText_numeral x

theorem Row.line_cases (h : r.line = .ok l) :
    l = r.input.name.text ++ "=" ++ r.valueText ∨
      r.sweep.isSome ∧ ∃ start step stop : String,
        (∀ t ∈ [start, step, stop], ∀ c ∈ t.toList, isNumeralChar c = true) ∧
        l = r.input.name.text ++ "=" ++ r.valueText ++ "||" ++ start ++ "||" ++ step ++
          "||" ++ stop ++ (if r.input.optimizable then "||Y" else "||N") := by
  rw [Row.line] at h
  cases hsweep : r.sweep with
  | none =>
    rw [hsweep] at h
    cases h
    exact .inl rfl
  | some s =>
    simp only [hsweep] at h
    split at h
    · cases h
      exact .inl rfl
    · obtain ⟨start, hstart, h⟩ := of_bind_eq_ok h
      obtain ⟨step, stop, hstep, hstop, rfl⟩ := of_bind₂_eq_ok h
      refine .inr ⟨rfl, start, step, stop, ?_, rfl⟩
      simp only [forall_mem_cons, not_mem_nil, false_implies, implies_true, and_true]
      exact ⟨Row.numberText_numeral hstart, Row.numberText_numeral hstep,
        Row.numberText_numeral hstop⟩

theorem oneLine_of_isWord {w : String} (h : isWord w = true) : OneLine w := by
  rw [isWord, Bool.and_eq_true] at h
  exact fun hmem => absurd (all_eq_true.mp h.2 _ hmem) (by decide)

theorem isRemark_of_isWord {w : String} (h : isWord w = true) (rest : List Char) :
    isRemark (w.toList ++ rest) = false := by
  rw [isWord, Bool.and_eq_true, Bool.not_eq_true', isEmpty_eq_false_iff] at h
  obtain ⟨c, cs, hw⟩ := exists_cons_of_ne_nil h.1
  have hc := all_eq_true.mp h.2 c (hw ▸ mem_cons_self)
  rw [hw, isRemark]
  refine beq_eq_false_iff_ne.mpr fun heq => ?_
  cases heq
  revert hc
  decide

/-- A line reads back: its value has no line feed and no double bar, and no bar at all if a range
follows. -/
theorem Row.line_reads (h : r.line = .ok l) (hname : isWord r.input.name.text = true)
    (hvalue : r.valueText = r.input.valueText) (hline : OneLine r.valueText)
    (hfree : BarFree r.valueText.toList)
    (hswept : r.sweep.isSome = true → '|' ∉ r.valueText.toList) :
    OneLine l ∧ isRemark l.toList = false ∧ (SetEntry.ofLine l.toList).Gives r.input := by
  have hplain : OneLine (r.input.name.text ++ "=" ++ r.valueText) := by
    simp +decide [oneLine_of_isWord hname, hline]
  rcases Row.line_cases h with rfl | ⟨hsome, start, step, stop, hnumerals, rfl⟩
  · have hsplit : (r.input.name.text ++ "=" ++ r.valueText).toList =
        r.input.name.text.toList ++ '=' :: r.valueText.toList := by simp
    refine ⟨hplain, ?_⟩
    rw [hsplit]
    refine ⟨isRemark_of_isWord hname _, ?_⟩
    rw [SetEntry.ofLine_append hname, barFields_of_barFree hfree]
    exact ⟨rfl, [], by simp [hvalue], .inl rfl⟩
  · simp only [forall_mem_cons, not_mem_nil, false_implies, implies_true,
      and_true] at hnumerals
    obtain ⟨hstart, hstep, hstop⟩ := hnumerals
    obtain ⟨hstartLine, hstartBar⟩ := not_mem_of_numeral hstart
    obtain ⟨hstepLine, hstepBar⟩ := not_mem_of_numeral hstep
    obtain ⟨hstopLine, hstopBar⟩ := not_mem_of_numeral hstop
    have hflag : ∃ flag : String, flag = (if r.input.optimizable then "Y" else "N") ∧
        OneLine flag ∧ '|' ∉ flag.toList ∧
        (if r.input.optimizable then "||Y" else "||N") = "||" ++ flag := by
      cases r.input.optimizable
      · exact ⟨"N", rfl, by decide, by decide, rfl⟩
      · exact ⟨"Y", rfl, by decide, by decide, rfl⟩
    obtain ⟨flag, hflag, hflagLine, hflagBar, hbars⟩ := hflag
    rw [hbars]
    have hsplit : (r.input.name.text ++ "=" ++ r.valueText ++ "||" ++ start ++ "||" ++
      step ++ "||" ++
        stop ++ ("||" ++ flag)).toList = r.input.name.text.toList ++ '=' :: (r.valueText.toList ++
          '|' :: '|' :: (start.toList ++ '|' :: '|' :: (step.toList ++ '|' :: '|' ::
            (stop.toList ++ '|' :: '|' :: flag.toList)))) := by simp
    refine ⟨?_, ?_⟩
    · simp +decide [oneLine_of_isWord hname, hline, hstartLine, hstepLine, hstopLine, hflagLine]
    · rw [hsplit]
      refine ⟨isRemark_of_isWord hname _, ?_⟩
      rw [SetEntry.ofLine_append hname, barFields_append (hswept hsome), barFields_append hstartBar,
        barFields_append hstepBar, barFields_append hstopBar,
        barFields_of_barFree (barFree_of_not_mem hflagBar)]
      exact ⟨rfl, [start, step, stop, flag], by simp [hvalue],
        .inr ⟨start, step, stop, by rw [hflag]⟩⟩

/-- The rows of inputs, if no number of the column has to become a double. -/
theorem rows_cases {inputs : List Input} (h : rows inputs = .ok rs)
    (hunify : Row.unify (inputs.map Input.value) = inputs.map Input.value) :
    Forall₂ (fun r i => r.input = i ∧ r.value = i.value ∧ i.sweep? = .ok r.sweep) rs inputs := by
  obtain ⟨ranges, hranges, hrows⟩ := of_bind_eq_ok h
  rw [hunify] at hrows
  cases hrows
  clear h hunify
  induction inputs generalizing ranges with
  | nil => exact .nil
  | cons i is ih =>
    obtain ⟨s, ss, hs, hss, rfl⟩ := of_bind₂_eq_ok hranges
    exact .cons ⟨rfl, rfl, hs⟩ (ih ss hss)

theorem groupedLines_cases : ∀ {rs : List Row} {current : Option String} {ls : List String},
    groupedLines current rs = .ok ls → ∃ written, Forall₂ (fun r l => r.line = .ok l) rs written ∧
      ls.filter (fun l => !isRemark l.toList) = written.filter (fun l => !isRemark l.toList) ∧
      ∀ l ∈ ls, l ∈ written ∨ ∃ r ∈ rs, l = "; " ++ r.input.groupName
  | [], current, ls, h => by
    cases h
    exact ⟨[], .nil, rfl, by simp⟩
  | r :: rs, current, ls, h => by
    obtain ⟨l, rest, hl, hrest, rfl⟩ := of_bind₂_eq_ok h
    obtain ⟨written, hwritten, hfilter, hmem⟩ := groupedLines_cases hrest
    refine ⟨l :: written, .cons hl hwritten, ?_, fun m hm => ?_⟩
    · split <;> simp [filter_cons, hfilter]
    · rcases mem_append.mp hm with hm | hm
      · split at hm
        · cases hm
        · exact .inr ⟨r, mem_cons_self, mem_singleton.mp hm⟩
      · rcases mem_cons.mp hm with rfl | hm
        · exact .inl mem_cons_self
        · rcases hmem m hm with hm | ⟨q, hq, hm⟩
          · exact .inl (mem_cons_of_mem _ hm)
          · exact .inr ⟨q, mem_cons_of_mem _ hq, hm⟩

/-! ## Values -/

theorem Typed.ne_string {v : Json} (h : Typed type value v) : type ≠ "string" := by
  cases h <;> decide

theorem Constant.ne_string (h : Constant name type value) : type ≠ "string" := by
  cases h <;> decide

theorem Settings.Gives.comment_of_string (h : s.Gives name type value)
    (htype : type = "string") : value = .text s.comment := by
  cases h with
  | comment => rfl
  | magic | profit | loss => exact absurd htype (by decide)

theorem Input.Supplied.comment_of_string {nodes : List Node} (h : i.Supplied s nodes)
    (htype : i.type = "string") : i.value = .text s.comment := by
  cases h with
  | field _ _ hshows =>
    obtain ⟨-, v, -, htyped⟩ := hshows
    exact absurd htype htyped.ne_string
  | setting hsetting => exact hsetting.comment_of_string htype
  | constant hconstant => exact absurd htype hconstant.ne_string

theorem Input.Supplied.valueText_plain {nodes : List Node} (h : i.Supplied s nodes)
    (hline : OneLine s.comment) (hfree : BarFree s.comment.toList) :
    OneLine i.valueText ∧ BarFree i.valueText.toList ∧
      (i.isSwept = true → '|' ∉ i.valueText.toList) := by
  have hcomment := h.comment_of_string
  have hnumeral {t : String} (ht : ∀ c ∈ t.toList, isNumeralChar c = true) :
      OneLine t ∧ BarFree t.toList ∧ '|' ∉ t.toList :=
    ⟨(not_mem_of_numeral ht).1, barFree_of_not_mem (not_mem_of_numeral ht).2,
      (not_mem_of_numeral ht).2⟩
  have hfits := h.fits
  rw [Input.valueText, Input.isSwept]
  revert hcomment hfits
  generalize i.type = type, i.value = value
  rintro hcomment (n | x | n | t | name)
  · obtain ⟨hone, hbars, hbar⟩ := hnumeral (int_numeral (n := n))
    exact ⟨hone, hbars, fun _ => hbar⟩
  · obtain ⟨hone, hbars, hbar⟩ := hnumeral (plainText_numeral x)
    exact ⟨hone, hbars, fun _ => hbar⟩
  · obtain ⟨hone, hbars, hbar⟩ := hnumeral (int_numeral (n := n))
    exact ⟨hone, hbars, fun _ => hbar⟩
  · cases hcomment rfl
    exact ⟨hline, hfree, fun hswept => absurd (Bool.and_eq_true_iff.mp hswept).1 (by decide)⟩
  · have hword := isWord_sweptPeriod name
    have hbar : '|' ∉ (sweptPeriod name).toList := by
      rw [isWord, Bool.and_eq_true] at hword
      exact fun hmem => absurd (all_eq_true.mp hword.2 _ hmem) (by decide)
    exact ⟨oneLine_of_isWord hword, barFree_of_not_mem hbar, fun _ => hbar⟩

/-! ## Whole files -/

theorem exists_of_mem_forall₂ {α β : Type} {R : α → β → Prop} {xs : List α} {ys : List β}
    (h : Forall₂ R xs ys) : ∀ y ∈ ys, ∃ x ∈ xs, R x y := by
  induction h with
  | nil => exact fun y hy => nomatch hy
  | cons hr _ ih =>
    intro y hy
    rcases mem_cons.mp hy with rfl | hy
    · exact ⟨_, mem_cons_self, hr⟩
    · obtain ⟨x, hx, hr⟩ := ih y hy
      exact ⟨x, mem_cons_of_mem _ hx, hr⟩

theorem Row.unify_of_text {values : List Scalar} {t : String} (h : .text t ∈ values) :
    Row.unify values = values := by
  have hnot : values.all Row.isColumnNumber = false := all_eq_false.mpr ⟨_, h, Bool.false_ne_true⟩
  rw [Row.unify, hnot]
  rfl

section File

variable {s : Settings} {nodes : List Node} {inputs : List Input} {text : String}

theorem Row.reads_of_sourced
    (hr : r.input = i ∧ r.value = i.value ∧ i.sweep? = .ok r.sweep) (hl : r.line = .ok l)
    (hi : i.Sourced s nodes) (hline : OneLine s.comment) (hfree : BarFree s.comment.toList) :
    OneLine l ∧ isRemark l.toList = false ∧ (SetEntry.ofLine l.toList).Gives i := by
  obtain ⟨rfl, hvalue, hsweep⟩ := hr
  obtain ⟨hone, hbars, hbar⟩ := hi.supplied.valueText_plain hline hfree
  have htext : r.valueText = r.input.valueText := by
    rw [Row.valueText, Input.valueText, hvalue]
  have hswept : r.sweep.isSome = true → r.input.isSwept = true := by
    intro hsome
    rw [Input.sweep?] at hsweep
    split at hsweep
    · assumption
    · rw [← Except.ok.inj hsweep] at hsome
      cases hsome
  refine Row.line_reads hl hi.name htext ?_ ?_ ?_
  · rw [htext]; exact hone
  · rw [htext]; exact hbars
  · rw [htext]; exact fun hsome => hbar (hswept hsome)

/-- What a line of a set file has to do with its input. -/
def LineReads (l : String) (i : Input) : Prop :=
  OneLine l ∧ isRemark l.toList = false ∧ (SetEntry.ofLine l.toList).Gives i

theorem lines_read {written : List String}
    (hrows : Forall₂ (fun r i => r.input = i ∧ r.value = i.value ∧ i.sweep? = .ok r.sweep) rs
      inputs)
    (hwritten : Forall₂ (fun r l => r.line = .ok l) rs written)
    (hinputs : AllSourced s nodes inputs) (hline : OneLine s.comment)
    (hfree : BarFree s.comment.toList) : Forall₂ LineReads written inputs := by
  induction hrows generalizing written with
  | nil =>
    cases hwritten
    exact .nil
  | cons hr _ ih =>
    rw [allSourced_cons] at hinputs
    cases hwritten with
    | cons hl hrest =>
      exact .cons (Row.reads_of_sourced hr hl hinputs.1 hline hfree) (ih hrest hinputs.2)

theorem readSet_setText (hinputs : AllSourced s nodes inputs)
    (hthere : .text s.comment ∈ inputs.map Input.value) (h : setText inputs = .ok text)
    (hline : OneLine s.comment) (hfree : BarFree s.comment.toList) :
    Forall₂ SetEntry.Gives (readSet text) inputs := by
  obtain ⟨rs, hrs, h⟩ := of_bind_eq_ok h
  obtain ⟨ls, hls, h⟩ := of_bind_eq_ok h
  cases h
  have hrows := rows_cases hrs (Row.unify_of_text hthere)
  obtain ⟨written, hwritten, hfilter, hmem⟩ := groupedLines_cases hls
  have hreads := lines_read hrows hwritten hinputs hline hfree
  have hlines : ∀ l ∈ "; generated by QuantDSL strategy compiler" :: ls, OneLine l := by
    rw [forall_mem_cons]
    refine ⟨by decide, fun l hl => ?_⟩
    rcases hmem l hl with hl | ⟨r, hr, rfl⟩
    · obtain ⟨i, -, hread⟩ := exists_of_mem_forall₂ hreads.flip l hl
      exact hread.1
    · obtain ⟨i, hi, hrow, -⟩ := exists_of_mem_forall₂ hrows.flip r hr
      rw [oneLine_append, hrow]
      exact ⟨by decide, oneLine_of_isLabel (hinputs i hi).groupName⟩
  have hentries : readSet (Text.lines ("; generated by QuantDSL strategy compiler" :: ls) ++ "\n") =
      written.map fun l => SetEntry.ofLine l.toList := by
    have hchars := lines_toList (cons_ne_nil "; generated by QuantDSL strategy compiler" ls)
    rw [readSet, textLines_of_terminated (by rw [String.toList_append]; exact hchars) hlines]
    have hkept : written.filter (fun l => !isRemark l.toList) = written := by
      refine filter_eq_self.mpr fun l hl => ?_
      obtain ⟨i, -, hread⟩ := exists_of_mem_forall₂ hreads.flip l hl
      rw [hread.2.1]
      rfl
    rw [map_cons, filter_cons, if_neg (by decide), filter_map]
    simp only [Function.comp_def]
    rw [hfilter, hkept, map_map]
    rfl
  rw [hentries, forall₂_map_left_iff]
  exact hreads.imp fun _ _ h => h.2.2

theorem plain_of_readSet (hthere : ∃ i ∈ inputs, i.type = "string" ∧ i.value = .text s.comment)
    (h : Forall₂ SetEntry.Gives (readSet text) inputs) :
    OneLine s.comment ∧ BarFree s.comment.toList := by
  obtain ⟨i, hi, htype, hvalue⟩ := hthere
  obtain ⟨e, he, hgives⟩ := exists_of_mem_forall₂ h i hi
  obtain ⟨l, hl, rfl⟩ := mem_map.mp he
  obtain ⟨more, hfields, -⟩ := hgives.fields
  have htext : i.valueText = s.comment := by
    rw [Input.valueText, htype, hvalue]
    rfl
  have hfield : s.comment ∈ (SetEntry.ofLine l).fields := by
    rw [hfields, htext]
    exact mem_cons_self
  obtain ⟨f, hf, hcomment⟩ := mem_map.mp hfield
  rw [OneLine, ← hcomment, String.toList_ofList]
  refine ⟨fun hbreak => ?_, barFree_of_mem_barFields hf⟩
  -- the characters of a field are those of its line
  have hbreak : '\n' ∈ l := by
    have := mem_of_mem_barFields hf hbreak
    exact dropWhile_subset _ (drop_subset _ _ this)
  have hsplit : l ∈ text.toList.splitOn '\n' := by
    have := (mem_filter.mp hl).1
    rw [textLines] at this
    split at this
    · exact dropLast_subset _ this
    · exact this
  exact not_mem_of_mem_splitOn hsplit hbreak

end File

/-- **A set file can be read back exactly if the comment is plain**: it has no line feed and no
double bar. Then there is one entry for each input, in order, with its name, its value and perhaps a
range and the flag of the optimizer. -/
theorem readSet_setText_iff {document : Json} {project : String} {options : Options} {c : Compiled}
    (h : (compile document project options).result = .ok c) {text : String}
    (hset : setText c.program.inputs = .ok text) :
    Forall₂ SetEntry.Gives (readSet text) c.program.inputs ↔
      '\n' ∉ c.context.settings.comment.toList ∧
        ¬ ['|', '|'] <:+: c.context.settings.comment.toList := by
  rw [compile] at h
  split at h
  · cases h
  rename_i g hload
  obtain ⟨r, hr⟩ := (Graph.run_of_roles h).exists_append
  have hthere : ∃ i ∈ c.program.inputs,
      i.type = "string" ∧ i.value = .text c.context.settings.comment := by
    rw [hr]
    exact ⟨_, mem_append_left _ (mem_cons_of_mem _ mem_cons_self), rfl, rfl⟩
  constructor
  · exact plain_of_readSet hthere
  · rintro ⟨hline, hfree⟩
    obtain ⟨i, hi, -, hvalue⟩ := hthere
    exact readSet_setText (Graph.sourced h) (hvalue ▸ mem_map_of_mem hi) hset hline hfree

/-- A strategy that trades nothing, with a comment. -/
def commentedDocument (comment : String) : Json :=
  .obj [("settings", .obj [("comment", .str comment)])]

theorem readSet_setText_barred :
    ∃ c text, (compile (commentedDocument "; x=1|2|") "Test" {}).result = .ok c ∧
      setText c.program.inputs = .ok text ∧
      Forall₂ SetEntry.Gives (readSet text) c.program.inputs := by
  obtain ⟨c, hc, h⟩ := Compilation.exists_of_map
    (x := compile (commentedDocument "; x=1|2|") "Test" {})
    (f := fun c => (c.context.settings.comment, (setText c.program.inputs).toOption.isSome))
    (a := ("; x=1|2|", true)) (by decide +kernel)
  rw [Prod.mk.injEq] at h
  obtain ⟨text, hset⟩ : ∃ text, setText c.program.inputs = .ok text := by
    cases hset : setText c.program.inputs with
    | error e => simp [hset, Except.toOption] at h
    | ok text => exact ⟨text, rfl⟩
  refine ⟨c, text, hc, hset, (readSet_setText_iff hc hset).mpr ?_⟩
  rw [h.1]
  exact ⟨by decide, by decide +kernel⟩

/-- A line feed of a comment ends its line, and the rest is read as an entry of its own. -/
theorem setText_breaks_at_lineFeed :
    ∃ c text, (compile (commentedDocument "a\nb") "Test" {}).result = .ok c ∧
      setText c.program.inputs = .ok text ∧
      ¬ Forall₂ SetEntry.Gives (readSet text) c.program.inputs := by
  obtain ⟨c, hc, h⟩ := Compilation.exists_of_map
    (x := compile (commentedDocument "a\nb") "Test" {})
    (f := fun c => (c.program.inputs.length,
      (setText c.program.inputs).toOption.map fun text => (readSet text).length))
    (a := (3, some 4)) (by decide +kernel)
  rw [Prod.mk.injEq] at h
  obtain ⟨hinputs, hread⟩ := h
  cases hset : setText c.program.inputs with
  | error e => simp [hset, Except.toOption] at hread
  | ok text =>
    refine ⟨c, text, hc, hset, fun hgives => ?_⟩
    have hlength := hgives.length_eq
    simp [hset, Except.toOption] at hread
    omega

end TradeGraph

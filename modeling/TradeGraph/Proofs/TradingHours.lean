import Mathlib.Data.Nat.Cast.Basic
import TradeGraph.Proofs.Failure
import TradeGraph.Proofs.Families
import TradeGraph.Proofs.RuleTools

/-!
# The trading window

Timing code reads a clock and sets `isTradingTime`. Run at any time of the week, on a platform whose
clocks tell that time, it sets the flag exactly if one of the timing nodes admits the time on its
own clock.
-/

namespace TradeGraph

open List Mql
open Mql.Expr (var)

variable {market : Market} {k : ℕ} {op : BinaryOp} {nodes : List Node}

/-! ## Times -/

/-- A time of the week: the day, numbered from Sunday, and the time of that day. -/
structure Clock where
  day : Fin 7
  hour : Fin 24
  minute : Fin 60

/-- The minutes since midnight. -/
def Clock.minutes (t : Clock) : ℕ := t.hour * 60 + t.minute

/-- The parts of a time, as the platform names them. -/
def Clock.part? (t : Clock) : String → Option ℕ
  | "day_of_week" => some t.day
  | "hour" => some t.hour
  | "min" => some t.minute
  | _ => none

/-- What the clocks of the platform show. -/
structure Clocks where
  gmt : Clock
  server : Clock

/-- The clock that a timing node chooses. -/
def Clocks.of (clocks : Clocks) (useServerTime : Bool) : Clock :=
  if useServerTime then clocks.server else clocks.gmt

/-- The function that reads a clock. -/
def clockCall (useServerTime : Bool) : String :=
  if useServerTime then "TimeCurrent" else "TimeGMT"

/-- The time that a question asks to take apart. -/
def Mql.Query.taken? : Query → Option Value
  | .call "TimeToStruct" [v, _] => some v
  | _ => none

/-- The time that was taken apart last. -/
def taken? (asked : List Query) : Option Value :=
  (asked.filterMap Query.taken?).getLast?

/-- The market tells the time: its values for the present time mean what the clocks show, and the
parts that it gives are those of the time that was taken apart last. -/
structure Mql.Market.ShowsTime (market : Market) (clock : Value → Clock) (clocks : Clocks) :
    Prop where
  now : ∀ useServerTime asked,
    clock (market asked (.call (clockCall useServerTime) [])) = clocks.of useServerTime
  part : ∀ asked v r f k, taken? asked = some v → (clock v).part? f = some k →
    market asked (.field r f) = .num k

/-! ## Rules -/

/-- Is the day on? Names that are no weekdays count for nothing. -/
def IsOn (days : List (String × Bool)) (d : Fin 7) : Prop :=
  ∃ name, (name, true) ∈ days ∧ weekdays[d.val]? = some name

def SessionRule.TradesOn (r : SessionRule) (d : Fin 7) : Prop :=
  match r.tradingDays with
  | some days => IsOn days d
  | none => r.tradeMondayToFriday = true → 1 ≤ d.val ∧ d.val ≤ 5

/-- A minute lies in a window, which goes past midnight if it does not end after its start. -/
def InWindow (first last : ℤ) (m : ℕ) : Prop :=
  if first < last then first ≤ m ∧ m < last else first ≤ m ∨ m < last

def TimingRule.Admits (t : Clock) : TimingRule → Prop
  | .always => True
  | .session r =>
    r.TradesOn t.day ∧
      InWindow (sessionHours r.session).first (sessionHours r.session).last t.minutes
  | .custom r =>
    IsOn r.days t.day ∧
      (r.timeSlots = [] ∨ ∃ slot ∈ r.timeSlots, InWindow slot.first slot.last t.minutes)

/-- A timing node admits the time on its own clock. -/
def Node.Admits (clocks : Clocks) (n : Node) : Prop :=
  ∃ useServerTime rule, n.data.payload = .timing useServerTime rule ∧
    rule.Admits (clocks.of useServerTime)

theorem mem_activeDays {days : List (String × Bool)} {d : Fin 7} :
    d.val ∈ activeDays days ↔ IsOn days d := by
  simp only [activeDays, mem_filter, mem_range, d.isLt, true_and, any_eq_true,
    Bool.and_eq_true, beq_iff_eq, IsOn]
  constructor
  · rintro ⟨⟨name, on⟩, hmem, rfl, hname⟩
    exact ⟨name, hmem, hname⟩
  · rintro ⟨name, hmem, hname⟩
    exact ⟨(name, true), hmem, rfl, hname⟩

theorem mem_sessionDays {r : SessionRule} {d : Fin 7} : d.val ∈ r.days ↔ r.TradesOn d := by
  rw [SessionRule.days, SessionRule.TradesOn]
  cases r.tradingDays with
  | some days => exact mem_activeDays
  | none =>
    cases r.tradeMondayToFriday with
    | true =>
      simp only [if_true, mem_cons, not_mem_nil, or_false, forall_const]
      omega
    | false => simp

theorem mem_of_seven {days : List ℕ} (hsub : days.Sublist (List.range 7)) (h : ¬ days.length < 7)
    (d : Fin 7) : d.val ∈ days := by
  have hall : days = List.range 7 := hsub.eq_of_length_le (by simpa using h)
  rw [hall]
  exact mem_range.mpr d.isLt

theorem activeDays_sublist (days : List (String × Bool)) :
    (activeDays days).Sublist (List.range 7) :=
  filter_sublist

theorem SessionRule.days_sublist (r : SessionRule) : r.days.Sublist (List.range 7) := by
  rw [SessionRule.days]
  cases r.tradingDays with
  | some days => exact activeDays_sublist days
  | none => cases r.tradeMondayToFriday <;> decide

/-! ## Conditions on the time -/

theorem Mql.State.locals_declare_self (s : State) (x : String) (v : Value) :
    (s.declare x v).locals x = some v :=
  if_pos rfl

theorem Mql.State.locals_declare_of_ne (s : State) {x y : String} (h : y ≠ x) (v : Value) :
    (s.declare x v).locals y = s.locals y :=
  if_neg h

/-- What timing code needs of calls: the clocks show their times, and a time that was taken apart is
told in parts. -/
structure Mql.Caller.TellsTime (call : Caller) (clock : Value → Clock) (clocks : Clocks) :
    Prop where
  now : ∀ useServerTime w,
    clock (call (.call (clockCall useServerTime) []) w).1 = clocks.of useServerTime
  take : ∀ v r w, taken? (call (.call "TimeToStruct" [v, r]) w).2.asked = some v
  part : ∀ v r f k (w : World), taken? w.asked = some v → (clock v).part? f = some k →
    (call (.field r f) w).1 = .num k ∧ taken? (call (.field r f) w).2.asked = some v

theorem taken?_concat_of_none {asked : List Query} {q : Query} (h : q.taken? = none) :
    taken? (asked ++ [q]) = taken? asked := by
  simp [taken?, h]

theorem callAt_tellsTime {clock : Value → Clock} {clocks : Clocks}
    (h : market.ShowsTime clock clocks) (functions : List Function) (bound depth : ℕ) :
    (callAt market functions bound depth).TellsTime clock clocks where
  now useServerTime w := by
    have hcall : clockCall useServerTime ∈ platformCalls := by cases useServerTime <;> decide
    have hask : perform market (.call (clockCall useServerTime) []) w =
        w.ask market (.call (clockCall useServerTime) []) := by cases useServerTime <;> rfl
    rw [callAt_platform hcall, hask]
    exact h.now useServerTime w.asked
  take v r w := by
    rw [callAt_platform (by decide)]
    show taken? (w.asked ++ [.call "TimeToStruct" [v, r]]) = some v
    simp [taken?, Query.taken?]
  part v r f k w hv hk := by
    rw [callAt_direct (by simp)]
    refine ⟨h.part w.asked v r f k hv hk, ?_⟩
    show taken? (w.asked ++ [.field r f]) = some v
    rw [taken?_concat_of_none rfl, hv]

/-- The time is known: it was taken apart, and its minutes were counted. -/
structure Knows (clock : Value → Clock) (t : Clock) (s : State) : Prop where
  minutes : s.locals "currentMinutes" = some (.num t.minutes)
  taken : ∃ v, taken? s.world.asked = some v ∧ clock v = t

/-- In the states of a kind, the expression says whether something holds. It changes no variable and
leads to a state of the kind. -/
def Decides (call : Caller) (K : State → Prop) (e : Expr) (P : Prop) : Prop :=
  ∀ s, K s → ∃ b s', e.eval call s = (.flag b, s') ∧ (b = true ↔ P) ∧
    s'.locals = s.locals ∧ K s'

section Conditions

variable {call : Caller} {K : State → Prop} {a b e : Expr} {P Q : Prop}

theorem Decides.congr (h : Decides call K e P) (hPQ : P ↔ Q) : Decides call K e Q := by
  intro s hs
  obtain ⟨b, s', heval, hb, hrest⟩ := h s hs
  exact ⟨b, s', heval, hb.trans hPQ, hrest⟩

theorem decides_true : Decides call K true True :=
  fun s hs => ⟨true, s, rfl, by simp, rfl, hs⟩

theorem Decides.group (h : Decides call K e P) : Decides call K (.group e) P := h

theorem Decides.and (ha : Decides call K a P) (hb : Decides call K b Q) :
    Decides call K (.all [a, b]) (P ∧ Q) := by
  intro s hs
  obtain ⟨p, s₁, heval, hp, hlocals, hs₁⟩ := ha s hs
  cases p with
  | false =>
    refine ⟨false, s₁, ?_, by simp [← hp], hlocals, hs₁⟩
    simp [Expr.eval, Expr.evalAnd, heval]
  | true =>
    obtain ⟨q, s₂, heval₂, hq, hlocals₂, hs₂⟩ := hb s₁ hs₁
    refine ⟨q, s₂, ?_, by simp [← hp, ← hq], hlocals₂.trans hlocals, hs₂⟩
    cases q <;> simp [Expr.eval, Expr.evalAnd, heval, heval₂]

theorem Decides.anyOf {α : Type} {f : α → Expr} {R : α → Prop} : ∀ {xs : List α},
    (∀ x ∈ xs, Decides call K (f x) (R x)) →
      Decides call K (.any (xs.map f)) (∃ x ∈ xs, R x)
  | [], _ => fun s hs => ⟨false, s, rfl, by simp, rfl, hs⟩
  | x :: xs, h => by
    intro s hs
    obtain ⟨hx, hxs⟩ := forall_mem_cons.mp h
    obtain ⟨p, s₁, heval, hp, hlocals, hs₁⟩ := hx s hs
    cases p with
    | true =>
      refine ⟨true, s₁, ?_, by simp [← hp], hlocals, hs₁⟩
      simp [Expr.eval, Expr.evalOr, heval]
    | false =>
      obtain ⟨q, s₂, heval₂, hq, hlocals₂, hs₂⟩ := Decides.anyOf hxs s₁ hs₁
      rw [Expr.eval] at heval₂
      refine ⟨q, s₂, ?_, by simp [← hp, ← hq], hlocals₂.trans hlocals, hs₂⟩
      simp [Expr.eval, Expr.evalOr, heval, heval₂]

theorem Decides.or (ha : Decides call K a P) (hb : Decides call K b Q) :
    Decides call K (.any [a, b]) (P ∨ Q) := by
  have hany : Decides call K (.any ([(a, P), (b, Q)].map Prod.fst)) (∃ x ∈ [(a, P), (b, Q)], x.2) :=
    Decides.anyOf (forall_mem_cons.mpr ⟨ha, forall_mem_cons.mpr ⟨hb, by simp⟩⟩)
  exact hany.congr (by simp)

theorem decides_name {x : Ident} {s : State} (hx : x.text ∉ positionConstants) {b : Bool}
    (h : s.locals x.text = some (.flag b)) (hb : b = true ↔ P) :
    Decides call (· = s) (.name x) P := by
  rintro s rfl
  refine ⟨b, s, ?_, hb, rfl, rfl⟩
  show (s.lookup x.text, s) = _
  rw [State.lookup_of_local hx h]

end Conditions

section Times

variable {call : Caller} {clock : Value → Clock} {clocks : Clocks} {t : Clock} {s : State}
  {P : Prop}

theorem eval_part (hcall : call.TellsTime clock clocks) {v : Value}
    (hv : taken? s.world.asked = some v) {f : String} (hk : (clock v).part? f = some k) :
    ∃ s', (Expr.member "dt" f).eval call s = (.num k, s') ∧ s'.locals = s.locals ∧
      taken? s'.world.asked = some v := by
  obtain ⟨hvalue, hstill⟩ := hcall.part v (s.lookup "dt") f k s.world hv hk
  refine ⟨(s.request call (.field (s.lookup "dt") f)).2, ?_, rfl, hstill⟩
  show s.request call (.field (s.lookup (Ident.text "dt")) (Ident.text f)) = _
  rw [Scope.text_plain, Scope.text_plain, State.request, hvalue]

theorem apply_ge (k : ℕ) (n : ℤ) : BinaryOp.ge.apply (.num k) (.num n) = .flag (n ≤ (k : ℤ)) := by
  show Value.flag ((n : ℚ) ≤ (k : ℚ)) = _
  norm_cast

theorem apply_le (k : ℕ) (n : ℤ) : BinaryOp.le.apply (.num k) (.num n) = .flag ((k : ℤ) ≤ n) := by
  show Value.flag ((k : ℚ) ≤ (n : ℚ)) = _
  norm_cast

theorem apply_lt (k : ℕ) (n : ℤ) : BinaryOp.lt.apply (.num k) (.num n) = .flag ((k : ℤ) < n) := by
  show Value.flag ((k : ℚ) < (n : ℚ)) = _
  norm_cast

theorem decides_weekday [Decidable P] (hcall : call.TellsTime clock clocks) {n : ℤ}
    (hop : op.apply (.num t.day.val) (.num n) = .flag (decide P)) :
    Decides call (Knows clock t) (.binary op weekday n) P := by
  intro s hs
  obtain ⟨v, hv, rfl⟩ := hs.taken
  obtain ⟨s', heval, hlocals, hstill⟩ := eval_part hcall hv (f := "day_of_week") rfl
  refine ⟨decide P, s', ?_, decide_eq_true_iff, hlocals, hlocals ▸ hs.minutes, v, hstill, rfl⟩
  show (op.apply (weekday.eval call s).1 (.num n), (weekday.eval call s).2) = _
  rw [weekday, heval, hop]

theorem decides_minutes [Decidable P] {n : ℤ}
    (hop : op.apply (.num t.minutes) (.num n) = .flag (decide P)) :
    Decides call (Knows clock t) (.binary op (var "currentMinutes") n) P := by
  intro s hs
  refine ⟨decide P, s, ?_, decide_eq_true_iff, rfl, hs⟩
  have hlookup : s.lookup "currentMinutes" = .num t.minutes :=
    State.lookup_of_local (by decide) hs.minutes
  show (op.apply (s.lookup "currentMinutes") (.num n), s) = _
  rw [hlookup, hop]

theorem decides_isDay (hcall : call.TellsTime clock clocks) (days : List ℕ) :
    Decides call (Knows clock t) (isDay days) (t.day.val ∈ days) := by
  have hany : Decides call (Knows clock t) (isDay days) (∃ d ∈ days, t.day.val = d) := by
    refine Decides.anyOf fun d _ => decides_weekday hcall ?_
    simp [BinaryOp.apply]
  exact hany.congr (by simp)

theorem decides_workingDay (hcall : call.TellsTime clock clocks) :
    Decides call (Knows clock t) (.all [weekday.ge 1, weekday.le 5])
      (t.day.val ∈ [1, 2, 3, 4, 5]) := by
  have hfirst := decides_weekday hcall (apply_ge t.day 1)
  have hlast := decides_weekday hcall (apply_le t.day 5)
  refine (hfirst.and hlast).congr ?_
  simp only [mem_cons, not_mem_nil, or_false]
  omega

theorem decides_inWindow (first last : ℤ) :
    Decides call (Knows clock t) (inWindow first last) (InWindow first last t.minutes) := by
  have hfirst : Decides call (Knows clock t) _ _ := decides_minutes (apply_ge t.minutes first)
  have hlast : Decides call (Knows clock t) _ _ := decides_minutes (apply_lt t.minutes last)
  by_cases h : first < last
  · simp only [inWindow, InWindow, if_pos h]
    exact hfirst.and hlast
  · simp only [inWindow, InWindow, if_neg h]
    exact hfirst.or hlast

end Times

/-! ## Code that sets a flag -/

/-- The code sets a flag if something holds, where the time is known and the flag is not set. -/
def Raises (call : Caller) (clock : Value → Clock) (bound : ℕ) (t : Clock) (flag : Ident) (P : Prop)
    (code : List Stmt) : Prop :=
  ∀ s, Knows clock t s → s.locals flag.text = some (.flag false) →
    ∃ b s', Stmt.execAll call bound code s = (.on, s') ∧ (b = true ↔ P) ∧
      s'.locals flag.text = some (.flag b) ∧
      ∀ x, x ≠ flag.text → x ≠ "isDayAllowed" → s'.locals x = s.locals x

/-- The variables of timing code, apart from its flag. -/
def timingNames : List String := ["dt", "currentMinutes", "isDayAllowed"]

/-- The code declares a flag, which holds in the end if something does, and changes no variable but
its own. -/
def Sets (call : Caller) (bound : ℕ) (flag : Ident) (P : Prop) (code : List Stmt) : Prop :=
  ∀ s, ∃ b s', Stmt.execAll call bound code s = (.on, s') ∧ (b = true ↔ P) ∧
    s'.locals flag.text = some (.flag b) ∧
    ∀ x, x ≠ flag.text → x ∉ timingNames → s'.locals x = s.locals x

section Code

variable {call : Caller} {clock : Value → Clock} {clocks : Clocks} {bound : ℕ} {t : Clock}
  {flag : Ident} {e : Expr} {code : List Stmt} {P Q : Prop}

theorem Raises.congr (h : Raises call clock bound t flag P code) (hPQ : P ↔ Q) :
    Raises call clock bound t flag Q code :=
  fun s hs hflag =>
    let ⟨b, s', hexec, hb, hrest⟩ := h s hs hflag
    ⟨b, s', hexec, hb.trans hPQ, hrest⟩

theorem raises_nil : Raises call clock bound t flag False [] :=
  fun s _ hflag => ⟨false, s, rfl, by simp, hflag, fun _ _ _ => rfl⟩

theorem Raises.note (h : Raises call clock bound t flag P code) (text : String) :
    Raises call clock bound t flag P (.note text :: code) := h

theorem Raises.blank (h : Raises call clock bound t flag P code) :
    Raises call clock bound t flag P (.blank :: code) := h

theorem Raises.notes (h : Raises call clock bound t flag P code) {α : Type} (text : α → String) :
    ∀ xs : List α, Raises call clock bound t flag P (xs.map (fun x => .note (text x)) ++ code)
  | [] => h
  | _ :: xs => (h.notes text xs).note _

theorem raises_assign : Raises call clock bound t flag True [.assign flag true] := by
  intro s _ hflag
  refine ⟨true, s.declare flag.text (.flag true), ?_, by simp, s.locals_declare_self _ _,
    fun x hx _ => s.locals_declare_of_ne hx _⟩
  show (Flow.on, s.set flag.text (.flag true)) = _
  rw [State.set, if_pos (by rw [hflag]; rfl)]

theorem Raises.branch (h : Raises call clock bound t flag Q code)
    (he : Decides call (Knows clock t) e P) :
    Raises call clock bound t flag (P ∧ Q) [.branch e code] := by
  intro s hs hflag
  obtain ⟨p, s₁, heval, hp, hlocals, hs₁⟩ := he s hs
  rw [Stmt.execAll_branch, heval]
  cases p with
  | false => exact ⟨false, s₁, rfl, by simp [← hp], hlocals ▸ hflag, fun _ _ _ => hlocals ▸ rfl⟩
  | true =>
    obtain ⟨b, s₂, hexec, hb, hset, hframe⟩ := h s₁ hs₁ (hlocals ▸ hflag)
    refine ⟨b, s₂, ?_, by simp [← hp, hb], hset, fun x hx hday => ?_⟩
    · rw [Value.isTrue_flag, if_pos rfl, append_nil]
      exact hexec
    · rw [hframe x hx hday, hlocals]

theorem raises_guard (he : Decides call (Knows clock t) e P) :
    Raises call clock bound t flag P [.guard e (.assign flag true)] :=
  (raises_assign.branch he).congr (Iff.of_eq (and_true P))

theorem Raises.underDay (h : Raises call clock bound t flag Q code)
    (hflag : flag.text ∉ timingNames) (he : Decides call (Knows clock t) e P) :
    Raises call clock bound t flag (P ∧ Q)
      [.declare "bool" "isDayAllowed" e, .blank, .branch "isDayAllowed" code] := by
  intro s hs hfalse
  obtain ⟨p, s₁, heval, hp, hlocals, hs₁⟩ := he s hs
  let s₂ := s₁.declare "isDayAllowed" (.flag p)
  have hs₂ : Knows clock t s₂ := ⟨hs₁.minutes, hs₁.taken⟩
  have hday : flag.text ≠ "isDayAllowed" := fun heq => hflag (by rw [heq]; decide)
  have hfalse₂ : s₂.locals flag.text = some (.flag false) := by
    rw [s₁.locals_declare_of_ne hday, hlocals, hfalse]
  have hlookup : s₂.lookup "isDayAllowed" = .flag p :=
    State.lookup_of_local (by decide) (s₁.locals_declare_self _ _)
  have hframe₂ (x : String) (hx : x ≠ "isDayAllowed") : s₂.locals x = s.locals x := by
    rw [s₁.locals_declare_of_ne hx, hlocals]
  have hstart : Stmt.execAll call bound
      [.declare "bool" "isDayAllowed" e, .blank, .branch "isDayAllowed" code] s =
        Stmt.execAll call bound (if p = true then code else []) s₂ := by
    rw [Stmt.execAll_declare, heval]
    show Stmt.execAll call bound [.branch "isDayAllowed" code] s₂ = _
    rw [Stmt.execAll_branch]
    show Stmt.execAll call bound (if (s₂.lookup "isDayAllowed").isTrue = true then _ else _) s₂ = _
    rw [hlookup, Value.isTrue_flag, append_nil]
  rw [hstart]
  cases p with
  | false =>
    exact ⟨false, s₂, rfl, by simp [← hp], hfalse₂, fun x _ hx => hframe₂ x hx⟩
  | true =>
    obtain ⟨b, s₃, hexec, hb, hset, hframe⟩ := h s₂ hs₂ hfalse₂
    refine ⟨b, s₃, hexec, by simp [← hp, hb], hset, fun x hx hx' => ?_⟩
    rw [hframe x hx hx', hframe₂ x hx']

theorem exec_clockStmts (hcall : call.TellsTime clock clocks) (bound : ℕ) (useServerTime : Bool)
    (s : State) :
    ∃ s', Stmt.execAll call bound (clockStmts useServerTime) s = (.on, s') ∧
      Knows clock (clocks.of useServerTime) s' ∧
      ∀ x, x ≠ "dt" → x ≠ "currentMinutes" → s'.locals x = s.locals x := by
  let now : Value × State := (s.declare "dt" (.num 0)).request call
    (.call (clockCall useServerTime) [])
  let taken : State := (now.2.request call (.call "TimeToStruct" [now.1, now.2.lookup "dt"])).2
  have hnow : clock now.1 = clocks.of useServerTime := hcall.now useServerTime _
  have htaken : taken? taken.world.asked = some now.1 := hcall.take now.1 _ _
  obtain ⟨s₁, hhour, hlocals₁, htaken₁⟩ := eval_part hcall htaken (f := "hour") rfl
  obtain ⟨s₂, hminute, hlocals₂, htaken₂⟩ := eval_part hcall htaken₁ (f := "min") rfl
  refine ⟨s₂.declare "currentMinutes" (.num (clock now.1).minutes), ?_, ?_, ?_⟩
  · have hminutes : (Expr.member "dt" "hour" * 60 + .member "dt" "min").eval call taken =
        (.num (clock now.1).minutes, s₂) := by
      let hour : Value × State := (Expr.member "dt" "hour").eval call taken
      let minute : Value × State := (Expr.member "dt" "min").eval call hour.2
      show (BinaryOp.add.apply (BinaryOp.mul.apply hour.1 (.num 60)) minute.1, minute.2) = _
      simp only [hour, minute, hhour, hminute, BinaryOp.apply, Value.toNum_num, Clock.minutes,
        Nat.cast_add, Nat.cast_mul, Nat.cast_ofNat]
    have hread : Stmt.execAll call bound (clockStmts useServerTime) s =
        Stmt.execAll call bound
          [.declare "int" "currentMinutes" (.member "dt" "hour" * 60 + .member "dt" "min")]
          taken := by
      cases useServerTime <;> rfl
    rw [hread, Stmt.execAll_declare, hminutes]
    rfl
  · exact ⟨hnow ▸ s₂.locals_declare_self _ _, now.1, htaken₂, hnow⟩
  · intro x hdt hminutes
    rw [s₂.locals_declare_of_ne hminutes, hlocals₂, hlocals₁]
    exact s.locals_declare_of_ne hdt _

theorem Raises.opened (hcall : call.TellsTime clock clocks) {useServerTime : Bool}
    (hflag : flag.text ∉ timingNames)
    (h : Raises call clock bound (clocks.of useServerTime) flag P code) (text : String) :
    Sets call bound flag P
      ([.note text, .declare "bool" flag false] ++ clockStmts useServerTime ++ code) := by
  intro s
  let s₁ := s.declare flag.text (.flag false)
  obtain ⟨s₂, hread, hknows, hframe₂⟩ := exec_clockStmts hcall bound useServerTime s₁
  have hother {x y : String} (hx : x ∉ timingNames) (hy : y ∈ timingNames) : x ≠ y :=
    fun heq => hx (heq ▸ hy)
  have hfalse : s₂.locals flag.text = some (.flag false) := by
    rw [hframe₂ _ (hother hflag (by decide)) (hother hflag (by decide))]
    exact s.locals_declare_self _ _
  obtain ⟨b, s₃, hexec, hb, hset, hframe₃⟩ := h s₂ hknows hfalse
  refine ⟨b, s₃, ?_, hb, hset, fun x hx hnames => ?_⟩
  · show Stmt.execAll call bound (clockStmts useServerTime ++ code) s₁ = _
    rw [Stmt.execAll_append, hread]
    exact hexec
  · rw [hframe₃ x hx (hother hnames (by decide)),
      hframe₂ x (hother hnames (by decide)) (hother hnames (by decide)),
      s.locals_declare_of_ne hx]

theorem sets_alwaysBody : Sets call bound flag True (alwaysBody flag) :=
  fun s => ⟨true, s.declare flag.text (.flag true), rfl, by simp, s.locals_declare_self _ _,
    fun _ hx _ => s.locals_declare_of_ne hx _⟩

theorem sets_sessionBody (hcall : call.TellsTime clock clocks) (hflag : flag.text ∉ timingNames)
    (useServerTime : Bool) (r : SessionRule) :
    Sets call bound flag ((TimingRule.session r).Admits (clocks.of useServerTime))
      (sessionBody useServerTime r flag) := by
  let t := clocks.of useServerTime
  let hours := sessionHours r.session
  have hcheck : Raises call clock bound t flag (InWindow hours.first hours.last t.minutes)
      [.guard (inWindow hours.first hours.last) (.assign flag true)] :=
    raises_guard (decides_inWindow _ _)
  rw [sessionBody]
  split
  · rename_i hdays
    refine Raises.opened hcall hflag
      (((hcheck.branch (decides_workingDay hcall)).congr ?_).note _) _
    rw [← hdays, mem_sessionDays]
    rfl
  split
  · rename_i hdays
    refine Raises.opened hcall hflag ((raises_nil.congr ?_).note _) _
    have hnone : ¬ r.TradesOn t.day := by
      rw [← mem_sessionDays, hdays]
      exact not_mem_nil
    exact ⟨False.elim, fun h => hnone h.1⟩
  split
  · refine Raises.opened hcall hflag ((hcheck.branch (decides_isDay hcall _)).congr ?_) _
    rw [mem_sessionDays]
    rfl
  · rename_i hseven
    refine Raises.opened hcall hflag (hcheck.congr ?_) _
    have hall : r.TradesOn t.day := mem_sessionDays.mp (mem_of_seven r.days_sublist hseven _)
    exact ⟨fun h => ⟨hall, h⟩, fun h => h.2⟩

theorem raises_slotBody (useServerTime : Bool) (slots : List TimeSlot) :
    Raises call clock bound t flag (∃ slot ∈ slots, InWindow slot.first slot.last t.minutes)
      (slotBody useServerTime slots flag) := by
  have hany : Decides call (Knows clock t)
      (.any (slots.map fun slot => .group (inWindow slot.first slot.last)))
      (∃ slot ∈ slots, InWindow slot.first slot.last t.minutes) :=
    Decides.anyOf fun slot _ => (decides_inWindow _ _).group
  rw [slotBody, append_assoc]
  exact ((raises_guard hany).notes _ _).note _

theorem raises_slots (useServerTime : Bool) (slots : List TimeSlot) :
    Raises call clock bound t flag
      (slots = [] ∨ ∃ slot ∈ slots, InWindow slot.first slot.last t.minutes)
      (if slots.isEmpty then
        [.remarked (.assign flag true) "No time slots defined, trade all day"]
      else slotBody useServerTime slots flag) := by
  cases slots with
  | nil =>
    show Raises call clock bound t flag _ [.assign flag true]
    exact raises_assign.congr (by simp)
  | cons slot slots => exact (raises_slotBody useServerTime (slot :: slots)).congr (by simp)

theorem sets_customBody (hcall : call.TellsTime clock clocks) (hflag : flag.text ∉ timingNames)
    (useServerTime : Bool) (r : CustomRule) :
    Sets call bound flag ((TimingRule.custom r).Admits (clocks.of useServerTime))
      (customBody useServerTime r flag) := by
  let t := clocks.of useServerTime
  have hslots : Raises call clock bound t flag _ _ := raises_slots useServerTime r.timeSlots
  simp only [customBody]
  split
  · rename_i hdays
    rw [append_assoc]
    refine Raises.opened hcall hflag ((raises_nil.congr ?_).note _).blank _
    have hnone : ¬ IsOn r.days t.day := by
      rw [← mem_activeDays, hdays]
      exact not_mem_nil
    exact ⟨False.elim, fun h => hnone h.1⟩
  · rw [append_assoc, append_assoc]
    split
    · rename_i hseven
      have hall : IsOn r.days t.day :=
        mem_activeDays.mp (mem_of_seven (activeDays_sublist _) (by omega) _)
      have hunder := (hslots.underDay hflag decides_true).congr
        (Q := (TimingRule.custom r).Admits t)
        ⟨fun h => ⟨hall, h.2⟩, fun h => ⟨trivial, h.2⟩⟩
      exact Raises.opened hcall hflag hunder.blank _
    · have hunder := (hslots.underDay hflag (decides_isDay hcall (activeDays r.days)).group).congr
        (Q := (TimingRule.custom r).Admits t) (by rw [mem_activeDays]; rfl)
      exact Raises.opened hcall hflag hunder.blank _

/-- **One timing node** sets its flag if it admits the time. -/
theorem sets_timingBody (hcall : call.TellsTime clock clocks) (hflag : flag.text ∉ timingNames)
    {n : Node} {body : List Stmt} (hbody : timingBody n flag = .ok body) :
    Sets call bound flag (n.Admits clocks) body := by
  have hadmits {useServerTime : Bool} {rule : TimingRule}
      (hp : n.data.payload = .timing useServerTime rule) :
      n.Admits clocks ↔ rule.Admits (clocks.of useServerTime) := by
    simp [Node.Admits, hp]
  rw [timingBody] at hbody
  split at hbody
  · rename_i hp
    rw [hadmits hp]
    cases hbody
    exact sets_alwaysBody
  · rename_i hp
    rw [hadmits hp]
    cases hbody
    exact sets_sessionBody hcall hflag _ _
  · rename_i hp
    rw [hadmits hp]
    cases hbody
    exact sets_customBody hcall hflag _ _
  · cases hbody

/-! ## Several timing nodes -/

theorem timingFlag_text_inj {j : ℕ} (h : (timingFlag j).text = (timingFlag k).text) : j = k := by
  rw [Ident.text_eq, Ident.text_eq] at h
  have hdigits : toString j ++ "" = toString k ++ "" := String.append_right_inj _ |>.mp h
  exact eq_of_numeral_eq (by simpa using hdigits)

/-- One of several timing nodes leaves its flag set, and changes no flag of another. -/
theorem exec_timingScope (h : Sets call bound "_t" P code) (s : State) :
    ∃ b s', Stmt.execAll call bound (timingScope k code) s = (.on, s') ∧ (b = true ↔ P) ∧
      s'.locals (timingFlag k).text = some (.flag b) ∧
      ∀ j, j ≠ k → s'.locals (timingFlag j).text = s.locals (timingFlag j).text := by
  have hother (j : ℕ) : (timingFlag j).text ∉ "_t" :: timingNames :=
    Ident.text_notMem (x := timingFlag j) (show startsNone _ "isTradingTime" = true by decide)
  let s₁ := s.declare (timingFlag k).text (.flag false)
  obtain ⟨b, s₂, hexec, hb, hset, hframe⟩ := h s₁
  have hkeep (j : ℕ) : s₂.locals (timingFlag j).text = s₁.locals (timingFlag j).text :=
    hframe _ (ne_of_not_mem_cons (hother j)) (not_mem_of_not_mem_cons (hother j))
  have hlookup : s₂.lookup "_t" = .flag b := State.lookup_of_local (by decide) hset
  have hsome : (s₂.locals (timingFlag k).text).isSome := by
    rw [hkeep, s.locals_declare_self]
    rfl
  refine ⟨b, s₂.declare (timingFlag k).text (.flag b), ?_, hb, s₂.locals_declare_self _ _, ?_⟩
  · show Flow.andThen (Stmt.execAll call bound (code ++ [.assign (timingFlag k) "_t"]) s₁) _ = _
    rw [Stmt.execAll_append, hexec]
    show (Flow.on, s₂.set (timingFlag k).text (s₂.lookup "_t")) = _
    rw [hlookup, State.set, if_pos hsome]
  · intro j hj
    have hne : (timingFlag j).text ≠ (timingFlag k).text := fun h => hj (timingFlag_text_inj h)
    rw [s₂.locals_declare_of_ne hne, hkeep, s.locals_declare_of_ne hne]

/-- **Several timing nodes** each leave a flag of their own set if they admit the time. -/
theorem exec_timingScopes (hcall : call.TellsTime clock clocks) (bound : ℕ) :
    ∀ {nodes : List Node} (k : ℕ), Role.All .timing nodes → ∀ s, ∃ s',
      Stmt.execAll call bound (timingScopes k nodes).1 s = (.on, s') ∧
      (∀ j < k, s'.locals (timingFlag j).text = s.locals (timingFlag j).text) ∧
      ∀ i n, nodes[i]? = some n → ∃ b, s'.locals (timingFlag (k + i)).text = some (.flag b) ∧
        (b = true ↔ n.Admits clocks)
  | [], _, _, s => ⟨s, rfl, fun _ _ => rfl, by simp⟩
  | n :: ns, k, h, s => by
    obtain ⟨hn, hns⟩ := forall_mem_cons.mp h
    obtain ⟨body, hbody⟩ := timingBody_ok hn "_t"
    have hsets : Sets call bound "_t" (n.Admits clocks) body :=
      sets_timingBody hcall (by decide) hbody
    obtain ⟨b, s₁, hexec₁, hb, hset, hkeep₁⟩ := exec_timingScope (k := k) hsets s
    obtain ⟨s₂, hexec₂, hkeep₂, hflags⟩ := exec_timingScopes hcall bound (k + 1) hns s₁
    refine ⟨s₂, ?_, fun j hj => ?_, fun i m hm => ?_⟩
    · rw [timingScopes, hbody]
      show Stmt.execAll call bound (timingScope k body ++ (timingScopes (k + 1) ns).1) s = _
      rw [Stmt.execAll_append, hexec₁]
      exact hexec₂
    · rw [hkeep₂ j (by omega), hkeep₁ j (by omega)]
    -- The flag of the first node is kept by all later ones.
    · cases i with
      | zero =>
        cases hm
        exact ⟨b, (hkeep₂ k (by omega)).trans hset, hb⟩
      | succ i =>
        rw [show k + (i + 1) = k + 1 + i by omega]
        exact hflags i m hm

theorem emitTiming_tick : ∀ {nodes : List Node}, Role.All .timing nodes → 2 ≤ nodes.length →
      (emitTiming nodes).code.tick = (timingScopes 0 nodes).1 ++
        [.declare "bool" "isTradingTime"
          (.any ((List.range nodes.length).map fun k => Expr.name (timingFlag k))), .blank]
  | n₁ :: n₂ :: ns, hnodes, _ => by
    have hfault : (timingScopes 0 (n₁ :: n₂ :: ns)).2 = none := timingScopes_fault hnodes
    simp only [emitTiming, hfault]

theorem exec_emitTiming (hcall : call.TellsTime clock clocks) (bound : ℕ)
    (hnodes : Role.All .timing nodes) (hmany : 2 ≤ nodes.length) (s : State) :
    ∃ b s', Stmt.execAll call bound (emitTiming nodes).code.tick s = (.on, s') ∧
      s'.locals "isTradingTime" = some (.flag b) ∧ (b = true ↔ ∃ n ∈ nodes, n.Admits clocks) := by
  obtain ⟨s₁, hexec, -, hflags⟩ := exec_timingScopes hcall bound 0 hnodes s
  have hname (k : ℕ) (hk : k ∈ List.range nodes.length) :
      Decides call (· = s₁) (.name (timingFlag k)) (∃ n, nodes[k]? = some n ∧ n.Admits clocks) := by
    obtain ⟨n, hn⟩ : ∃ n, nodes[k]? = some n :=
      ⟨_, getElem?_eq_getElem (mem_range.mp hk)⟩
    obtain ⟨b, hset, hb⟩ := hflags k n hn
    rw [Nat.zero_add] at hset
    have hplain : (timingFlag k).text ∉ positionConstants :=
      Ident.text_notMem (x := timingFlag k) (show startsNone _ "isTradingTime" = true by decide)
    exact decides_name hplain hset (by simpa [hn] using hb)
  obtain ⟨b, s₂, heval, hb, -, rfl⟩ := Decides.anyOf hname s₁ rfl
  refine ⟨b, s₂.declare "isTradingTime" (.flag b), ?_, s₂.locals_declare_self _ _, hb.trans ?_⟩
  · rw [emitTiming_tick hnodes hmany, Stmt.execAll_append, hexec, Flow.andThen,
      Stmt.execAll_declare, heval]
    rfl
  · constructor
    · rintro ⟨k, -, n, hn, hadmits⟩
      exact ⟨n, mem_of_getElem? hn, hadmits⟩
    · rintro ⟨n, hn, hadmits⟩
      obtain ⟨k, hk⟩ := mem_iff_getElem?.mp hn
      have hlt : k < nodes.length := (List.getElem?_eq_some_iff.mp hk).1
      exact ⟨k, mem_range.mpr hlt, n, hk, hadmits⟩

end Code

/-! ## The whole code -/

/-- **Timing code computes the trading window.** Run at any time on a platform that tells the time,
it ends with `isTradingTime` set exactly if one of the timing nodes admits the time on its clock. -/
theorem isTradingTime_iff (hne : nodes ≠ [])
    (hnodes : ∀ n ∈ nodes, n.data.payload.role? = some .timing)
    {clock : Value → Clock} {clocks : Clocks} (hmarket : market.ShowsTime clock clocks)
    (functions : List Function) (bound depth : ℕ) (s : State) :
    (emitTiming nodes).fault = none ∧
      ∃ b s', Stmt.execAll (callAt market functions bound depth) bound
          (emitTiming nodes).code.tick s = (.on, s') ∧
        s'.lookup "isTradingTime" = .flag b ∧ (b = true ↔ ∃ n ∈ nodes, n.Admits clocks) := by
  have hcall := callAt_tellsTime hmarket functions bound depth
  refine ⟨emitTiming_fault hnodes, ?_⟩
  match nodes, hne, hnodes with
  | [n], _, hnodes =>
    obtain ⟨body, hbody⟩ := timingBody_ok (hnodes n mem_cons_self) "isTradingTime"
    have hsets : Sets _ bound "isTradingTime" (n.Admits clocks) body :=
      sets_timingBody hcall (by decide) hbody
    obtain ⟨b, s', hexec, hb, hset, -⟩ := hsets s
    refine ⟨b, s', ?_, State.lookup_of_local (by decide) hset, by simpa using hb⟩
    simp only [emitTiming, hbody]
    rw [Stmt.execAll_append, hexec]
    rfl
  | _ :: _ :: _, _, hnodes =>
    obtain ⟨b, s', hexec, hset, hb⟩ := exec_emitTiming hcall bound hnodes (by simp) s
    exact ⟨b, s', hexec, State.lookup_of_local (by decide) hset, hb⟩

/-- A market that tells the time: the number 1 means that of the server, all else GMT. -/
def telling (clocks : Clocks) : Market := fun asked q =>
  match q with
  | .call "TimeCurrent" [] => .num 1
  | .field _ f =>
    match (taken? asked).bind fun v => (clocks.of (v = .num 1)).part? f with
    | some k => .num k
    | none => .num 0
  | _ => .num 0

theorem telling_showsTime (clocks : Clocks) :
    (telling clocks).ShowsTime (fun v => clocks.of (v = .num 1)) clocks where
  now useServerTime _ := by
    cases useServerTime
    · exact congrArg clocks.of (show decide (Value.num 0 = .num 1) = false by decide)
    · exact congrArg clocks.of (show decide (Value.num 1 = .num 1) = true by decide)
  part asked v r f k hv hk := by
    simp only [telling, hv, Option.bind_some, hk]

/-- A node with a rule. -/
def timed (useServerTime : Bool) (rule : TimingRule) : Node where
  id := "t"
  type := "timing"
  data := { common := default, payload := .timing useServerTime rule }

/-- The Sydney session, which goes past midnight, and Saturday evenings. -/
def eveningNodes : List Node :=
  [timed true (.session ⟨.sydney, true, none⟩),
    timed false (.custom ⟨[("saturday", true), ("sunday", false)], [⟨22, 0, 2, 0⟩]⟩)]

/-- Saturday at 23:30 in one place and Sunday at 1:30 in another. -/
def eveningClocks : Clocks := ⟨⟨6, 23, 30⟩, ⟨0, 1, 30⟩⟩

/-- The start of a program that has no positions and has asked nothing. -/
def freshState : State := ⟨fun _ => none, ⟨[], none, fun _ => none, [], []⟩⟩

/-- The session has no Sundays, but it is late on Saturday on the other clock. -/
theorem isTradingTime_evening :
    (∀ n ∈ eveningNodes, n.data.payload.role? = some .timing) ∧
      (telling eveningClocks).ShowsTime (fun v => eveningClocks.of (v = .num 1)) eveningClocks ∧
      (emitTiming eveningNodes).fault = none ∧
      ∃ s', Stmt.execAll (callAt (telling eveningClocks) [] 0 0) 0
          (emitTiming eveningNodes).code.tick freshState = (.on, s') ∧
        s'.lookup "isTradingTime" = .flag true := by
  have hnodes : ∀ n ∈ eveningNodes, n.data.payload.role? = some .timing := by decide
  have htells := telling_showsTime eveningClocks
  obtain ⟨hfault, b, s', hexec, hlookup, hb⟩ :=
    isTradingTime_iff (by decide) hnodes htells [] 0 0 freshState
  have hadmits : ∃ n ∈ eveningNodes, n.Admits eveningClocks := by
    refine ⟨_, mem_cons_of_mem _ mem_cons_self, false, _, rfl, ?_, .inr ?_⟩
    · exact ⟨"saturday", mem_cons_self, rfl⟩
    · refine ⟨_, mem_cons_self, ?_⟩
      show InWindow 1320 120 1410
      simp [InWindow]
  rw [hb.mpr hadmits] at hlookup
  exact ⟨hnodes, htells, hfault, s', hexec, hlookup⟩

end TradeGraph

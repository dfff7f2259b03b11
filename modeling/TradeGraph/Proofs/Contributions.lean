import Mathlib.Data.Finset.Card
import Mathlib.Data.List.Pairwise
import TradeGraph.Proofs.Failure

/-!
# What each signal contributes

Every signal contributes one condition for each side, in the order of the nodes. The two legs of a
crossover contribute together, at the place of the first of them; a loop over the signals finds so
by keeping the crossovers that have contributed. So no signal is lost or counted twice, both sides
have equally many conditions, and neither side lacks some that the other has.
-/

namespace TradeGraph

open List Mql

variable {entry : Node × Signal × Indicator} {indicators priceAction : List Node}

/-! ## Crossovers -/

structure LastLeg (signals : List Signal) (id : String) (fast : Bool) (i : ℕ) : Prop where
  leg : signals[i]?.bind Signal.leg? = some (id, fast)
  last : ∀ j > i, signals[j]?.bind Signal.leg? ≠ some (id, fast)

/-- The legs of a strategy that has both. -/
structure Crossover (signals : List Signal) (id : String) (fast slow : ℕ) : Prop where
  fast : LastLeg signals id true fast
  slow : LastLeg signals id false slow

/-- The signal at a place is a leg of a strategy that has both. -/
def IsLeg (signals : List Signal) (i : ℕ) : Prop :=
  ∃ id fast slow, Crossover signals id fast slow ∧ (i = fast ∨ i = slow)

/-- The strategies that have both legs. -/
def completePairs (signals : List Signal) : Finset String :=
  ((signals.filterMap Signal.leg?).map Prod.fst).toFinset.filter fun id =>
    (crossoverPair? signals id).isSome

section Crossovers

variable {signals : List Signal} {id : String} {i fast slow : ℕ}

theorem getLast?_filter_zipIdx {α : Type} {p : α → Bool} {a : α} {i : ℕ} {l : List α} :
    (l.zipIdx.filter fun x => p x.1).getLast? = some (a, i) ↔
      l[i]? = some a ∧ p a = true ∧ ∀ j > i, ∀ b, l[j]? = some b → p b = false := by
  induction l using List.reverseRecOn with
  | nil => simp
  | append_singleton l x ih =>
    have hzip : (l ++ [x]).zipIdx = l.zipIdx ++ [(x, l.length)] := by simp [zipIdx_append]
    rw [hzip, filter_append]
    by_cases hx : p x = true
    · have hone : [(x, l.length)].filter (fun y => p y.1) = [(x, l.length)] := by simp [hx]
      rw [hone, getLast?_concat]
      grind
    · have hnone : [(x, l.length)].filter (fun y => p y.1) = [] := by simp [hx]
      rw [hnone, append_nil, ih]
      grind

theorem legIndex?_eq_some_iff {isFast : Bool} :
    legIndex? signals id isFast = some i ↔ LastLeg signals id isFast i := by
  have hlast (s : Signal) := getLast?_filter_zipIdx (a := s) (i := i) (l := signals)
    (p := fun s => s.leg? == some (id, isFast))
  rw [legIndex?, Option.map_eq_some_iff]
  constructor
  · rintro ⟨⟨s, j⟩, h, rfl⟩
    obtain ⟨hget, hleg, hafter⟩ := (hlast s).mp h
    refine ⟨by rw [hget]; exact beq_iff_eq.mp hleg, fun j hj heq => ?_⟩
    obtain ⟨t, ht, hleg⟩ := Option.bind_eq_some_iff.mp heq
    simpa [hleg] using hafter j hj t ht
  · rintro ⟨hleg, hafter⟩
    obtain ⟨s, hs, hleg⟩ := Option.bind_eq_some_iff.mp hleg
    refine ⟨(s, i), (hlast s).mpr ⟨hs, beq_iff_eq.mpr hleg, fun j hj t ht => ?_⟩, rfl⟩
    exact beq_eq_false_iff_ne.mpr fun heq => hafter j hj (by rw [ht]; exact heq)

theorem crossoverPair?_eq_some_iff :
    crossoverPair? signals id = some (fast, slow) ↔ Crossover signals id fast slow := by
  rw [crossoverPair?]
  constructor
  · intro h
    split at h
    · rename_i hfast hslow
      cases h
      exact ⟨legIndex?_eq_some_iff.mp hfast, legIndex?_eq_some_iff.mp hslow⟩
    · cases h
  · intro h
    rw [legIndex?_eq_some_iff.mpr h.fast, legIndex?_eq_some_iff.mpr h.slow]

theorem mem_completePairs :
    id ∈ completePairs signals ↔ ∃ fast slow, Crossover signals id fast slow := by
  simp only [completePairs, Finset.mem_filter, mem_toFinset, mem_map,
    Option.isSome_iff_exists, Prod.exists, crossoverPair?_eq_some_iff]
  constructor
  · exact fun h => h.2
  · rintro ⟨fast, slow, h⟩
    obtain ⟨s, hs, hleg⟩ := Option.bind_eq_some_iff.mp h.fast.leg
    have hmem : (id, true) ∈ signals.filterMap Signal.leg? :=
      mem_filterMap.mpr ⟨s, mem_of_getElem? hs, hleg⟩
    exact ⟨⟨id, true, hmem, rfl⟩, fast, slow, h⟩

theorem Crossover.leg (h : Crossover signals id fast slow) (hi : i = fast ∨ i = slow) :
    ∃ isFast, signals[i]?.bind Signal.leg? = some (id, isFast) := by
  rcases hi with rfl | rfl
  · exact ⟨true, h.fast.leg⟩
  · exact ⟨false, h.slow.leg⟩

theorem pairAt?_eq_some_iff : pairAt? signals i = some (fast, slow) ↔
    ∃ id, Crossover signals id fast slow ∧ (i = fast ∨ i = slow) := by
  rw [pairAt?]
  constructor
  · intro h
    split at h
    · rename_i id _ hleg
      split at h
      · rename_i f s hpair
        split at h
        · rename_i hplace
          cases h
          exact ⟨id, crossoverPair?_eq_some_iff.mp hpair, hplace⟩
        · cases h
      · cases h
    · cases h
  · rintro ⟨id, hpair, hplace⟩
    obtain ⟨isFast, hleg⟩ := hpair.leg hplace
    simp only [hleg, crossoverPair?_eq_some_iff.mpr hpair, if_pos hplace]

theorem Crossover.id_eq {id' : String} {fast' slow' : ℕ} (h : Crossover signals id fast slow)
    (h' : Crossover signals id' fast' slow') (hi : i = fast ∨ i = slow)
    (hi' : i = fast' ∨ i = slow') : id = id' := by
  obtain ⟨_, hid⟩ := h.leg hi
  obtain ⟨_, hid'⟩ := h'.leg hi'
  rw [hid] at hid'
  cases hid'
  rfl

theorem Crossover.ne (h : Crossover signals id fast slow) : fast ≠ slow := by
  rintro rfl
  have hleg := h.fast.leg
  rw [h.slow.leg] at hleg
  cases hleg

theorem LastLeg.lt {isFast : Bool} (h : LastLeg signals id isFast i) : i < signals.length := by
  obtain ⟨s, hs, -⟩ := Option.bind_eq_some_iff.mp h.leg
  exact (List.getElem?_eq_some_iff.mp hs).1

end Crossovers

/-! ## Contributors -/

/-- Where a condition comes from: a signal on its own, or the two legs of a crossover. -/
inductive Contributor where
  | single (i : ℕ)
  | crossover (fast slow : ℕ)

/-- The place of an origin among the signals. -/
def Contributor.place : Contributor → ℕ
  | .single i => i
  | .crossover fast slow => min fast slow

/-- The contributors of all conditions, in the order of their places. -/
structure Lists (signals : List Signal) (contributors : List Contributor) : Prop where
  ordered : (contributors.map Contributor.place).Pairwise (· < ·)
  single : ∀ i, .single i ∈ contributors ↔ i < signals.length ∧ ¬ IsLeg signals i
  crossover : ∀ fast slow, .crossover fast slow ∈ contributors ↔
    ∃ id, Crossover signals id fast slow

/-- The origin at a place, if there is one. -/
def contributorAt (signals : List Signal) (i : ℕ) : Option Contributor :=
  match pairAt? signals i with
  | some (fast, slow) => if i = min fast slow then some (.crossover fast slow) else none
  | none => some (.single i)

/-- The contributors, one place after the other. -/
def contributors (signals : List Signal) : List Contributor :=
  (List.range signals.length).filterMap (contributorAt signals)

section Contributors

variable {signals : List Signal} {i fast slow : ℕ}

theorem contributorAt_eq_single_iff {j : ℕ} :
    contributorAt signals i = some (.single j) ↔ i = j ∧ ¬ IsLeg signals i := by
  rw [contributorAt, IsLeg]
  cases hpair : pairAt? signals i with
  | some pair =>
    obtain ⟨id, hcross, hplace⟩ := pairAt?_eq_some_iff.mp hpair
    have hleg : ∃ id fast slow, Crossover signals id fast slow ∧ (i = fast ∨ i = slow) :=
      ⟨id, pair.1, pair.2, hcross, hplace⟩
    simp only [hleg, not_true_eq_false, and_false, iff_false]
    split <;> simp
  | none =>
    have hnone : ¬ ∃ id fast slow, Crossover signals id fast slow ∧ (i = fast ∨ i = slow) := by
      rintro ⟨id, fast, slow, hcross, hplace⟩
      rw [pairAt?_eq_some_iff.mpr ⟨id, hcross, hplace⟩] at hpair
      cases hpair
    simp only [hnone, not_false_eq_true, and_true, Option.some.injEq, Contributor.single.injEq]

theorem contributorAt_eq_crossover_iff : contributorAt signals i = some (.crossover fast slow) ↔
    i = min fast slow ∧ ∃ id, Crossover signals id fast slow := by
  rw [contributorAt]
  constructor
  · intro h
    split at h
    · rename_i f s hpair
      split at h
      · rename_i hplace
        cases h
        obtain ⟨id, hcross, -⟩ := pairAt?_eq_some_iff.mp hpair
        exact ⟨hplace, id, hcross⟩
      · cases h
    · cases h
  · rintro ⟨hplace, id, hcross⟩
    have hpair : pairAt? signals i = some (fast, slow) :=
      pairAt?_eq_some_iff.mpr ⟨id, hcross, by omega⟩
    simp only [hpair, if_pos hplace]

theorem contributorAt_eq_none_iff : contributorAt signals i = none ↔
    ∃ id fast slow, Crossover signals id fast slow ∧ i = max fast slow := by
  rw [contributorAt]
  constructor
  · intro h
    split at h
    · rename_i f s hpair
      split at h
      · cases h
      · obtain ⟨id, hcross, hplace⟩ := pairAt?_eq_some_iff.mp hpair
        exact ⟨id, f, s, hcross, by omega⟩
    · cases h
  · rintro ⟨id, fast, slow, hcross, hplace⟩
    have hpair : pairAt? signals i = some (fast, slow) :=
      pairAt?_eq_some_iff.mpr ⟨id, hcross, by omega⟩
    have hne := hcross.ne
    simp only [hpair]
    exact if_neg (by omega)

theorem place_of_contributorAt {o : Contributor} (h : contributorAt signals i = some o) :
    o.place = i := by
  cases o with
  | single j => exact (contributorAt_eq_single_iff.mp h).1.symm
  | crossover fast slow => exact (contributorAt_eq_crossover_iff.mp h).1.symm

theorem lists_contributors (signals : List Signal) : Lists signals (contributors signals) where
  ordered := by
    rw [contributors, pairwise_map, pairwise_filterMap]
    refine pairwise_lt_range.imp fun hlt o ho p hp => ?_
    rw [place_of_contributorAt ho, place_of_contributorAt hp]
    exact hlt
  single i := by
    simp only [contributors, mem_filterMap, mem_range, contributorAt_eq_single_iff]
    constructor
    · rintro ⟨j, hj, rfl, hleg⟩
      exact ⟨hj, hleg⟩
    · rintro ⟨hi, hleg⟩
      exact ⟨i, hi, rfl, hleg⟩
  crossover fast slow := by
    simp only [contributors, mem_filterMap, mem_range, contributorAt_eq_crossover_iff]
    constructor
    · rintro ⟨_, -, -, hid⟩
      exact hid
    · rintro ⟨id, hcross⟩
      have hlt := hcross.fast.lt
      exact ⟨min fast slow, by omega, rfl, id, hcross⟩

def laterLeg (signals : List Signal) (id : String) : ℕ :=
  match crossoverPair? signals id with
  | some (fast, slow) => max fast slow
  | none => 0

theorem laterLeg_eq {id : String} (h : Crossover signals id fast slow) :
    laterLeg signals id = max fast slow := by
  rw [laterLeg, crossoverPair?_eq_some_iff.mpr h]

/-- The places without a condition are as many as the strategies with both legs. -/
theorem length_silent (signals : List Signal) :
    ((List.range signals.length).filter fun i => (contributorAt signals i).isNone).length =
      (completePairs signals).card := by
  rw [← toFinset_card_of_nodup (nodup_range.filter _)]
  symm
  refine Finset.card_bij (fun id _ => laterLeg signals id) ?_ ?_ ?_
  · intro id hid
    obtain ⟨fast, slow, hcross⟩ := mem_completePairs.mp hid
    have hfast := hcross.fast.lt
    have hslow := hcross.slow.lt
    rw [laterLeg_eq hcross, mem_toFinset, mem_filter, mem_range,
      Option.isNone_iff_eq_none]
    exact ⟨by omega, contributorAt_eq_none_iff.mpr ⟨id, fast, slow, hcross, rfl⟩⟩
  · intro id hid id' hid' heq
    obtain ⟨fast, slow, hcross⟩ := mem_completePairs.mp hid
    obtain ⟨fast', slow', hcross'⟩ := mem_completePairs.mp hid'
    rw [laterLeg_eq hcross, laterLeg_eq hcross'] at heq
    exact hcross.id_eq hcross' (i := max fast slow) (by omega) (by omega)
  · intro i hi
    rw [mem_toFinset, mem_filter, Option.isNone_iff_eq_none] at hi
    obtain ⟨id, fast, slow, hcross, rfl⟩ := contributorAt_eq_none_iff.mp hi.2
    exact ⟨id, mem_completePairs.mpr ⟨fast, slow, hcross⟩, laterLeg_eq hcross⟩

theorem length_contributors (signals : List Signal) :
    (contributors signals).length + (completePairs signals).card = signals.length := by
  have hnone : (fun i => (contributorAt signals i).isNone) =
      fun i => decide ¬ (contributorAt signals i).isSome = true := by
    funext i
    cases contributorAt signals i <;> rfl
  rw [← length_silent, contributors, length_filterMap_eq_countP, ← countP_eq_length_filter,
    hnone, ← length_eq_countP_add_countP, length_range]

end Contributors

/-! ## Signal after signal -/

/-- Where the fast and the slow leg of each strategy stand. -/
abbrev Legs := String → Bool → Option ℕ

/-- The legs after the signals from a place on, a later one in the place of an earlier one. -/
def gatherLegs : ℕ → List Signal → Legs → Legs
  | _, [], legs => legs
  | i, s :: rest, legs =>
    gatherLegs (i + 1) rest fun id fast => if s.leg? = some (id, fast) then some i else legs id fast

/-- What the signals from a place on contribute, where the crossovers of some strategies have
contributed already. -/
def contribute (legs : Legs) : ℕ → List Signal → List String → List Contributor
  | _, [], _ => []
  | i, s :: rest, emitted =>
    match s.leg? with
    | none => .single i :: contribute legs (i + 1) rest emitted
    | some (id, _) =>
      match legs id true, legs id false with
      | some fast, some slow =>
        if i = fast ∨ i = slow then
          if id ∈ emitted then contribute legs (i + 1) rest emitted
          else .crossover fast slow :: contribute legs (i + 1) rest (id :: emitted)
        else .single i :: contribute legs (i + 1) rest emitted
      | _, _ => .single i :: contribute legs (i + 1) rest emitted

/-- The strategies whose crossover has contributed before a place. -/
def Emitted (signals : List Signal) (i : ℕ) (emitted : List String) : Prop :=
  ∀ id, id ∈ emitted ↔ ∃ fast slow, Crossover signals id fast slow ∧ min fast slow < i

/-- What the signals contribute, one after the other. -/
def collected (signals : List Signal) : List Contributor :=
  contribute (gatherLegs 0 signals fun _ _ => none) 0 signals []

section Loop

variable {signals : List Signal} {id : String} {i fast slow : ℕ} {emitted : List String}

theorem gatherLegs_eq (isFast : Bool) : ∀ (rest : List Signal) (i : ℕ) (legs : Legs),
    gatherLegs i rest legs id isFast =
      ((((rest.zipIdx i).filter fun (s, _) => s.leg? == some (id, isFast)).getLast?.map Prod.snd).or
        (legs id isFast))
  | [], _, _ => rfl
  | s :: rest, i, legs => by
    rw [gatherLegs, gatherLegs_eq isFast rest, zipIdx_cons, filter_cons]
    -- this leg counts only if none of the rest does
    by_cases hs : s.leg? = some (id, isFast)
    · simp only [hs, if_true, beq_self_eq_true, getLast?_cons]
      cases getLast? _ <;> rfl
    · simp [hs]

theorem gatherLegs_eq_legIndex? (signals : List Signal) :
    gatherLegs 0 signals (fun _ _ => none) = legIndex? signals := by
  funext id isFast
  rw [gatherLegs_eq, Option.or_none]
  rfl

theorem Crossover.unique {fast' slow' : ℕ} (h : Crossover signals id fast slow)
    (h' : Crossover signals id fast' slow') : fast = fast' ∧ slow = slow' := by
  have heq := (crossoverPair?_eq_some_iff.mpr h).symm.trans (crossoverPair?_eq_some_iff.mpr h')
  exact Prod.mk.inj (Option.some.inj heq)

/-- A place where no crossover contributes adds none. -/
theorem Emitted.pass (he : Emitted signals i emitted)
    (h : ∀ fast slow, contributorAt signals i ≠ some (.crossover fast slow)) :
    Emitted signals (i + 1) emitted := by
  intro id
  rw [he]
  refine exists_congr fun fast => exists_congr fun slow => and_congr_right fun hcross => ?_
  have hne : i ≠ min fast slow := fun hi =>
    h fast slow (contributorAt_eq_crossover_iff.mpr ⟨hi, id, hcross⟩)
  omega

theorem Emitted.add (he : Emitted signals i emitted) (hcross : Crossover signals id fast slow)
    (hi : i = min fast slow) : Emitted signals (i + 1) (id :: emitted) := by
  intro id'
  rw [mem_cons, he]
  constructor
  · rintro (rfl | ⟨f, s, h, hlt⟩)
    · exact ⟨fast, slow, hcross, by omega⟩
    · exact ⟨f, s, h, by omega⟩
  · rintro ⟨f, s, h, hlt⟩
    by_cases heq : i = min f s
    · exact .inl (h.id_eq hcross (i := i) (by omega) (by omega))
    · exact .inr ⟨f, s, h, by omega⟩

theorem Emitted.mem_iff (he : Emitted signals i emitted) (hcross : Crossover signals id fast slow) :
    id ∈ emitted ↔ min fast slow < i := by
  rw [he]
  constructor
  · rintro ⟨f, s, h, hlt⟩
    obtain ⟨rfl, rfl⟩ := hcross.unique h
    exact hlt
  · exact fun hlt => ⟨fast, slow, hcross, hlt⟩

theorem contribute_leg {s : Signal} (hs : signals[i]? = some s) (rest : List Signal)
    (hcross : Crossover signals id fast slow) (hi : i = fast ∨ i = slow) :
    contribute (legIndex? signals) i (s :: rest) emitted =
      if id ∈ emitted then contribute (legIndex? signals) (i + 1) rest emitted
      else .crossover fast slow :: contribute (legIndex? signals) (i + 1) rest (id :: emitted) := by
  obtain ⟨isFast, hleg⟩ := hcross.leg hi
  rw [hs, Option.bind_some] at hleg
  rw [contribute, hleg]
  simp only [legIndex?_eq_some_iff.mpr hcross.fast, legIndex?_eq_some_iff.mpr hcross.slow,
    if_pos hi]

theorem contribute_single (s : Signal) (rest : List Signal) (hi : ¬ IsLeg signals i) :
    contribute (legIndex? signals) i (s :: rest) emitted =
      .single i :: contribute (legIndex? signals) (i + 1) rest emitted := by
  rw [contribute]
  split
  · rfl
  · rename_i id _ hleg
    split
    · rename_i fast slow hfast hslow
      refine if_neg fun hplace => hi ⟨id, fast, slow, ⟨?_, ?_⟩, hplace⟩
      · exact legIndex?_eq_some_iff.mp hfast
      · exact legIndex?_eq_some_iff.mp hslow
    · rfl

/-- **One signal** adds what contributes at its place. -/
theorem contribute_cons {s : Signal} (hs : signals[i]? = some s) (rest : List Signal)
    (he : Emitted signals i emitted) :
    ∃ emitted', Emitted signals (i + 1) emitted' ∧
      contribute (legIndex? signals) i (s :: rest) emitted =
        (contributorAt signals i).toList ++
          contribute (legIndex? signals) (i + 1) rest emitted' := by
  cases hat : contributorAt signals i with
  | none =>
    -- the later leg: the earlier one has contributed for both
    obtain ⟨id, fast, slow, hcross, hi⟩ := contributorAt_eq_none_iff.mp hat
    have hne := hcross.ne
    refine ⟨emitted, he.pass (by simp [hat]), ?_⟩
    rw [contribute_leg hs rest hcross (by omega), if_pos ((he.mem_iff hcross).mpr (by omega))]
    rfl
  | some c =>
    cases c with
    | single j =>
      refine ⟨emitted, he.pass (by simp [hat]), ?_⟩
      obtain ⟨rfl, hnone⟩ := contributorAt_eq_single_iff.mp hat
      exact contribute_single s rest hnone
    | crossover fast slow =>
      -- the earlier leg: its strategy is new, and the later leg is still to come
      obtain ⟨hi, id, hcross⟩ := contributorAt_eq_crossover_iff.mp hat
      refine ⟨id :: emitted, he.add hcross hi, ?_⟩
      rw [contribute_leg hs rest hcross (by omega), if_neg (by rw [he.mem_iff hcross]; omega)]
      rfl

/-- **All signals** from a place on add what contributes at their places. -/
theorem contribute_eq : ∀ {i : ℕ} {rest : List Signal} {emitted : List String},
    signals.drop i = rest → Emitted signals i emitted →
      contribute (legIndex? signals) i rest emitted =
        (List.range' i rest.length).filterMap (contributorAt signals)
  | _, [], _, _, _ => rfl
  | i, s :: rest, emitted, hdrop, he => by
    have hs : signals[i]? = some s := by rw [← head?_drop, hdrop]; rfl
    have hrest : signals.drop (i + 1) = rest := by rw [← tail_drop, hdrop]; rfl
    obtain ⟨emitted', he', hcons⟩ := contribute_cons hs rest he
    rw [hcons, contribute_eq hrest he', length_cons, range'_succ, filterMap_cons]
    cases contributorAt signals i <;> rfl

/-- The loop and the places one by one agree. -/
theorem collected_eq (signals : List Signal) : collected signals = contributors signals := by
  rw [collected, gatherLegs_eq_legIndex?, contribute_eq drop_zero, contributors, range_eq_range']
  intro id
  simp

end Loop

/-! ## What they contribute -/

def Conditions.ofPairs (ps : List (Expr × Expr)) : Conditions :=
  ⟨ps.map Prod.fst, ps.map Prod.snd⟩

theorem Conditions.ofPairs_append (ps qs : List (Expr × Expr)) :
    Conditions.ofPairs (ps ++ qs) = Conditions.ofPairs ps ++ Conditions.ofPairs qs := by
  rw [ofPairs, map_append, map_append]
  rfl

/-- What a signal on its own contributes, where a new input has the name that is given. -/
def ownConditions (i : ℕ) (signal : Signal) (indicator : Indicator) (limit : Ident) : Conditions :=
  match signal.filterRole, indicator with
  | some role, _ => role.conditions i signal.barShift
  | none, .movingAverage _ =>
    if signal.requireEmaBuffer then nearAverage i (signal.barShift + 1) limit
    else indicator.conditions i signal
  | none, _ => indicator.conditions i signal

/-- What a crossover contributes, where a new input has the name that is given. -/
def crossoverConditions (fast slow : ℕ) (signal : Signal) (limit : Ident) : Conditions :=
  let apart (e : Expr) : Expr :=
    if 0.0 < signal.minEmaSeparation then .group (.all [e, isSeparated fast slow limit]) else e
  ⟨(crossing fast slow).buys.map apart, (crossing fast slow).sells.map apart⟩

def Contributor.Gives (entries : List (Node × Signal × Indicator)) :
    Contributor → Expr × Expr → Prop
  | .single i, pair => ∃ n signal indicator limit, entries[i]? = some (n, signal, indicator) ∧
      ownConditions i signal indicator limit = .ofPairs [pair]
  | .crossover fast slow, pair => ∃ n signal indicator limit,
      entries[fast]? = some (n, signal, indicator) ∧
        crossoverConditions fast slow signal limit = .ofPairs [pair]

/-- A price action node at a place gives one condition for each side. -/
def ActionGives (x : Node × ℕ) (pair : Expr × Expr) : Prop :=
  ∃ timeframe action, x.1.data.payload = .priceAction timeframe action ∧
    action.conditions x.2 = .ofPairs [pair]

theorem exists_ownConditions (i : ℕ) (signal : Signal) (indicator : Indicator) (limit : Ident) :
    ∃ pair, ownConditions i signal indicator limit = .ofPairs [pair] := by
  cases hrole : signal.filterRole with
  | some role =>
    simp only [ownConditions, hrole]
    cases role <;> exact ⟨(_, _), rfl⟩
  | none =>
    cases indicator with
    | movingAverage p =>
      simp only [ownConditions, hrole]
      split <;> exact ⟨(_, _), rfl⟩
    | _ =>
      simp only [ownConditions, hrole]
      exact ⟨(_, _), rfl⟩

theorem exists_crossoverConditions (fast slow : ℕ) (signal : Signal) (limit : Ident) :
    ∃ pair, crossoverConditions fast slow signal limit = .ofPairs [pair] :=
  ⟨(_, _), rfl⟩

def signalsOf (entries : List (Node × Signal × Indicator)) : List Signal :=
  entries.map fun (_, s, _) => s

section Parts

variable {entries : List (Node × Signal × Indicator)}

theorem indicatorPart_single {i : ℕ} {n : Node} {signal : Signal} {indicator : Indicator}
    (hpair : pairAt? (signalsOf entries) i = none) (program : Program) :
    (indicatorPart entries i (n, signal, indicator) program).conditions =
      ownConditions i signal indicator (freshInput program "InpPullbackMaxDist") := by
  rw [signalsOf] at hpair
  simp only [indicatorPart, hpair, ownConditions]
  cases signal.filterRole with
  | some role => rfl
  | none =>
    cases indicator with
    | movingAverage p => cases hnear : signal.requireEmaBuffer <;> simp
    | _ => rfl

theorem indicatorPart_first {i fast slow : ℕ} {leg : Node × Signal × Indicator}
    (hpair : pairAt? (signalsOf entries) i = some (fast, slow)) (hfirst : i = min fast slow)
    (hleg : entries[fast]? = some leg) (program : Program) :
    (indicatorPart entries i entry program).conditions =
      crossoverConditions fast slow leg.2.1 (freshInput program "InpMinEmaSeparation") := by
  have hget : entries.getD fast entry = leg := by
    rw [getD_eq_getElem?_getD, hleg]
    rfl
  rw [signalsOf] at hpair
  simp only [indicatorPart, hpair, if_pos hfirst, hget, crossoverConditions]
  split <;> simp

theorem indicatorPart_second {i fast slow : ℕ}
    (hpair : pairAt? (signalsOf entries) i = some (fast, slow)) (hsecond : i ≠ min fast slow)
    (program : Program) : (indicatorPart entries i entry program).conditions = {} := by
  rw [signalsOf] at hpair
  simp only [indicatorPart, hpair, if_neg hsecond]

/-- **One indicator** gives what its contributor does, and nothing if it has none. -/
theorem gives_indicatorPart {i : ℕ} (hentry : entries[i]? = some entry) (program : Program) :
    ∃ pairs, (indicatorPart entries i entry program).conditions = .ofPairs pairs ∧
      Forall₂ (Contributor.Gives entries) (contributorAt (signalsOf entries) i).toList
        pairs := by
  rw [contributorAt]
  cases hpair : pairAt? (signalsOf entries) i with
  | none =>
    obtain ⟨n, signal, indicator⟩ := entry
    let limit := freshInput program "InpPullbackMaxDist"
    obtain ⟨pair, hown⟩ := exists_ownConditions i signal indicator limit
    refine ⟨[pair], ?_, .cons ⟨n, signal, indicator, limit, hentry, hown⟩ .nil⟩
    rw [indicatorPart_single hpair, hown]
  | some legs =>
    obtain ⟨fast, slow⟩ := legs
    by_cases hplace : i = min fast slow
    · obtain ⟨id, hcross, -⟩ := pairAt?_eq_some_iff.mp hpair
      obtain ⟨leg, hleg⟩ : ∃ leg, entries[fast]? = some leg := by
        have hlt := hcross.fast.lt
        rw [signalsOf, length_map] at hlt
        exact ⟨_, getElem?_eq_getElem hlt⟩
      let limit := freshInput program "InpMinEmaSeparation"
      obtain ⟨pair, hboth⟩ := exists_crossoverConditions fast slow leg.2.1 limit
      refine ⟨[pair], ?_, ?_⟩
      · rw [indicatorPart_first hpair hplace hleg, hboth]
      · simp only [if_pos hplace]
        exact .cons ⟨leg.1, leg.2.1, leg.2.2, limit, hleg, hboth⟩ .nil
    · refine ⟨[], indicatorPart_second hpair hplace program, ?_⟩
      simp only [if_neg hplace]
      exact .nil

/-- **All indicators** from a place on give what their contributors do, in order. -/
theorem gives_signalParts : ∀ {i : ℕ} {rest : List (Node × Signal × Indicator)} (program : Program),
    (∀ k, rest[k]? = entries[i + k]?) →
      ∃ pairs, (signalParts entries i rest program).conditions = .ofPairs pairs ∧
        Forall₂ (Contributor.Gives entries)
          ((List.range' i rest.length).filterMap (contributorAt (signalsOf entries))) pairs
  | _, [], _, _ => ⟨[], rfl, .nil⟩
  | i, entry :: rest, program, hplace => by
    have hentry : entries[i]? = some entry := by
      rw [← Nat.add_zero i, ← hplace 0]
      rfl
    have hrest : ∀ k, rest[k]? = entries[i + 1 + k]? := by
      intro k
      rw [show i + 1 + k = i + (k + 1) by omega, ← hplace]
      rfl
    let inputs := (indicatorPart entries i entry program).inputs
    obtain ⟨first, hfirst, hgives⟩ := gives_indicatorPart hentry program
    obtain ⟨later, hlater, hgives'⟩ := gives_signalParts (program ++ { inputs }) hrest
    refine ⟨first ++ later, ?_, ?_⟩
    · rw [signalParts, Conditions.ofPairs_append, ← hfirst, ← hlater]
    · rw [length_cons, range'_succ, filterMap_cons]
      have happend := rel_append hgives hgives'
      cases hat : contributorAt (signalsOf entries) i with
      | none => simpa [hat] using happend
      | some c => simpa [hat] using happend

/-- All price action nodes from a place on give one condition for each side, in order. -/
theorem gives_priceActionParts : ∀ {nodes : List Node} {i : ℕ} {c : Conditions},
    priceActionParts i nodes = .ok c →
      ∃ pairs, c = .ofPairs pairs ∧ Forall₂ ActionGives (nodes.zipIdx i) pairs
  | [], _, _, h => by
    cases h
    exact ⟨[], rfl, .nil⟩
  | n :: ns, i, c, h => by
    rw [priceActionParts] at h
    split at h
    · rename_i timeframe action hp
      cases hrest : priceActionParts (i + 1) ns with
      | error f =>
        rw [hrest] at h
        cases h
      | ok rest =>
        rw [hrest] at h
        cases h
        obtain ⟨pairs, rfl, hgives⟩ := gives_priceActionParts hrest
        obtain ⟨pair, hpair⟩ : ∃ pair, action.conditions i = .ofPairs [pair] := by
          cases action <;> exact ⟨(_, _), rfl⟩
        refine ⟨pair :: pairs, ?_, .cons ⟨timeframe, action, hp, hpair⟩ hgives⟩
        rw [hpair, ← Conditions.ofPairs_append]
        rfl
    · cases h

end Parts

/-! ## All conditions -/

theorem allConditions_gives (hindicators : Role.All .indicator indicators)
    (hactions : Role.All .priceAction priceAction) (program : Program) :
    ∃ inputs own actions,
      allConditions indicators priceAction program = (inputs, .ok (.ofPairs (own ++ actions))) ∧
      Forall₂ (Contributor.Gives (indicatorEntries indicators))
        (contributors (signalsOf (indicatorEntries indicators))) own ∧
      Forall₂ ActionGives priceAction.zipIdx actions := by
  let entries := indicatorEntries indicators
  obtain ⟨hentries, -⟩ := mapM_indicatorEntries hindicators
  obtain ⟨c, hc⟩ := priceActionParts_ok (i := 0) hactions
  have hplace : ∀ k, entries[k]? = entries[0 + k]? := by simp
  obtain ⟨own, hown, hgives⟩ := gives_signalParts program hplace
  obtain ⟨actions, rfl, hactions⟩ := gives_priceActionParts hc
  refine ⟨(signalParts entries 0 entries program).inputs, own, actions, ?_, ?_, hactions⟩
  · simp only [allConditions, hentries, hc, Conditions.ofPairs_append, ← hown, entries]
  · rw [contributors, range_eq_range', signalsOf, length_map]
    exact hgives

theorem conditionStmts_ofPairs (mode : ConditionMode) (orders : Orders)
    (pairs : List (Expr × Expr)) :
    conditionStmts mode orders (.ofPairs pairs) = orders.sides.map fun side =>
      .declare "bool" (conditionVar side) (joined mode ((Conditions.ofPairs pairs).of side)) := by
  obtain ⟨buy, sell⟩ := orders
  cases pairs <;> cases buy <;> cases sell <;> rfl

/-- Is the statement a comment in the midst of code? -/
def Mql.Stmt.isNote : Stmt → Bool
  | .note _ => true
  | _ => false

theorem entryOpening_notes (ctx : Context) (orders : Orders) (pairs : List (Expr × Expr)) :
    ∀ s ∈ (entryOpening ctx orders (.ofPairs pairs)).tick, s.isNote = false := by
  have hcounter : ∀ s ∈ dailyCounter.tick, s.isNote = false := by
    simp [dailyCounter, Stmt.isNote, Stmt.declare]
  have hlimits : ∀ s ∈ (dailyLimits ctx.settings).tick, s.isNote = false := by
    simp only [dailyLimits, forall_mem_append]
    refine ⟨⟨by simp [Stmt.isNote, Stmt.declare], ?_⟩, ?_⟩ <;> split <;> simp [Stmt.isNote]
  simp only [entryOpening, Program.append_tick, conditionStmts_ofPairs, forall_mem_append,
    forall_mem_map]
  refine ⟨⟨⟨⟨by simp [Stmt.isNote], fun _ _ => rfl⟩, by simp [Stmt.isNote, Stmt.declare]⟩, ?_⟩, ?_⟩
  · split
    · exact hcounter
    · simp
  · split
    · exact hlimits
    · simp

theorem entryOrders_notes (ctx : Context) (program : Program) (inputs : List Input)
    (sizes : List (Side × Sizing)) (priceAction : List Node) :
    ∀ s ∈ (entryOrders ctx program inputs sizes priceAction).code.tick, s.isNote = false := by
  simp only [entryOrders, Program.append_tick, forall_mem_append]
  refine ⟨⟨?_, by simp [executeBlock, Stmt.isNote]⟩, ?_⟩
  · split
    · simp
    · simp [pendingNeeds]
  · split
    · simp [Stmt.isNote]
    · simp

theorem emitEntry_notes {program : Program} {inputs : List Input} {pairs : List (Expr × Expr)}
    (h : allConditions indicators priceAction program = (inputs, .ok (.ofPairs pairs)))
    (orders : Orders) (ctx : Context) :
    ∀ s ∈ (emitEntry indicators priceAction orders ctx program).code.tick, s.isNote = false := by
  simp only [emitEntry, h]
  split
  · simp
  · split
    · rw [Program.append_tick]
      exact entryOpening_notes ctx orders pairs
    · rw [Program.append_tick, Program.append_tick, forall_mem_append]
      exact ⟨entryOpening_notes ctx orders pairs, entryOrders_notes _ _ _ _ _⟩

/-- **No signal is lost or counted twice.** All conditions are found, one for each side from every
signal that is on its own and from every crossover, in the order of the signals, and then from every
price action node; so both sides have as many as there are nodes, less one for each crossover, and
an entry never warns that a side has none. -/
theorem conditions_complete (hindicators : ∀ n ∈ indicators, n.data.payload.role? = some .indicator)
    (hactions : ∀ n ∈ priceAction, n.data.payload.role? = some .priceAction) (program : Program) :
    ∃ inputs c own actions cs, allConditions indicators priceAction program = (inputs, .ok c) ∧
      c.buys = (own ++ actions).map Prod.fst ∧ c.sells = (own ++ actions).map Prod.snd ∧
      c.buys.length = c.sells.length ∧
      c.buys.length + (completePairs (signalsOf (indicatorEntries indicators))).card =
        indicators.length + priceAction.length ∧
      cs = collected (signalsOf (indicatorEntries indicators)) ∧
      Lists (signalsOf (indicatorEntries indicators)) cs ∧
      Forall₂ (Contributor.Gives (indicatorEntries indicators)) cs own ∧
      Forall₂ ActionGives priceAction.zipIdx actions ∧
      ∀ orders ctx side,
        missingSignal side ∉ (emitEntry indicators priceAction orders ctx program).code.tick := by
  obtain ⟨inputs, own, actions, hall, hown, hact⟩ :=
    allConditions_gives hindicators hactions program
  refine ⟨inputs, _, own, actions, contributors _, hall, rfl, rfl, ?_, ?_, (collected_eq _).symm,
    lists_contributors _, hown, hact, fun orders ctx side hmem => ?_⟩
  · simp [Conditions.ofPairs]
  · have hcount := length_contributors (signalsOf (indicatorEntries indicators))
    have hsignals : (signalsOf (indicatorEntries indicators)).length = indicators.length :=
      (length_map _).trans (mapM_indicatorEntries hindicators).2
    have hpairs := hown.length_eq
    have hzip := hact.length_eq
    rw [length_zipIdx] at hzip
    simp only [Conditions.ofPairs, length_map, length_append]
    omega
  · exact Bool.noConfusion (emitEntry_notes hall orders ctx _ hmem)

def dataNode (payload : Payload) : Node where
  id := "n"
  type := "signal"
  data := { common := default, payload }

def averageLeg (id role : String) : Node :=
  dataNode (.indicator
    { (default : Signal) with
      entryStrategyType := some "ema-crossover", entryStrategyId := some id, role := some role }
    (.movingAverage default))

/-- Two fast legs of a crossover, one of them before the slow leg and one after it, and a leg that
has no other. -/
def crossingNodes : List Node :=
  [averageLeg "a" "fast", dataNode (.indicator default (.rsi default)), averageLeg "a" "slow",
    averageLeg "a" "fast", averageLeg "b" "slow"]

def breakoutNodes : List Node :=
  [dataNode (.priceAction none (.rangeBreakout default))]

def orderNode (side : Side) : Node :=
  dataNode (.trading (.order side default))

theorem conditions_complete_crossing :
    (∀ n ∈ crossingNodes, n.data.payload.role? = some .indicator) ∧
      (∀ n ∈ breakoutNodes, n.data.payload.role? = some .priceAction) ∧
      ∃ inputs c, allConditions crossingNodes breakoutNodes {} = (inputs, .ok c) ∧
        c.buys.length = 5 ∧ c.sells.length = 5 ∧
        missingSignal .sell ∉ (emitEntry crossingNodes breakoutNodes ⟨some (orderNode .buy),
          some (orderNode .sell)⟩ { projectName := "Test" } {}).code.tick := by
  have hindicators : ∀ n ∈ crossingNodes, n.data.payload.role? = some .indicator := by decide
  have hactions : ∀ n ∈ breakoutNodes, n.data.payload.role? = some .priceAction := by decide
  have hpairs : (completePairs (signalsOf (indicatorEntries crossingNodes))).card = 1 := by
    decide +kernel
  obtain ⟨inputs, c, own, actions, cs, hall, -, -, hsame, hcount, -, -, -, -, hquiet⟩ :=
    conditions_complete hindicators hactions {}
  have hlength : c.buys.length = 5 := by
    rw [hpairs] at hcount
    exact Nat.add_right_cancel hcount
  exact ⟨hindicators, hactions, inputs, c, hall, hlength, hsame ▸ hlength, hquiet _ _ _⟩

end TradeGraph

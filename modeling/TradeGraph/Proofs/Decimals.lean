import Mathlib
import TradeGraph.Double.Shortest

/-!
# Doubles as decimal literals

A decimal literal is a sign that may be missing, digits, and perhaps a fraction and an exponent. The
text of a double is one exactly if the double is finite.
-/

namespace TradeGraph

open List

variable {cs : List Char}

/-! ## Literals -/

/-- What follows one or more digits. -/
def afterDigits? (cs : List Char) : Option (List Char) :=
  if (cs.takeWhile Char.isDigit).isEmpty then none else some (cs.dropWhile Char.isDigit)

def afterFraction? : List Char → Option (List Char)
  | '.' :: cs => afterDigits? cs
  | cs => some cs

/-- What follows an exponent, if there is one. -/
def afterPower? : List Char → Option (List Char)
  | 'e' :: '-' :: cs => afterDigits? cs
  | 'e' :: '+' :: cs => afterDigits? cs
  | 'e' :: cs => afterDigits? cs
  | cs => some cs

/-- Is the text a decimal literal without a sign? -/
def isUnsignedDecimal (cs : List Char) : Bool :=
  ((afterDigits? cs).bind afterFraction?).bind afterPower? == some []

/-- Is the text a decimal literal? -/
def isDecimal (s : String) : Bool :=
  match s.toList with
  | '-' :: cs => isUnsignedDecimal cs
  | '+' :: cs => isUnsignedDecimal cs
  | cs => isUnsignedDecimal cs

structure IsDigits (cs : List Char) : Prop where
  ne_nil : cs ≠ []
  digit : ∀ c ∈ cs, c.isDigit = true

theorem IsDigits.append {ds : List Char} (hcs : IsDigits cs) (hds : ∀ c ∈ ds, c.isDigit = true) :
    IsDigits (cs ++ ds) where
  ne_nil := by simp [hcs.ne_nil]
  digit c hc := (mem_append.mp hc).elim (hcs.digit c) (hds c)

theorem isDigits_toDigits (n : Nat) : IsDigits (Nat.toDigits 10 n) where
  ne_nil := Nat.toDigits_ne_nil
  digit _ hc := Nat.isDigit_of_mem_toDigits (by decide) (by decide) hc

theorem afterDigits?_append {rest : List Char} (hcs : IsDigits cs)
    (hrest : ∀ c ∈ rest.head?, c.isDigit = false) : afterDigits? (cs ++ rest) = some rest := by
  have hstop : rest.takeWhile Char.isDigit = [] ∧ rest.dropWhile Char.isDigit = rest := by
    cases rest with
    | nil => exact ⟨rfl, rfl⟩
    | cons c rest =>
      have hc := hrest c rfl
      exact ⟨takeWhile_cons_of_neg (by simp [hc]), dropWhile_cons_of_neg (by simp [hc])⟩
  rw [afterDigits?, takeWhile_append_of_pos hcs.digit, dropWhile_append_of_pos hcs.digit,
    hstop.1, hstop.2, append_nil, if_neg (by simp [hcs.ne_nil])]

theorem afterDigits?_digits (hcs : IsDigits cs) : afterDigits? cs = some [] := by
  have happend : afterDigits? (cs ++ []) = some [] := afterDigits?_append hcs (by simp)
  rwa [append_nil] at happend

def IsFraction (cs : List Char) : Prop :=
  cs = [] ∨ ∃ ds, IsDigits ds ∧ cs = '.' :: ds

/-- An exponent, or nothing. -/
def IsPower (cs : List Char) : Prop :=
  cs = [] ∨ ∃ sign ds, IsDigits ds ∧ (sign = '-' ∨ sign = '+') ∧ cs = 'e' :: sign :: ds

theorem isUnsignedDecimal_append {whole fraction power : List Char} (hwhole : IsDigits whole)
    (hfraction : IsFraction fraction) (hpower : IsPower power) :
    isUnsignedDecimal (whole ++ (fraction ++ power)) = true := by
  have hlast : afterPower? power = some [] := by
    rcases hpower with rfl | ⟨sign, ds, hds, rfl | rfl, rfl⟩
    · rfl
    · exact afterDigits?_digits hds
    · exact afterDigits?_digits hds
  have hstart : ∀ c ∈ power.head?, c.isDigit = false := by
    rcases hpower with rfl | ⟨sign, ds, -, -, rfl⟩
    · simp
    · rintro c ⟨⟩
      decide
  rw [isUnsignedDecimal]
  rcases hfraction with rfl | ⟨ds, hds, rfl⟩
  · have hnone : afterFraction? power = some power := by
      rcases hpower with rfl | ⟨sign, ds, -, -, rfl⟩ <;> rfl
    rw [nil_append, afterDigits?_append hwhole hstart, Option.bind_some, hnone,
      Option.bind_some, hlast]
    rfl
  · rw [afterDigits?_append hwhole (by rintro c ⟨⟩; decide), Option.bind_some, cons_append,
      afterFraction?, afterDigits?_append hds hstart, Option.bind_some, hlast]
    rfl

theorem isUnsignedDecimal_toDigits (n : Nat) : isUnsignedDecimal (Nat.toDigits 10 n) = true := by
  simpa using isUnsignedDecimal_append (isDigits_toDigits n) (.inl rfl) (.inl rfl)

theorem isDecimal_ofList (h : isUnsignedDecimal cs = true) :
    isDecimal (String.ofList cs) = true := by
  rw [isDecimal, String.toList_ofList]
  split
  · cases h
  · cases h
  · exact h

theorem isDecimal_neg (h : isUnsignedDecimal cs = true) :
    isDecimal (String.ofList ('-' :: cs)) = true := by
  rw [isDecimal, String.toList_ofList]
  exact h

theorem isDecimal_int (n : Int) : isDecimal (toString n) = true := by
  rw [Int.toString_eq_repr, Int.repr_eq_if]
  split
  · rw [← String.ofList_toList (s := n.toNat.repr), Nat.toList_repr]
    exact isDecimal_ofList (isUnsignedDecimal_toDigits _)
  · have hsplit : "-" ++ (-n).toNat.repr = String.ofList ('-' :: Nat.toDigits 10 (-n).toNat) := by
      rw [← String.toList_inj]
      simp [Nat.toList_repr]
    rw [hsplit]
    exact isDecimal_neg (isUnsignedDecimal_toDigits _)

namespace Double

/-! ## Digits -/

theorem Interval.contains_zero {m : Nat} (hm : m ≠ 0) (e : Int) (up : Nat) {down : Nat}
    (hdown : 0 < down) : (Interval.of m e).contains up down 0 = false := by
  have hup : 0 < Nat.pow 2 e.toNat := Nat.pow_pos (by decide)
  have hbelow : (Interval.of m e).below < (Interval.of m e).num := by
    simp only [Interval.of]
    have : 4 * Nat.pow 2 e.toNat ≤ 4 * m * Nat.pow 2 e.toNat :=
      Nat.mul_le_mul_right _ (by omega)
    split <;> omega
  have hlow : 0 < ((Interval.of m e).num - (Interval.of m e).below) * down :=
    Nat.mul_pos (by omega) hdown
  rw [Interval.contains]
  simp only [Nat.zero_mul]
  split
  · rw [decide_eq_false (by omega), Bool.false_and]
  · rw [decide_eq_false (by omega), Bool.false_and]

theorem Interval.contains_of_onGrid? {i : Interval} {grid : Int} {c : Nat}
    (h : i.onGrid? grid = some c) :
    i.contains (Nat.pow 10 grid.toNat) (Nat.pow 10 (-grid).toNat) c = true := by
  simp only [Interval.onGrid?] at h
  split at h
  · cases h
  · cases h
    assumption
  · cases h
    assumption
  · split at h
    · cases h
      assumption
    · split at h
      · cases h
        assumption
      · split at h
        · cases h
          assumption
        · cases h
          assumption

/-- The digits of a positive double are not all zero. Without any digits, the exponent is zero. -/
theorem shortest_ne_zero {m : Nat} (hm : m ≠ 0) (e : Int) :
    (shortest m e).1 ≠ 0 ∨ shortest m e = (0, 0) := by
  simp only [shortest]
  cases hfound : (List.range 17).findSome? fun (n : Nat) =>
      ((Interval.of m e).onGrid? ((Interval.of m e).leading - n)).map fun c =>
        (c, (Interval.of m e).leading - n) with
  | none => exact .inr rfl
  | some found =>
    left
    obtain ⟨n, -, hn⟩ := exists_of_findSome?_eq_some hfound
    obtain ⟨c, hc, rfl⟩ := Option.map_eq_some_iff.mp hn
    rintro rfl
    have hdown : 0 < Nat.pow 10 (-((Interval.of m e).leading - (n : Int))).toNat :=
      Nat.pow_pos (by decide)
    exact Bool.false_ne_true
      ((Interval.contains_zero hm e _ hdown).symm.trans (Interval.contains_of_onGrid? hc))

theorem trimZeros_subset (ds : List Char) : trimZeros ds ⊆ ds := by
  intro c hc
  rw [trimZeros, mem_reverse] at hc
  exact mem_reverse.mp ((dropWhile_sublist _).subset hc)

theorem trimZeros_toDigits {n : Nat} (h : n ≠ 0) : trimZeros (Nat.toDigits 10 n) ≠ [] := by
  intro hnil
  rw [trimZeros, reverse_eq_nil_iff, dropWhile_eq_nil_iff] at hnil
  have hzeros : Nat.toDigits 10 n = List.replicate (Nat.toDigits 10 n).length '0' :=
    eq_replicate_of_mem fun c hc => beq_iff_eq.mp (hnil c (mem_reverse.mpr hc))
  have hread (k : Nat) : Nat.ofDigitChars 10 (List.replicate k '0') 0 = 0 := by
    induction k with
    | zero => rfl
    | succ k ih => exact ih
  have hn := Nat.ofDigitChars_toDigits (b := 10) (n := n) (by decide) (by decide)
  rw [hzeros, hread] at hn
  exact h hn.symm

/-! ## Layout -/

theorem isUnsignedDecimal_layout {ds : List Char} (hds : ∀ c ∈ ds, c.isDigit = true) {e : Int}
    (hne : ds ≠ [] ∨ e = 0) : isUnsignedDecimal (layout ds e) = true := by
  have hzeros (n : Nat) : ∀ c ∈ List.replicate n '0', c.isDigit = true := by
    intro c hc
    rw [eq_of_mem_replicate hc]
    decide
  have hzero : IsDigits ['0'] := ⟨by simp, by simp⟩
  rw [layout]
  split
  · split
    · -- all digits stand after the point
      have hne := hne.resolve_right (by omega)
      have hfraction : IsDigits (List.replicate (-e - 1).toNat '0' ++ ds) :=
        ⟨by simp [hne], fun c hc => (mem_append.mp hc).elim (hzeros _ c) (hds c)⟩
      simpa using isUnsignedDecimal_append hzero (.inr ⟨_, hfraction, rfl⟩) (.inl rfl)
    · -- the point stands among the digits or after them
      have hwhole : IsDigits (ds.take (e.toNat + 1) ++
          List.replicate (e.toNat + 1 - ds.length) '0') := by
        refine ⟨?_, fun c hc => (mem_append.mp hc).elim
          (fun hc => hds c (mem_of_mem_take hc)) (hzeros _ c)⟩
        rcases hne with hne | rfl
        · simp [hne]
        · cases ds <;> simp
      have hfraction : IsDigits (if (ds.drop (e.toNat + 1)).isEmpty then ['0']
          else ds.drop (e.toNat + 1)) := by
        split
        · exact hzero
        · rename_i hback
          exact ⟨by simpa using hback, fun c hc => hds c (mem_of_mem_drop hc)⟩
      simpa using isUnsignedDecimal_append hwhole (.inr ⟨_, hfraction, rfl⟩) (.inl rfl)
  · -- one digit stands before the point, and an exponent follows
    rename_i hrange
    have hne := hne.resolve_right (by omega)
    have hwhole : IsDigits (ds.take 1) :=
      ⟨by simp [hne], fun c hc => hds c (mem_of_mem_take hc)⟩
    have hfraction : IsFraction (if (ds.drop 1).isEmpty then [] else '.' :: ds.drop 1) := by
      split
      · exact .inl rfl
      · rename_i hback
        exact .inr ⟨_, ⟨by simpa using hback, fun c hc => hds c (mem_of_mem_drop hc)⟩, rfl⟩
    have hpower : IsPower ((if e < 0 then ['e', '-'] else ['e', '+']) ++
        (if (Nat.toDigits 10 e.natAbs).length < 2 then '0' :: Nat.toDigits 10 e.natAbs
          else Nat.toDigits 10 e.natAbs)) := by
      have htail : IsDigits (if (Nat.toDigits 10 e.natAbs).length < 2 then
          '0' :: Nat.toDigits 10 e.natAbs else Nat.toDigits 10 e.natAbs) := by
        split
        · exact hzero.append (isDigits_toDigits _).digit
        · exact isDigits_toDigits _
      split
      · exact .inr ⟨_, _, htail, .inl rfl, rfl⟩
      · exact .inr ⟨_, _, htail, .inr rfl, rfl⟩
    simpa using isUnsignedDecimal_append hwhole hfraction hpower

theorem isDecimal_text (x : Float) : isDecimal (text x) = isFinite x := by
  rw [text, isFinite]
  cases hparts : parts x with
  | nan => decide
  | infinite negative => cases negative <;> decide
  | finite negative m e =>
    have hbody : isUnsignedDecimal (if m == 0 then ['0', '.', '0'] else
        layout (trimZeros (Nat.toDigits 10 (shortest m e).1))
          ((shortest m e).2 + (Nat.toDigits 10 (shortest m e).1).length - 1)) = true := by
      split
      · decide
      · rename_i hm
        refine isUnsignedDecimal_layout (fun c hc =>
          (isDigits_toDigits _).digit c (trimZeros_subset _ hc)) ?_
        rcases shortest_ne_zero (by simpa using hm) e with hne | hzero
        · exact .inl (trimZeros_toDigits hne)
        · rw [hzero]
          exact .inr rfl
    cases negative
    · exact isDecimal_ofList hbody
    · exact isDecimal_neg hbody

/-- **Finite doubles are written as decimal literals**, and others are not. -/
theorem isDecimal_plainText (x : Float) : isDecimal (plainText x) = isFinite x := by
  rw [plainText]
  split
  · rename_i n hn
    rw [isDecimal_int, isFinite]
    rw [toInt?] at hn
    split at hn
    · rfl
    · cases hn
  · exact isDecimal_text x

/-! ## Comparisons -/

theorem isFinite_iff_exponent (x : Float) :
    isFinite x = true ↔ x.toBits.toNat / Nat.pow 2 52 % 2048 ≠ 2047 := by
  rw [isFinite, parts]
  simp only [beq_iff_eq]
  by_cases h : x.toBits.toNat / Nat.pow 2 52 % 2048 = 2047
  · rw [if_pos h]
    by_cases hfraction : x.toBits.toNat % Nat.pow 2 52 = 0 <;> simp [hfraction, h]
  · rw [if_neg h]
    by_cases hzero : x.toBits.toNat / Nat.pow 2 52 % 2048 = 0 <;> simp [hzero, h]

open Float.Model

theorem unpackExponent_eq_iff (b : BitVec Format.binary64.numBits) :
    UnpackedFloat.unpackExponent b = -BitVec.ofNat Format.binary64.exponentBits 1 ↔
      b.toNat / Nat.pow 2 52 % 2048 = 2047 := by
  rw [← BitVec.toNat_inj, UnpackedFloat.unpackExponent, BitVec.toNat_cast, BitVec.extractLsb_toNat,
    Nat.shiftRight_eq_div_pow]
  rfl

/-- What a comparison sees of a double is finite exactly if the double is. -/
theorem isFinite_unpack (x : Float) : x.toModel.unpack.isFinite = isFinite x := by
  have hbits : x.toBits.toNat = x.toModel.toBits.toBitVec.toNat := rfl
  rw [Bool.eq_iff_iff, isFinite_iff_exponent, hbits, ne_eq, ← unpackExponent_eq_iff,
    Float.Model.unpack, UnpackedFloat.unpack]
  split
  · rename_i hset
    refine iff_of_false ?_ (not_not.mpr hset)
    split <;> exact Bool.false_ne_true
  · rename_i hset
    refine iff_of_true ?_ hset
    split
    · split <;> rfl
    · rfl

def AtMost (x y : Float) : Prop :=
  (x.toModel.unpack.compare y.toModel.unpack).any Ordering.isLE = true

theorem atMost_of_le {x y : Float} (h : x ≤ y) : AtMost x y := by
  have hle : decide (x.toModel ≤ y.toModel) = true := h
  have hle : x.toModel ≤ y.toModel := of_decide_eq_true hle
  exact hle

theorem atMost_of_lt {x y : Float} (h : x < y) : AtMost x y := by
  have hlt : decide (x.toModel < y.toModel) = true := h
  have hlt : x.toModel < y.toModel := of_decide_eq_true hlt
  have hlt : (x.toModel.unpack.compare y.toModel.unpack == some .lt) = true := hlt
  rw [AtMost, beq_iff_eq.mp hlt]
  rfl

theorem isFinite_of_atMost {low x high : Float} (hlow : AtMost low x) (hhigh : AtMost x high)
    (hlowFinite : isFinite low = true) (hhighFinite : isFinite high = true) :
    isFinite x = true := by
  rw [AtMost] at hlow hhigh
  rw [← isFinite_unpack] at *
  revert hlow hhigh hlowFinite hhighFinite
  generalize low.toModel.unpack = a, x.toModel.unpack = b, high.toModel.unpack = c
  intro hlow hhigh ha hc
  cases b with
  | zero | finite => rfl
  | notANumber => cases hhigh
  | infinity sign =>
    cases sign with
    | positive => cases c <;> simp [UnpackedFloat.compare, UnpackedFloat.isFinite] at hhigh hc
    | negative => cases a <;> simp [UnpackedFloat.compare, UnpackedFloat.isFinite] at hlow ha

end Double

end TradeGraph

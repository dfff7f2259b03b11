import TradeGraph.Proofs.Decimals

/-!
# Rounded differences

The difference of two doubles is found exactly and then rounded to the nearest double. Rounding
shifts the mantissa until it has fifty-three bits, and the exponent follows. So a double below one
half of another one is also below what is left of that one.
-/

namespace TradeGraph.Double

open Float.Model Float.Model.UnpackedFloat

variable {m : Nat} {e : Int} {hm : 0 < m} {x y : Float}

/-! ## Packing -/

theorem sign_packComponents (s : Sign) (e : BitVec Format.binary64.exponentBits)
    (m : BitVec Format.binary64.mantissaBitsWithoutImplicit) :
    Sign.ofBitVec (unpackSign (packComponents .binary64 s e m)) = s := by
  simp only [unpackSign, packComponents, BitVec.extractLsb]
  rw [BitVec.extractLsb'_append_eq_of_le (by decide),
    BitVec.extractLsb'_append_eq_of_le (by decide)]
  cases s <;> rfl

theorem toNat_one_append {w : Nat} (b : BitVec w) : (1#1 ++ b).toNat = 2 ^ w + b.toNat := by
  rw [BitVec.toNat_append, ← Nat.shiftLeft_add_eq_or_of_lt b.isLt, Nat.shiftLeft_eq]
  simp

theorem log2_eq {k : Nat} (hlow : 2 ^ k ≤ m) (hhigh : m < 2 ^ (k + 1)) : m.log2 = k := by
  have hne : m ≠ 0 := Nat.ne_of_gt (Nat.lt_of_lt_of_le (Nat.two_pow_pos k) hlow)
  have hle : k ≤ m.log2 := (Nat.le_log2 hne).mpr hlow
  have hlt : m.log2 < k + 1 := (Nat.log2_lt hne).mpr hhigh
  omega

theorem unpack_pack (hlow : 2 ^ 52 ≤ m) (hhigh : m < 2 ^ 53) (he : -1074 ≤ e) (he' : e ≤ 971) :
    (Float.Model.pack (.finite .positive m e hm)).unpack = .finite .positive m e hm := by
  have hbias : (e + Format.binary64.exponentBias +
      Format.binary64.mantissaBitsWithoutImplicit).toNat = (e + 1075).toNat := by
    show (e + (1023 : Nat) + (52 : Nat)).toNat = _
    omega
  have hpack : UnpackedFloat.pack .binary64 (.finite .positive m e hm) =
      packComponents .binary64 .positive (BitVec.ofNat 11 (e + 1075).toNat)
        (BitVec.ofNat 52 m) := by
    simp only [UnpackedFloat.pack, hbias, log2_eq hlow hhigh]
    rw [if_neg (by omega), if_pos (show 52 + 1 = Format.binary64.mantissaBits from rfl)]
  have hexponent : (BitVec.ofNat 11 (e + 1075).toNat).toNat = (e + 1075).toNat := by
    rw [BitVec.toNat_ofNat]
    omega
  have hset : BitVec.ofNat 11 (e + 1075).toNat ≠ -1#11 := fun heq => by
    rw [heq] at hexponent
    have : (e + 1075).toNat = 2047 := hexponent.symm
    omega
  have hclear : BitVec.ofNat 11 (e + 1075).toNat ≠ 0#11 := fun heq => by
    rw [heq] at hexponent
    have : (e + 1075).toNat = 0 := hexponent.symm
    omega
  have hmantissa : (1#1 ++ BitVec.ofNat 52 m).toNat = m := by
    rw [toNat_one_append, BitVec.toNat_ofNat]
    omega
  show UnpackedFloat.unpack .binary64 (UnpackedFloat.pack .binary64 (.finite .positive m e hm)) = _
  rw [hpack, UnpackedFloat.unpack]
  simp only [unpackMantissa_packComponents, unpackExponent_packComponents, sign_packComponents]
  rw [if_neg hset, if_neg hclear]
  simp only [hmantissa, hexponent, UnpackedFloat.finite.injEq, true_and]
  show ((e + 1075).toNat : Int) - ((1023 : Nat) + (52 : Nat)) = e
  omega

theorem mantissa_lt {x : Float.Model} {s : Sign}
    (h : x.unpack = .finite s m e hm) : m < 2 ^ 53 := by
  rw [Float.Model.unpack, UnpackedFloat.unpack] at h
  simp only at h
  split at h
  · split at h <;> cases h
  · split at h
    · split at h
      · cases h
      · injection h with _ hm
        exact hm ▸ Nat.lt_trans (BitVec.isLt _) (by decide)
    · injection h with _ hm
      exact hm ▸ BitVec.isLt _

/-! ## Rounding -/

theorem mantissa_shiftRight (em : ExtendedMantissa) (k : Nat) :
    (em >>> k).mantissa = em.mantissa / 2 ^ k := by
  induction k with
  | zero => exact (Nat.div_one _).symm
  | succ k ih =>
    show (em >>> k).mantissa / 2 = _
    rw [ih, Nat.div_div_eq_div_mul, ← Nat.pow_succ]

theorem roundToNearestEven_bounds (a : Accuracy) (m : Nat) :
    m ≤ a.roundToNearestEven m ∧ a.roundToNearestEven m ≤ m + 1 := by
  rcases a with _ | (_ | _ | _) <;> simp only [Accuracy.roundToNearestEven] <;> omega

theorem targetExponent_eq (m : Nat) (e : Int) :
    Format.binary64.targetExponent (totalExponent m e) = max (m.log2 + 1 + e - 53) (-1074) := rfl

theorem shiftToTargetExponent_eq {k : Nat}
    (h : Format.binary64.targetExponent (totalExponent m e) = e + k) :
    shiftToTargetExponent .binary64 m e .exact =
      ((⟨m, false, false⟩ : ExtendedMantissa) >>> k, e + k) := by
  have hk : (e + k - e).toNat = k := by omega
  simp only [shiftToTargetExponent, shiftToExponent, h, hk]
  rfl

theorem div_bounds {d s : Nat} (hne : d ≠ 0) (hs : d.log2 = s + 52) :
    2 ^ 52 ≤ d / 2 ^ s ∧ d / 2 ^ s < 2 ^ 53 := by
  constructor
  · rw [Nat.le_div_iff_mul_le (Nat.two_pow_pos s), ← Nat.pow_add, Nat.add_comm, ← hs]
    exact Nat.log2_self_le hne
  · rw [Nat.div_lt_iff_lt_mul (Nat.two_pow_pos s), ← Nat.pow_add,
      show 53 + s = d.log2 + 1 by omega]
    exact Nat.lt_log2_self

/-- A mantissa of at least full length is rounded to full length; the exponent grows by the number
of bits that are dropped, and by one more if rounding carries. -/
theorem exists_round {d : Nat} (hd : 2 ^ 52 ≤ d) (he : -1074 ≤ e + (d.log2 - 52 : Nat)) :
    ∃ (m k : Nat) (hm : 0 < m),
      UnpackedFloat.round .binary64 .positive d e = .finite .positive m (e + k) hm ∧
      2 ^ 52 ≤ m ∧ m < 2 ^ 53 ∧ (k = 0 → m = d) ∧ d.log2 - 52 ≤ k ∧ k ≤ d.log2 - 51 := by
  have hne : d ≠ 0 := by omega
  have hlog : 52 ≤ d.log2 := (Nat.le_log2 hne).mpr hd
  -- the number of bits to drop
  obtain ⟨s, hs⟩ : ∃ s, d.log2 = s + 52 := ⟨d.log2 - 52, by omega⟩
  have hdrop : Format.binary64.targetExponent (totalExponent d e) = e + s := by
    rw [targetExponent_eq, hs]
    omega
  obtain ⟨hlow, hhigh⟩ := div_bounds hne hs
  have hround : UnpackedFloat.round .binary64 .positive d e =
      roundWithAccuracy .binary64 .positive d e .exact := by
    have hkeep : (e - (e + s)).toNat = 0 := by omega
    simp only [UnpackedFloat.round, hdrop, decreaseExponent, hkeep, Nat.shiftLeft_zero,
      Int.natCast_zero, Int.sub_zero]
  -- the mantissa that is left, rounded
  obtain ⟨m, hm⟩ : ∃ m,
    ((⟨d, false, false⟩ : ExtendedMantissa) >>> s).roundedMantissa = m := ⟨_, rfl⟩
  have hbounds : d / 2 ^ s ≤ m ∧ m ≤ d / 2 ^ s + 1 := by
    rw [← hm, ExtendedMantissa.roundedMantissa, mantissa_shiftRight]
    exact roundToNearestEven_bounds _ _
  have hexact : s = 0 → m = d := by
    rintro rfl
    exact hm.symm
  rw [hround, roundWithAccuracy]
  simp only [shiftToTargetExponent_eq hdrop, hm]
  by_cases hcarry : m = 2 ^ 53
  · have htarget : Format.binary64.targetExponent (totalExponent m (e + s)) =
        e + s + (1 : Nat) := by
      rw [targetExponent_eq, hcarry, Nat.log2_two_pow]
      omega
    have hhalf : ((⟨m, false, false⟩ : ExtendedMantissa) >>> 1).mantissa = 2 ^ 52 := by
      rw [mantissa_shiftRight, hcarry]
      rfl
    simp only [shiftToTargetExponent_eq htarget, hhalf]
    refine ⟨2 ^ 52, s + 1, by decide, ?_, Nat.le_refl _, by decide, by omega, by omega, by omega⟩
    rw [dif_neg (by decide)]
    simp only [UnpackedFloat.finite.injEq, true_and]
    omega
  · have htarget : Format.binary64.targetExponent (totalExponent m (e + s)) =
        e + s + (0 : Nat) := by
      rw [targetExponent_eq, log2_eq (k := 52) (by omega) (by omega)]
      omega
    have hsame : ((⟨m, false, false⟩ : ExtendedMantissa) >>> 0).mantissa = m := rfl
    simp only [shiftToTargetExponent_eq htarget, hsame]
    refine ⟨m, s, by omega, ?_, by omega, by omega, hexact, by omega, by omega⟩
    rw [dif_neg (by omega)]
    simp only [UnpackedFloat.finite.injEq, true_and]
    omega

/-! ## Comparisons -/

theorem lt_iff_compare :
    x < y ↔ x.toModel.unpack.compare y.toModel.unpack = some .lt := by
  refine Iff.trans (b := (x.toModel.unpack.compare y.toModel.unpack == some .lt) = true) ?_
    beq_iff_eq
  show decide (x.toModel < y.toModel) = true ↔ _
  rw [decide_eq_true_iff]
  rfl

theorem le_iff_atMost : x ≤ y ↔ AtMost x y := by
  show decide (x.toModel ≤ y.toModel) = true ↔ _
  rw [decide_eq_true_iff]
  rfl

theorem compare_swap (u v : UnpackedFloat) : v.compare u = (u.compare v).map Ordering.swap := by
  have hfinite (m n : Nat) (e f : Int) : (compare f e).then (compare n m) =
      ((compare e f).then (compare m n)).swap := by
    rw [Ordering.swap_then, Int.compare_swap, Nat.compare_swap]
  rcases u with (_ | _) | _ | _ | ⟨_ | _, m, e, hm⟩ <;>
    rcases v with (_ | _) | _ | _ | ⟨_ | _, n, f, hn⟩
  all_goals first
    | rfl
    | exact congrArg some (hfinite ..)
    | exact congrArg (some ∘ Ordering.swap) (hfinite ..)

theorem isSome_compare {u v : UnpackedFloat} (hu : u.isNaN = false) (hv : v.isNaN = false) :
    (u.compare v).isSome = true := by
  rcases u with (_ | _) | _ | _ | ⟨_ | _, m, e, hm⟩ <;>
    rcases v with (_ | _) | _ | _ | ⟨_ | _, n, f, hn⟩
  all_goals first | rfl | simp [UnpackedFloat.isNaN] at hu hv

theorem lt_of_not_le (hx : x.isNaN = false) (hy : y.isNaN = false) (h : ¬ y ≤ x) :
    x < y := by
  rw [le_iff_atMost, AtMost] at h
  obtain ⟨o, ho⟩ := Option.isSome_iff_exists.mp (isSome_compare (u := y.toModel.unpack) hy hx)
  rw [lt_iff_compare, compare_swap, ho]
  rw [ho] at h
  cases o with
  | gt => rfl
  | lt | eq => exact absurd rfl h

/-! ## Differences -/

theorem compare_finite_eq_lt {n : Nat} {f : Int} {hn : 0 < n} :
    UnpackedFloat.compare (.finite .positive m e hm) (.finite .positive n f hn) = some .lt ↔
      e < f ∨ e = f ∧ m < n := by
  rw [UnpackedFloat.compare, Option.some.injEq, Ordering.then_eq_lt, Int.compare_eq_lt,
    Int.compare_eq_eq, Nat.compare_eq_lt]

theorem unpack_of_between (hpos : 0.0 < x)
    (hx : x < y) (hy : y.toModel.unpack = .finite .positive m e hm) :
    ∃ n f hn, x.toModel.unpack = .finite .positive n f hn := by
  have hzero : (0.0 : Float).toModel.unpack = .zero .positive := rfl
  rw [lt_iff_compare, hzero] at hpos
  rw [lt_iff_compare, hy] at hx
  generalize x.toModel.unpack = u at hpos hx
  cases u with
  | infinity s => cases s <;> simp [UnpackedFloat.compare] at hpos hx
  | notANumber => cases hx
  | zero s => cases hpos
  | finite s n f hn =>
    cases s with
    | positive => exact ⟨n, f, hn, rfl⟩
    | negative => cases hpos

theorem sub_finite {n : Nat} {f : Int} {hn : 0 < n} (hfe : f ≤ e)
    (hlt : n < m * 2 ^ (e - f).toNat) :
    UnpackedFloat.sub .binary64 (.finite .positive m e hm) (.finite .positive n f hn) =
      UnpackedFloat.round .binary64 .positive (m * 2 ^ (e - f).toNat - n) f := by
  have hdiff : ((m * 2 ^ (e - f).toNat : Nat) : Int) - (n : Int) =
      ((m * 2 ^ (e - f).toNat - n : Nat) : Int) := by omega
  have hgt : compare ((m * 2 ^ (e - f).toNat - n : Nat) : Int) 0 = .gt :=
    Int.compare_eq_gt.mpr (by omega)
  simp only [UnpackedFloat.sub, decreaseExponent, Int.min_eq_right hfe, Int.sub_self,
    Int.toNat_zero, Nat.shiftLeft_eq, Nat.pow_zero, Nat.mul_one, Sign.apply, hdiff,
    UnpackedFloat.normalize, hgt, Int.toNat_natCast]

/-- **Below one half means below the rest.** The half of a double has its mantissa, at an exponent
that is one less. -/
theorem lt_sub_of_lt_half {half c : Float}
    (hhalf : half.toModel.unpack = .finite .positive m (e - 1) hm)
    (hc : c.toModel.unpack = .finite .positive m e hm) (hlow : 2 ^ 52 ≤ m) (he : -1073 ≤ e)
    (he' : e ≤ 970) (hpos : 0.0 < x) (hx : x < half) : x < c - x := by
  obtain ⟨n, f, hn, hu⟩ := unpack_of_between hpos hx hhalf
  have hmhigh := mantissa_lt hc
  have hnhigh := mantissa_lt hu
  rw [lt_iff_compare, hu, hhalf, compare_finite_eq_lt] at hx
  obtain ⟨j, hj⟩ : ∃ j : Nat, e - f = j + 1 := ⟨(e - f - 1).toNat, by omega⟩
  have hj' : (e - f).toNat = j + 1 := by omega
  -- twice the double is less than the other one
  have hdouble : n < m * 2 ^ j := by
    rcases hx with hf | ⟨rfl, hnm⟩
    · calc n < 2 ^ 53 := hnhigh
        _ ≤ m * 2 ^ 1 := by omega
        _ ≤ m * 2 ^ j := Nat.mul_le_mul_left m (Nat.pow_le_pow_right (by decide) (by omega))
    · obtain rfl : j = 0 := by omega
      omega
  have htwice : m * 2 ^ (j + 1) = m * 2 ^ j + m * 2 ^ j := by
    rw [Nat.pow_succ, ← Nat.mul_assoc]
    omega
  have hrest : n < m * 2 ^ (j + 1) - n := by omega
  have hfull : 2 ^ (52 + j) ≤ m * 2 ^ j := by
    rw [Nat.pow_add]
    exact Nat.mul_le_mul_right _ hlow
  have hlog : 52 + j ≤ (m * 2 ^ (j + 1) - n).log2 := (Nat.le_log2 (by omega)).mpr (by omega)
  have hlog' : (m * 2 ^ (j + 1) - n).log2 < 54 + j := by
    refine (Nat.log2_lt (by omega)).mpr ?_
    calc m * 2 ^ (j + 1) - n ≤ m * 2 ^ (j + 1) := Nat.sub_le _ _
      _ < 2 ^ 53 * 2 ^ (j + 1) := Nat.mul_lt_mul_of_pos_right hmhigh (Nat.two_pow_pos _)
      _ = 2 ^ (54 + j) := by rw [← Nat.pow_add]; congr 1; omega
  have hpow : 2 ^ 52 ≤ 2 ^ (52 + j) := Nat.pow_le_pow_right (by decide) (by omega)
  obtain ⟨d, k, hd, hround, hdlow, hdhigh, hexact, hk, hk'⟩ :=
    exists_round (d := m * 2 ^ (j + 1) - n) (e := f) (by omega) (by omega)
  have hsub : (c - x).toModel.unpack = .finite .positive d (f + k) hd := by
    show (Float.Model.pack
      (UnpackedFloat.sub .binary64 c.toModel.unpack x.toModel.unpack)).unpack = _
    rw [hc, hu, sub_finite (by omega) (by rw [hj']; omega), hj', hround,
      unpack_pack hdlow hdhigh (by omega) (by omega)]
  rw [lt_iff_compare, hu, hsub, compare_finite_eq_lt]
  rcases Nat.eq_zero_or_pos k with rfl | hcarried
  · rw [hexact rfl]
    exact .inr ⟨by omega, hrest⟩
  · exact .inl (by omega)

end TradeGraph.Double

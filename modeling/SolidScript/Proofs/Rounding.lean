import SolidScript.Proofs.FloatUnits

/-!
# Rounding of sums

A sum of floats is off by half a unit of its last digit at most. Sums that need no more digits than
floats have are exact.
-/

namespace SolidScript.Binary64

open Float.Model Float.Model.UnpackedFloat

/-! ## Digits that are dropped -/

/-- The whole part of a quotient as a mantissa, with what has to be known of the rest. -/
structure Dropped (num den : Nat) (em : ExtendedMantissa) : Prop where
  mantissa : em.mantissa = num / den
  roundBit : em.roundBit = true ↔ den ≤ 2 * (num % den)
  stickyBit : em.stickyBit = true ↔ 2 * (num % den) ≠ 0 ∧ 2 * (num % den) ≠ den

theorem dropped_one (m : Nat) : Dropped m 1 (.ofMantissaAndAccuracy m .exact) where
  mantissa := (Nat.div_one m).symm
  roundBit := by simp [ExtendedMantissa.ofMantissaAndAccuracy, Nat.mod_one]
  stickyBit := by simp [ExtendedMantissa.ofMantissaAndAccuracy, Nat.mod_one]

theorem dropped_fraction (num : Nat) {den : Nat} (hden : 0 < den) :
    Dropped num den (.ofMantissaAndAccuracy (num / den) (accuracyOfFraction (num % den) den)) := by
  unfold accuracyOfFraction
  by_cases hzero : num % den = 0
  · rw [if_pos hzero]
    refine ⟨rfl, ?_, ?_⟩ <;> simp [ExtendedMantissa.ofMantissaAndAccuracy, hzero, hden.ne']
  · rw [if_neg hzero]
    rcases lt_trichotomy (2 * (num % den)) den with hlt | heq | hgt
    · rw [compare_lt_iff_lt.mpr hlt]
      refine ⟨rfl, ?_, ?_⟩ <;> simp [ExtendedMantissa.ofMantissaAndAccuracy, hzero, hlt, hlt.ne]
    · rw [compare_eq_iff_eq.mpr heq]
      refine ⟨rfl, ?_, ?_⟩ <;> simp [ExtendedMantissa.ofMantissaAndAccuracy, heq]
    · rw [compare_gt_iff_gt.mpr hgt]
      refine ⟨rfl, ?_, ?_⟩ <;> simp [ExtendedMantissa.ofMantissaAndAccuracy, hzero, hgt.le, hgt.ne']

theorem Dropped.half {num den : Nat} {em : ExtendedMantissa} (h : Dropped num den em) (hden : 0 < den) :
    Dropped num (den * 2) em.shiftRightOne := by
  have hrest : num % (den * 2) = num % den + den * (num / den % 2) := Nat.mod_mul
  have hlt := Nat.mod_lt num hden
  have hround := h.roundBit
  have hsticky := h.stickyBit
  refine ⟨?_, ?_, ?_⟩
  · show em.mantissa / 2 = _
    rw [h.mantissa, Nat.div_div_eq_div_mul]
  · show (em.mantissa % 2 != 0) = true ↔ _
    rw [h.mantissa, hrest, bne_iff_ne]
    rcases Nat.mod_two_eq_zero_or_one (num / den) with hbit | hbit <;> rw [hbit] <;> omega
  · show (em.roundBit || em.stickyBit) = true ↔ _
    rw [Bool.or_eq_true, hround, hsticky, hrest]
    rcases Nat.mod_two_eq_zero_or_one (num / den) with hbit | hbit <;> rw [hbit] <;> omega

theorem Dropped.shiftRight {num den : Nat} {em : ExtendedMantissa} (h : Dropped num den em) (hden : 0 < den) (n : Nat) :
    Dropped num (den * 2 ^ n) (em >>> n) := by
  induction n with
  | zero =>
    rw [Nat.pow_zero, Nat.mul_one]
    exact h
  | succ n ih =>
    rw [Nat.pow_succ, ← Nat.mul_assoc]
    exact ih.half (Nat.mul_pos hden (Nat.two_pow_pos n))

theorem dropped_shiftRight (m n : Nat) : Dropped m (2 ^ n) (ExtendedMantissa.ofMantissaAndAccuracy m .exact >>> n) := by
  have h := (dropped_one m).shiftRight Nat.one_pos n
  rwa [Nat.one_mul] at h

theorem Dropped.rounded {num den : Nat} {em : ExtendedMantissa} (h : Dropped num den em) (hden : 0 < den) :
    2 * (em.roundedMantissa * den) ≤ 2 * num + den ∧ 2 * num ≤ 2 * (em.roundedMantissa * den) + den := by
  have hsplit : num / den * den + num % den = num := Nat.div_add_mod' num den
  have hlt := Nat.mod_lt num hden
  obtain ⟨mantissa, round, sticky⟩ := em
  obtain ⟨hmantissa, hround, hsticky⟩ := h
  dsimp only at hmantissa hround hsticky
  rw [← hmantissa] at hsplit
  generalize num % den = rest at *
  have hup : (mantissa + 1) * den = mantissa * den + den := Nat.succ_mul _ _
  have hkept : (mantissa + 0) * den = mantissa * den := rfl
  -- The two bits tell the rest from zero and from one half.
  cases round <;> cases sticky <;> simp only [Bool.false_eq_true, false_iff, true_iff] at hround hsticky
  · rw [show ExtendedMantissa.roundedMantissa ⟨mantissa, false, false⟩ = mantissa from rfl]
    omega
  · rw [show ExtendedMantissa.roundedMantissa ⟨mantissa, false, true⟩ = mantissa from rfl]
    omega
  · rw [show ExtendedMantissa.roundedMantissa ⟨mantissa, true, false⟩ = mantissa + mantissa % 2 from rfl]
    rcases Nat.mod_two_eq_zero_or_one mantissa with hbit | hbit <;> rw [hbit] <;> omega
  · rw [show ExtendedMantissa.roundedMantissa ⟨mantissa, true, true⟩ = mantissa + 1 from rfl]
    omega

/-! ## Rounding -/

/-- An integer is off by half a unit of the last of 53 digits at most. -/
def Near (exact rounded : Int) : Prop := 2 * (rounded - exact).natAbs ≤ 2 ^ (exact.natAbs.log2 - 52)

theorem near_refl (n : Int) : Near n n := by
  unfold Near
  rw [Int.sub_self]
  exact Nat.zero_le _

theorem near_apply {m n : Nat} (s : Sign) (h : 2 * n ≤ 2 * m + 2 ^ (m.log2 - 52))
    (h' : 2 * m ≤ 2 * n + 2 ^ (m.log2 - 52)) : Near (s.apply m) (s.apply n) := by
  unfold Near
  rw [natAbs_apply, Int.natAbs_natCast]
  generalize 2 ^ (m.log2 - 52) = unit at *
  cases s <;> simp only [Sign.apply] <;> omega

theorem log2_mul_two_pow {m : Nat} (hm : m ≠ 0) (n : Nat) : (m * 2 ^ n).log2 = m.log2 + n := by
  rw [← Nat.shiftLeft_eq, log2_shiftLeft hm]

theorem rounded_digits {m r : Nat} {e : Int} (hle : e ≤ leastExponent m e)
    (hr : m / 2 ^ (leastExponent m e - e).toNat ≤ r) (hr' : r ≤ m / 2 ^ (leastExponent m e - e).toNat + 1) :
    r.log2 ≤ 52 ∧ leastExponent r (leastExponent m e) = leastExponent m e ∨
      r = 2 ^ 53 ∧ leastExponent r (leastExponent m e) = leastExponent m e + 1 := by
  have hlog := log2_div_two_pow m (leastExponent m e - e).toNat
  have hkept : (m / 2 ^ (leastExponent m e - e).toNat).log2 ≤ 52 := by
    rw [hlog]
    unfold leastExponent leading
    omega
  have hlt : m / 2 ^ (leastExponent m e - e).toNat < 2 ^ 53 :=
    lt_of_lt_of_le Nat.lt_log2_self (Nat.pow_le_pow_right (by decide) (by omega))
  have hmono := log2_mono hr
  -- Only where all digits are ones, rounding up adds one.
  rcases Nat.lt_or_ge r (2 ^ 53) with hdigits | hdigits
  · left
    have hlt : r.log2 < 53 := by
      rcases Nat.eq_zero_or_pos r with rfl | hpos
      · exact Nat.lt_of_le_of_lt (Nat.le_of_eq Nat.log2_zero) (by decide)
      · exact (Nat.log2_lt hpos.ne').mpr hdigits
    unfold leastExponent leading at *
    omega
  · right
    obtain rfl : r = 2 ^ 53 := by omega
    have hlog : (2 ^ 53 : Nat).log2 = 53 := Nat.log2_two_pow
    unfold leastExponent leading at *
    rw [hlog]
    omega

theorem near_rounded {m : Nat} {e : Int} (hm : m ≠ 0) (he : -1074 ≤ e) (hle : e ≤ leastExponent m e)
    {em : ExtendedMantissa} (h : Dropped m (2 ^ (leastExponent m e - e).toNat) em) (s : Sign) :
    Near (s.apply (m * 2 ^ (e + 1074).toNat : Nat))
      (s.apply (em.roundedMantissa * 2 ^ (leastExponent m e + 1074).toNat : Nat)) := by
  obtain ⟨hup, hdown⟩ := h.rounded (Nat.two_pow_pos _)
  have hshift : (leastExponent m e + 1074).toNat = (leastExponent m e - e).toNat + (e + 1074).toNat := by omega
  have hunit : 2 ^ ((m * 2 ^ (e + 1074).toNat).log2 - 52) =
      2 ^ (leastExponent m e - e).toNat * 2 ^ (e + 1074).toNat := by
    rw [← Nat.pow_add, ← hshift, log2_mul_two_pow hm]
    congr 1
    unfold leastExponent leading at *
    omega
  rw [hshift, Nat.pow_add, ← Nat.mul_assoc]
  apply near_apply
  · rw [hunit]
    calc 2 * (em.roundedMantissa * 2 ^ (leastExponent m e - e).toNat * 2 ^ (e + 1074).toNat)
      _ = 2 * (em.roundedMantissa * 2 ^ (leastExponent m e - e).toNat) * 2 ^ (e + 1074).toNat :=
        (Nat.mul_assoc ..).symm
      _ ≤ (2 * m + 2 ^ (leastExponent m e - e).toNat) * 2 ^ (e + 1074).toNat := Nat.mul_le_mul_right _ hup
      _ = _ := by ring
  · rw [hunit]
    calc 2 * (m * 2 ^ (e + 1074).toNat)
      _ = 2 * m * 2 ^ (e + 1074).toNat := (Nat.mul_assoc ..).symm
      _ ≤ (2 * (em.roundedMantissa * 2 ^ (leastExponent m e - e).toNat) + 2 ^ (leastExponent m e - e).toNat) *
          2 ^ (e + 1074).toNat := Nat.mul_le_mul_right _ hdown
      _ = _ := by ring

theorem shiftToTargetExponent_binary64 (m : Nat) (e : Int) (accuracy : Accuracy) :
    shiftToTargetExponent Format.binary64 m e accuracy =
      (ExtendedMantissa.ofMantissaAndAccuracy m accuracy >>> (leastExponent m e - e).toNat,
        e + (leastExponent m e - e).toNat) := by
  unfold shiftToTargetExponent shiftToExponent
  rw [targetExponent_eq]

/-- Rounding once gives a float with the rounded mantissa. -/
theorem roundWithAccuracy_spec {m : Nat} {e : Int} (hle : e ≤ leastExponent m e) (s : Sign) (accuracy : Accuracy) :
    let em := ExtendedMantissa.ofMantissaAndAccuracy m accuracy >>> (leastExponent m e - e).toNat
    let x := roundWithAccuracy Format.binary64 s m e accuracy
    Canonical x ∧ x.isFinite = true ∧
      unpackedUnits x = s.apply (em.roundedMantissa * 2 ^ (leastExponent m e + 1074).toNat : Nat) := by
  intro em
  obtain ⟨hkept, hkept'⟩ := roundedMantissa_bounds em
  rw [mantissa_shiftRight, mantissa_ofMantissaAndAccuracy] at hkept hkept'
  have hdigits := rounded_digits hle hkept hkept'
  have hleast : -1074 ≤ leastExponent m e := by
    unfold leastExponent
    omega
  unfold roundWithAccuracy
  rw [shiftToTargetExponent_binary64]
  dsimp only
  rw [show e + (leastExponent m e - e).toNat = leastExponent m e by omega, shiftToTargetExponent_binary64]
  dsimp only
  rw [show ExtendedMantissa.ofMantissaAndAccuracy m accuracy >>> (leastExponent m e - e).toNat = em from rfl]
  generalize em.roundedMantissa = r at *
  generalize leastExponent m e = t at *
  -- A digit that rounding has added is a zero at the end, which the second shift drops.
  rcases hdigits with ⟨-, hsame⟩ | ⟨rfl, hnext⟩
  · have hnone : (leastExponent r t - t).toNat = 0 := by omega
    rw [hnone]
    by_cases hzero : r = 0
    · rw [dif_pos (show (ExtendedMantissa.ofMantissaAndAccuracy r .exact >>> 0).mantissa = 0 from hzero), hzero,
        Nat.zero_mul]
      exact ⟨trivial, rfl, by cases s <;> rfl⟩
    · rw [dif_neg (show ¬ (ExtendedMantissa.ofMantissaAndAccuracy r .exact >>> 0).mantissa = 0 from hzero),
        Int.natCast_zero, Int.add_zero]
      exact ⟨hsame.symm, rfl, rfl⟩
  · have hone : (leastExponent (2 ^ 53) t - t).toNat = 1 := by omega
    rw [hone]
    have hunits : 2 ^ 52 * 2 ^ (t + (1 : Nat) + 1074).toNat = 2 ^ 53 * 2 ^ (t + 1074).toNat := by
      rw [show (t + (1 : Nat) + 1074).toNat = (t + 1074).toNat + 1 by omega, Nat.pow_succ]
      ring
    refine ⟨?_, rfl, ?_⟩
    · show t + (1 : Nat) = leastExponent (2 ^ 52) (t + (1 : Nat))
      unfold leastExponent leading at *
      rw [Nat.log2_two_pow] at *
      omega
    · rw [← hunits]
      rfl

/-- A float that stands for an integer number of units. -/
structure Stands (exact : Int) (x : UnpackedFloat) : Prop where
  canonical : Canonical x
  finite : x.isFinite = true
  near : Near exact (unpackedUnits x)

theorem stands_roundWithAccuracy {m : Nat} {e : Int} (hm : m ≠ 0) (he : -1074 ≤ e) (hle : e ≤ leastExponent m e)
    (s : Sign) :
    Stands (s.apply (m * 2 ^ (e + 1074).toNat : Nat)) (roundWithAccuracy Format.binary64 s m e .exact) := by
  obtain ⟨hcanonical, hfinite, hunits⟩ := roundWithAccuracy_spec hle s .exact
  refine ⟨hcanonical, hfinite, ?_⟩
  rw [hunits]
  exact near_rounded hm he hle (dropped_shiftRight m _) s

theorem stands_round {m : Nat} {e : Int} (hm : m ≠ 0) (he : -1074 ≤ e) (s : Sign) :
    Stands (s.apply (m * 2 ^ (e + 1074).toNat : Nat)) (UnpackedFloat.round Format.binary64 s m e) := by
  -- The mantissa is shifted to where no digit that is kept is missing at its end.
  have hlog := log2_shiftLeft hm (e - leastExponent m e).toNat
  have hlow : e - (e - leastExponent m e).toNat ≤
      leastExponent (m <<< (e - leastExponent m e).toNat) (e - (e - leastExponent m e).toNat) := by
    unfold leastExponent leading at *
    omega
  have hleast : -1074 ≤ e - (e - leastExponent m e).toNat := by
    unfold leastExponent
    omega
  have hunits : m <<< (e - leastExponent m e).toNat * 2 ^ (e - (e - leastExponent m e).toNat + 1074).toNat =
      m * 2 ^ (e + 1074).toNat := by
    rw [Nat.shiftLeft_eq, Nat.mul_assoc, ← Nat.pow_add]
    congr 2
    omega
  have hne : m <<< (e - leastExponent m e).toNat ≠ 0 := by
    rw [Nat.shiftLeft_eq]
    exact Nat.mul_ne_zero hm (Nat.two_pow_pos _).ne'
  unfold UnpackedFloat.round decreaseExponent
  rw [targetExponent_eq, ← hunits]
  exact stands_roundWithAccuracy hne hleast hlow s

theorem stands_normalize {z e : Int} (he : -1074 ≤ e) (s : Sign) :
    Stands (z * 2 ^ (e + 1074).toNat) (UnpackedFloat.normalize Format.binary64 z e s) := by
  unfold UnpackedFloat.normalize
  split
  · rename_i hneg
    have hz : z < 0 := compare_lt_iff_lt.mp hneg
    have h := stands_round (m := (-z).toNat) (by omega) he .negative
    have hunits : Sign.negative.apply ((-z).toNat * 2 ^ (e + 1074).toNat : Nat) = z * 2 ^ (e + 1074).toNat := by
      show -(((-z).toNat * 2 ^ (e + 1074).toNat : Nat) : Int) = _
      rw [Nat.cast_mul, Int.toNat_of_nonneg (by omega), Nat.cast_pow]
      ring
    exact hunits ▸ h
  · rename_i hzero
    obtain rfl : z = 0 := compare_eq_iff_eq.mp hzero
    rw [Int.zero_mul]
    exact ⟨trivial, rfl, near_refl 0⟩
  · rename_i hpos
    have hz : 0 < z := compare_gt_iff_gt.mp hpos
    have h := stands_round (m := z.toNat) (by omega) he .positive
    have hunits : Sign.positive.apply (z.toNat * 2 ^ (e + 1074).toNat : Nat) = z * 2 ^ (e + 1074).toNat := by
      show ((z.toNat * 2 ^ (e + 1074).toNat : Nat) : Int) = _
      rw [Nat.cast_mul, Int.toNat_of_nonneg (by omega), Nat.cast_pow]
      rfl
    exact hunits ▸ h

/-! ## Sums and differences -/

theorem units_shiftLeft {s : Sign} {m : Nat} {e f : Int} (hf : -1074 ≤ f) (hfe : f ≤ e) :
    s.apply (m <<< (e - f).toNat : Nat) * 2 ^ (f + 1074).toNat = s.apply (m * 2 ^ (e + 1074).toNat : Nat) := by
  have hunits : m <<< (e - f).toNat * 2 ^ (f + 1074).toNat = m * 2 ^ (e + 1074).toNat := by
    rw [Nat.shiftLeft_eq, Nat.mul_assoc, ← Nat.pow_add]
    congr 2
    omega
  rw [← hunits]
  cases s <;> simp [Sign.apply]

theorem stands_self {x : UnpackedFloat} (h : Canonical x) (hfinite : x.isFinite = true) : Stands (unpackedUnits x) x :=
  ⟨h, hfinite, near_refl _⟩

theorem stands_add {x y : UnpackedFloat} (hx : Canonical x) (hy : Canonical y) (hfx : x.isFinite = true)
    (hfy : y.isFinite = true) :
    Stands (unpackedUnits x + unpackedUnits y) (UnpackedFloat.add Format.binary64 x y) := by
  match x, y, hx, hy, hfx, hfy with
  | .zero s, .zero t, _, _, _, _ =>
    unfold UnpackedFloat.add
    dsimp only
    split <;> exact ⟨trivial, rfl, near_refl 0⟩
  | .zero _, .finite .., _, hy, _, _ =>
    show Stands (0 + _) _
    rw [Int.zero_add]
    exact stands_self hy rfl
  | .finite .., .zero _, hx, _, _, _ =>
    show Stands (_ + 0) _
    rw [Int.add_zero]
    exact stands_self hx rfl
  | .finite s₁ m₁ e₁ hm₁, .finite s₂ m₂ e₂ hm₂, hx, hy, _, _ =>
    have h₁ := hx.exponent_ge
    have h₂ := hy.exponent_ge
    have h := stands_normalize (z := s₁.apply (m₁ <<< (e₁ - min e₁ e₂).toNat : Nat) +
      s₂.apply (m₂ <<< (e₂ - min e₁ e₂).toNat : Nat)) (le_min h₁ h₂) .positive
    rw [Int.add_mul, units_shiftLeft (le_min h₁ h₂) (min_le_left _ _),
      units_shiftLeft (le_min h₁ h₂) (min_le_right _ _)] at h
    exact h

theorem apply_neg (s : Sign) (n : Int) : (-s).apply n = -s.apply n := by
  cases s with
  | negative => exact (Int.neg_neg n).symm
  | positive => rfl

theorem canonical_neg {x : UnpackedFloat} (h : Canonical x) : Canonical x.neg := by
  cases x <;> exact h

theorem isFinite_neg {x : UnpackedFloat} (h : x.isFinite = true) : x.neg.isFinite = true := by
  cases x <;> exact h

theorem unpackedUnits_neg (x : UnpackedFloat) : unpackedUnits x.neg = -unpackedUnits x := by
  cases x with
  | finite s | infinity s => exact apply_neg s _
  | zero | notANumber => rfl

/-- A difference is the sum with the negative, down to the signs of zeros. -/
theorem unpacked_sub_eq (x y : UnpackedFloat) :
    UnpackedFloat.sub Format.binary64 x y = UnpackedFloat.add Format.binary64 x y.neg := by
  cases x with
  | finite s m e hm =>
    cases y with
    | finite t n f hn =>
      unfold UnpackedFloat.sub UnpackedFloat.add UnpackedFloat.neg
      dsimp only
      rw [apply_neg, ← Int.sub_eq_add_neg]
    | _ => rfl
  | _ => cases y <;> rfl

theorem stands_sub {x y : UnpackedFloat} (hx : Canonical x) (hy : Canonical y) (hfx : x.isFinite = true)
    (hfy : y.isFinite = true) :
    Stands (unpackedUnits x - unpackedUnits y) (UnpackedFloat.sub Format.binary64 x y) := by
  rw [unpacked_sub_eq, Int.sub_eq_add_neg, ← unpackedUnits_neg]
  exact stands_add hx (canonical_neg hy) hfx (isFinite_neg hfy)

/-! ## Packing -/

theorem unpack_ofParts_zero (s : Sign) : UnpackedFloat.unpack Format.binary64 (ofParts s 0#11 0#52) = .zero s := by
  unfold UnpackedFloat.unpack
  simp only [unpackMantissa_packComponents, unpackExponent_packComponents, unpackSign_ofParts, ofBitVec_toBitVec]
  rfl

theorem unpack_ofParts_subnormal (s : Sign) {m : Nat} (hm : 0 < m) (hdigits : m < 2 ^ 52) :
    UnpackedFloat.unpack Format.binary64 (ofParts s 0#11 (BitVec.ofNat 52 m)) = .finite s m (-1074) hm := by
  have htoNat : (BitVec.ofNat 52 m).toNat = m := Nat.mod_eq_of_lt hdigits
  have hne : BitVec.ofNat 52 m ≠ 0#52 := fun h => hm.ne' (htoNat ▸ congrArg BitVec.toNat h)
  unfold UnpackedFloat.unpack
  simp only [unpackMantissa_packComponents, unpackExponent_packComponents, unpackSign_ofParts, ofBitVec_toBitVec]
  rw [if_neg (by decide), if_pos trivial, dif_neg hne]
  simp only [htoNat]
  rfl

theorem unpack_ofParts_normal (s : Sign) {m : Nat} {e : Int} (hm : 0 < m) (hdigits : m.log2 = 52) (he : -1074 ≤ e)
    (he' : e ≤ 971) :
    UnpackedFloat.unpack Format.binary64 (ofParts s (BitVec.ofNat 11 (e + 1075).toNat) (BitVec.ofNat 52 m)) =
      .finite s m e hm := by
  obtain ⟨hge, hlt⟩ := (Nat.log2_eq_iff hm.ne').mp hdigits
  have hexponent : (BitVec.ofNat 11 (e + 1075).toNat).toNat = (e + 1075).toNat := Nat.mod_eq_of_lt (by omega)
  have hmantissa : (1#1 ++ BitVec.ofNat 52 m).toNat = m := by
    rw [toNat_implicit, BitVec.toNat_ofNat]
    omega
  have hnone : BitVec.ofNat 11 (e + 1075).toNat ≠ 0#11 := by
    intro h
    have : (BitVec.ofNat 11 (e + 1075).toNat).toNat = 0 := by rw [h]; rfl
    omega
  have hall : BitVec.ofNat 11 (e + 1075).toNat ≠ -1#11 := by
    intro h
    have : (BitVec.ofNat 11 (e + 1075).toNat).toNat = 2047 := by rw [h]; rfl
    omega
  unfold UnpackedFloat.unpack
  simp only [unpackMantissa_packComponents, unpackExponent_packComponents, unpackSign_ofParts, ofBitVec_toBitVec]
  rw [if_neg hall, if_neg hnone]
  simp only [hmantissa, hexponent]
  congr 1
  show ((e + 1075).toNat : Int) - (1023 + 52) = e
  omega

theorem unpack_pack {x : UnpackedFloat} (h : Canonical x) (hfinite : x.isFinite = true)
    (hend : (unpackedUnits x).natAbs < unitsEnd) : (Float.Model.pack x).unpack = x := by
  -- There are bits that stand for it, and these are packed as they are.
  have hbits : ∃ b, UnpackedFloat.unpack Format.binary64 b = x := by
    cases x with
    | infinity | notANumber => cases hfinite
    | zero s => exact ⟨_, unpack_ofParts_zero s⟩
    | finite s m e hm =>
      have hge := h.exponent_ge
      have hle := h.log2_le
      -- There are fewer digits only at the least exponent.
      rcases Nat.lt_or_eq_of_le hle with hlt | hdigits
      · have he : e = -1074 := by
          by_contra hne
          exact hlt.ne (h.log2_eq (by omega))
        subst he
        exact ⟨_, unpack_ofParts_subnormal s hm ((Nat.log2_lt hm.ne').mp hlt)⟩
      · refine ⟨_, unpack_ofParts_normal s hm hdigits hge ?_⟩
        rw [natAbs_unpackedUnits_finite] at hend
        have hlog : (m * 2 ^ (e + 1074).toNat).log2 < places :=
          (Nat.log2_lt (magnitude_pos hm e).ne').mpr hend
        rw [log2_mul_two_pow hm.ne', hdigits] at hlog
        unfold places at hlog
        omega
  obtain ⟨b, rfl⟩ := hbits
  exact unpack_pack_unpack b

/-! ## Floats -/

theorem near_lt_unitsEnd {exact rounded : Int} (h : Near exact rounded)
    (hend : exact.natAbs + 2 ^ (places - 54) < unitsEnd) : rounded.natAbs < unitsEnd := by
  have hlog : exact.natAbs.log2 - 52 ≤ places - 54 + 1 := by
    rcases Nat.eq_zero_or_pos exact.natAbs with hzero | hpos
    · rw [hzero, Nat.log2_zero]
      exact Nat.zero_le _
    · have : exact.natAbs.log2 < places := (Nat.log2_lt hpos.ne').mpr ((Nat.le_add_right _ _).trans_lt hend)
      unfold places at this ⊢
      omega
  generalize places - 54 = k at *
  have hunit : 2 ^ (exact.natAbs.log2 - 52) ≤ 2 * 2 ^ k :=
    (Nat.pow_le_pow_right (by decide) hlog).trans_eq Nat.pow_succ'
  unfold Near at h
  generalize 2 ^ (exact.natAbs.log2 - 52) = unit at *
  generalize 2 ^ k = half at *
  omega

theorem isFinite_units_of_stands {exact : Int} {x : UnpackedFloat} (h : Stands exact x)
    (hend : exact.natAbs + 2 ^ (places - 54) < unitsEnd) :
    (Float.ofModel (Float.Model.pack x)).isFinite = true ∧ Near exact (units (Float.ofModel (Float.Model.pack x))) := by
  have hunpack := unpack_pack h.canonical h.finite (near_lt_unitsEnd h.near hend)
  constructor
  · show (Float.Model.pack x).unpack.isFinite = true
    rw [hunpack]
    exact h.finite
  · show Near exact (unpackedUnits (Float.Model.pack x).unpack)
    rw [hunpack]
    exact h.near

variable {x y : Float}

theorem isFinite_units_add (hx : x.isFinite = true) (hy : y.isFinite = true)
    (hend : (units x + units y).natAbs + 2 ^ (places - 54) < unitsEnd) :
    (x + y).isFinite = true ∧ Near (units x + units y) (units (x + y)) :=
  isFinite_units_of_stands (stands_add (canonical_unpack x) (canonical_unpack y) hx hy) hend

theorem isFinite_units_sub (hx : x.isFinite = true) (hy : y.isFinite = true)
    (hend : (units x - units y).natAbs + 2 ^ (places - 54) < unitsEnd) :
    (x - y).isFinite = true ∧ Near (units x - units y) (units (x - y)) :=
  isFinite_units_of_stands (stands_sub (canonical_unpack x) (canonical_unpack y) hx hy) hend

end SolidScript.Binary64

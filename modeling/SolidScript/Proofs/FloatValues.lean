import SolidScript.Proofs.WholeNumbers

/-!
# Floats as real numbers

Every finite float has a value. Sums, differences, products and quotients differ from the exact ones by half a unit of
the last of 53 digits at most, or by half of the least positive float.
-/

namespace SolidScript.Binary64

open Float.Model Float.Model.UnpackedFloat

/-! ## Values -/

noncomputable def unpackedValue (x : UnpackedFloat) : ℝ := unpackedUnits x / one

noncomputable def value (x : Float) : ℝ := unpackedValue x.toModel.unpack

noncomputable def signOf : Sign → ℝ
  | .positive => 1
  | .negative => -1

theorem abs_signOf (s : Sign) : |signOf s| = 1 := by cases s <;> simp [signOf]

theorem signOf_mul (s t : Sign) : signOf (s * t) = signOf s * signOf t := by
  cases s <;> cases t
  · show (1 : ℝ) = -1 * -1
    norm_num
  · show (-1 : ℝ) = -1 * 1
    norm_num
  · show (-1 : ℝ) = 1 * -1
    norm_num
  · show (1 : ℝ) = 1 * 1
    norm_num

theorem signOf_div (s t : Sign) : signOf (s / t) = signOf s / signOf t := by
  cases s <;> cases t
  · show (1 : ℝ) = -1 / -1
    norm_num
  · show (-1 : ℝ) = -1 / 1
    norm_num
  · show (-1 : ℝ) = 1 / -1
    norm_num
  · show (1 : ℝ) = 1 / 1
    norm_num

theorem cast_one : ((one : Nat) : ℝ) = 2 ^ (1074 : ℤ) := by
  unfold one
  rw [Nat.cast_pow, Nat.cast_ofNat, ← zpow_natCast]
  rfl

theorem cast_one_pos : (0 : ℝ) < (one : Nat) := by exact_mod_cast one_pos

theorem signOf_mul_self (s : Sign) : signOf s * signOf s = 1 := by
  cases s
  · show (-1 : ℝ) * -1 = 1
    norm_num
  · exact one_mul 1

theorem apply_div_one (s : Sign) (n : Nat) : ((s.apply n : Int) : ℝ) / one = signOf s * (n / one) := by
  cases s
  · show ((-(n : Int) : Int) : ℝ) / one = -1 * (n / one)
    rw [Int.cast_neg, Int.cast_natCast, neg_one_mul, neg_div]
  · show ((n : Int) : ℝ) / one = 1 * (n / one)
    rw [Int.cast_natCast, one_mul]

theorem apply_units (s : Sign) (m : Nat) {e : Int} (he : -1074 ≤ e) :
    ((s.apply (m * 2 ^ (e + 1074).toNat : Nat) : Int) : ℝ) / one = signOf s * (m * 2 ^ e) := by
  have hpow : ((2 : ℝ) ^ (e + 1074).toNat) = 2 ^ e * (one : Nat) := by
    rw [cast_one, ← zpow_natCast, Int.toNat_of_nonneg (by omega), zpow_add₀ two_ne_zero]
  rw [apply_div_one, Nat.cast_mul, Nat.cast_pow, Nat.cast_ofNat, hpow, ← mul_assoc,
    mul_div_cancel_right₀ _ cast_one_pos.ne']

theorem unpackedValue_finite {s : Sign} {m : Nat} {e : Int} {hm : 0 < m} (h : Canonical (.finite s m e hm)) :
    unpackedValue (.finite s m e hm) = signOf s * (m * 2 ^ e) := apply_units s m h.exponent_ge

theorem unpackedValue_zero (s : Sign) : unpackedValue (.zero s) = 0 := by
  show ((0 : Int) : ℝ) / one = 0
  rw [Int.cast_zero, zero_div]

/-! ## Rounding -/

noncomputable def binade (e : Int) : ℝ := (2 : Nat) ^ e

theorem binade_eq (e : Int) : binade e = 2 ^ e := by
  unfold binade
  rw [Nat.cast_ofNat]

/-- How far a number is from the nearest float at most. -/
noncomputable def roundoff (r : ℝ) : ℝ := max (binade (-53) * |r|) (binade (-1075))

theorem roundoff_eq (r : ℝ) : roundoff r = max (2 ^ (-53 : ℤ) * |r|) (2 ^ (-1075 : ℤ)) := by
  unfold roundoff
  rw [binade_eq, binade_eq]

theorem roundoff_nonneg (r : ℝ) : 0 ≤ roundoff r := by
  rw [roundoff_eq]
  exact le_max_of_le_right (zpow_pos two_pos _).le

theorem roundoff_signOf_mul (s : Sign) (r : ℝ) : roundoff (signOf s * r) = roundoff r := by
  unfold roundoff
  rw [abs_mul, abs_signOf, one_mul]

/-- A finite float next to a number. -/
structure Rounds (exact : ℝ) (x : UnpackedFloat) : Prop where
  canonical : Canonical x
  finite : x.isFinite = true
  near : |unpackedValue x - exact| ≤ roundoff exact

theorem rounds_zero (s : Sign) : Rounds 0 (.zero s) := by
  refine ⟨trivial, rfl, ?_⟩
  rw [unpackedValue_zero, sub_zero, abs_zero]
  exact roundoff_nonneg 0

theorem half_le_roundoff {num den : Nat} (hden : 0 < den) {e : Int} (hle : e ≤ leastExponent (num / den) e) :
    (2 : ℝ) ^ (leastExponent (num / den) e) / 2 ≤ roundoff (num / den * 2 ^ e) := by
  have htwo : (2 : ℝ) ≠ 0 := two_ne_zero
  have hpow : (0 : ℝ) < 2 ^ e := zpow_pos two_pos e
  have hden' : (0 : ℝ) < den := by exact_mod_cast hden
  rw [roundoff_eq]
  -- The last digit that is kept is the last one floats have, or stands 52 places behind the leading digit.
  rcases le_or_gt (leastExponent (num / den) e) (-1074) with hlow | hhigh
  · apply le_max_of_le_right
    calc (2 : ℝ) ^ (leastExponent (num / den) e) / 2
      _ ≤ 2 ^ (-1074 : ℤ) / 2 := by
        have := zpow_le_zpow_right₀ (one_le_two : (1 : ℝ) ≤ 2) hlow
        linarith
      _ = 2 ^ (-1075 : ℤ) := by
        rw [div_eq_mul_inv, ← zpow_sub_one₀ htwo]
        rfl
  · apply le_max_of_le_left
    have hne : num / den ≠ 0 := by
      intro hzero
      rw [hzero] at hle hhigh
      unfold leastExponent leading at *
      rw [Nat.log2_zero] at *
      omega
    have hexponent : leastExponent (num / den) e = (num / den).log2 + e - 52 := by
      unfold leastExponent leading at *
      omega
    have hdigits : (2 : ℝ) ^ ((num / den).log2 : ℤ) ≤ num / den := by
      rw [zpow_natCast]
      calc (2 : ℝ) ^ (num / den).log2
        _ ≤ ((num / den : Nat) : ℝ) := by exact_mod_cast Nat.log2_self_le hne
        _ ≤ num / den := Nat.cast_div_le
    have hquotient : (0 : ℝ) ≤ num / den * 2 ^ e := by positivity
    rw [abs_of_nonneg hquotient, hexponent]
    calc (2 : ℝ) ^ (((num / den).log2 : ℤ) + e - 52) / 2
      _ = 2 ^ (-53 : ℤ) * (2 ^ ((num / den).log2 : ℤ) * 2 ^ e) := by
        rw [div_eq_mul_inv, ← zpow_sub_one₀ htwo, ← zpow_add₀ htwo, ← zpow_add₀ htwo]
        congr 1
        ring
      _ ≤ 2 ^ (-53 : ℤ) * (num / den * 2 ^ e) := by gcongr

theorem rounds_roundWithAccuracy {num den : Nat} (hden : 0 < den) {e : Int} {accuracy : Accuracy}
    (h : Dropped num den (.ofMantissaAndAccuracy (num / den) accuracy)) (hle : e ≤ leastExponent (num / den) e)
    (s : Sign) :
    Rounds (signOf s * (num / den * 2 ^ e)) (roundWithAccuracy Format.binary64 s (num / den) e accuracy) := by
  obtain ⟨hcanonical, hfinite, hunits⟩ := roundWithAccuracy_spec hle s accuracy
  refine ⟨hcanonical, hfinite, ?_⟩
  obtain ⟨hup, hdown⟩ := (h.shiftRight hden (leastExponent (num / den) e - e).toNat).rounded
    (Nat.mul_pos hden (Nat.two_pow_pos _))
  have hhalf := half_le_roundoff hden hle
  have hleast : -1074 ≤ leastExponent (num / den) e := by
    unfold leastExponent
    omega
  have hshift : (2 : ℝ) ^ (leastExponent (num / den) e) = 2 ^ (leastExponent (num / den) e - e).toNat * 2 ^ e := by
    rw [← zpow_natCast, Int.toNat_of_nonneg (by omega), ← zpow_add₀ two_ne_zero]
    congr 1
    ring
  unfold unpackedValue
  rw [hunits, apply_units s _ hleast, roundoff_signOf_mul, ← mul_sub, abs_mul, abs_signOf, one_mul]
  refine le_trans ?_ hhalf
  rw [hshift]
  generalize (ExtendedMantissa.ofMantissaAndAccuracy (num / den) accuracy >>>
    (leastExponent (num / den) e - e).toNat).roundedMantissa = r at *
  generalize (leastExponent (num / den) e - e).toNat = n at *
  have hden' : (0 : ℝ) < den := by exact_mod_cast hden
  have hpow : (0 : ℝ) < 2 ^ e := zpow_pos two_pos e
  have hup : 2 * ((r : ℝ) * (den * 2 ^ n)) ≤ 2 * num + den * 2 ^ n := by exact_mod_cast hup
  have hdown : 2 * (num : ℝ) ≤ 2 * (r * (den * 2 ^ n)) + den * 2 ^ n := by exact_mod_cast hdown
  -- The mantissa misses the quotient by half a unit at most.
  have hquotient : |(r : ℝ) * 2 ^ n - num / den| ≤ 2 ^ n / 2 := by
    rw [abs_le]
    constructor
    · rw [neg_le_sub_iff_le_add, div_le_iff₀ hden']
      linarith
    · rw [sub_le_iff_le_add, ← sub_le_iff_le_add', le_div_iff₀ hden']
      linarith
  calc |(r : ℝ) * (2 ^ n * 2 ^ e) - num / den * 2 ^ e|
    _ = |(r : ℝ) * 2 ^ n - num / den| * 2 ^ e := by
      rw [← mul_assoc, ← sub_mul, abs_mul, abs_of_pos hpow]
    _ ≤ 2 ^ n / 2 * 2 ^ e := by gcongr
    _ = 2 ^ n * 2 ^ e / 2 := by ring

/-! ## Operations -/

theorem near_ratio {exact rounded : Int} (h : Near exact rounded) :
    |(rounded : ℝ) - exact| ≤ 2 ^ (-53 : ℤ) * |(exact : ℝ)| := by
  -- A few digits are not rounded.
  rcases Nat.lt_or_ge exact.natAbs.log2 52 with hfew | hmany
  · have hequal : rounded = exact := by
      unfold Near at h
      rw [Nat.sub_eq_zero_of_le hfew.le] at h
      omega
    rw [hequal, sub_self, abs_zero]
    positivity
  · have hne : exact.natAbs ≠ 0 := by
      intro hzero
      rw [hzero, Nat.log2_zero] at hmany
      omega
    have hdigits : 2 ^ (exact.natAbs.log2 - 52) * 2 ^ 52 ≤ exact.natAbs := by
      rw [← Nat.pow_add, Nat.sub_add_cancel hmany]
      exact Nat.log2_self_le hne
    have hunits : (rounded - exact).natAbs * 2 ^ 53 ≤ exact.natAbs := by
      unfold Near at h
      calc (rounded - exact).natAbs * 2 ^ 53
        _ = 2 * (rounded - exact).natAbs * 2 ^ 52 := by ring
        _ ≤ 2 ^ (exact.natAbs.log2 - 52) * 2 ^ 52 := Nat.mul_le_mul_right _ h
        _ ≤ exact.natAbs := hdigits
    have hunits : |(rounded : ℝ) - exact| * 2 ^ 53 ≤ |(exact : ℝ)| := by
      have hcast : (((rounded - exact).natAbs * 2 ^ 53 : Nat) : ℝ) ≤ exact.natAbs := by exact_mod_cast hunits
      rwa [Nat.cast_mul, Nat.cast_natAbs, Nat.cast_natAbs, Int.cast_abs, Int.cast_abs, Int.cast_sub, Nat.cast_pow,
        Nat.cast_ofNat] at hcast
    rw [zpow_neg, ← div_eq_inv_mul, le_div_iff₀ (zpow_pos two_pos _)]
    exact_mod_cast hunits

theorem rounds_of_stands {exact : Int} {x : UnpackedFloat} (h : Stands exact x) : Rounds (exact / one) x := by
  refine ⟨h.canonical, h.finite, le_max_of_le_left ?_⟩
  unfold unpackedValue
  rw [← sub_div, abs_div, abs_div, abs_of_pos cast_one_pos, ← mul_div_assoc]
  exact div_le_div_of_nonneg_right (near_ratio h.near) cast_one_pos.le

section

variable {x y : UnpackedFloat} (hx : Canonical x) (hy : Canonical y) (hfx : x.isFinite = true) (hfy : y.isFinite = true)

include hx hy hfx hfy

theorem rounds_add : Rounds (unpackedValue x + unpackedValue y) (UnpackedFloat.add Format.binary64 x y) := by
  have h := rounds_of_stands (stands_add hx hy hfx hfy)
  rwa [Int.cast_add, add_div] at h

theorem rounds_sub : Rounds (unpackedValue x - unpackedValue y) (UnpackedFloat.sub Format.binary64 x y) := by
  have h := rounds_of_stands (stands_sub hx hy hfx hfy)
  rwa [Int.cast_sub, sub_div] at h

theorem rounds_mul : Rounds (unpackedValue x * unpackedValue y) (UnpackedFloat.mul Format.binary64 x y) := by
  match x, y, hx, hy, hfx, hfy with
  | .zero s, .zero t, _, _, _, _ | .zero s, .finite t .., _, _, _, _ =>
    rw [unpackedValue_zero, zero_mul]
    exact rounds_zero (s * t)
  | .finite s .., .zero t, _, _, _, _ =>
    rw [unpackedValue_zero, mul_zero]
    exact rounds_zero (s * t)
  | .finite s₁ m₁ e₁ hm₁, .finite s₂ m₂ e₂ hm₂, hx, hy, _, _ =>
    -- The product ends no higher than the last digit that is kept, since neither factor does.
    have hle : e₁ + e₂ ≤ leastExponent (m₁ * m₂ / 1) (e₁ + e₂) := by
      have hdigits := log2_add_le_log2_mul hm₁.ne' hm₂.ne'
      have h₁ : e₁ = leastExponent m₁ e₁ := hx
      have h₂ : e₂ = leastExponent m₂ e₂ := hy
      rw [Nat.div_one]
      unfold leastExponent leading at *
      omega
    have hdropped : Dropped (m₁ * m₂) 1 (.ofMantissaAndAccuracy (m₁ * m₂ / 1) .exact) := by
      rw [Nat.div_one]
      exact dropped_one _
    have h := rounds_roundWithAccuracy Nat.one_pos hdropped hle (s₁ * s₂)
    rw [Nat.div_one, Nat.cast_one, div_one, Nat.cast_mul, zpow_add₀ two_ne_zero, signOf_mul] at h
    have hproduct : signOf s₁ * (m₁ * 2 ^ e₁) * (signOf s₂ * (m₂ * 2 ^ e₂)) =
        signOf s₁ * signOf s₂ * (m₁ * m₂ * (2 ^ e₁ * 2 ^ e₂)) := by ring
    rw [unpackedValue_finite hx, unpackedValue_finite hy, hproduct]
    exact h

theorem rounds_div (hne : unpackedValue y ≠ 0) :
    Rounds (unpackedValue x / unpackedValue y) (UnpackedFloat.div Format.binary64 x y) := by
  match x, y, hx, hy, hfx, hfy with
  | .zero _, .zero t, _, _, _, _ | .finite .., .zero t, _, _, _, _ => exact absurd (unpackedValue_zero t) hne
  | .zero s, .finite t .., _, _, _, _ =>
    rw [unpackedValue_zero, zero_div]
    exact rounds_zero (s / t)
  | .finite s₁ m₁ e₁ hm₁, .finite s₂ m₂ e₂ hm₂, hx, hy, _, _ =>
    obtain ⟨t, n, hshift, hcore, hleast, -⟩ := exists_divCore hm₁ hm₂ e₁ e₂
    have h := rounds_roundWithAccuracy hm₂ (dropped_fraction (m₁ <<< n) hm₂) hleast (s₁ / s₂)
    show Rounds _ (roundWithAccuracy Format.binary64 (s₁ / s₂) (divCore Format.binary64 m₁ e₁ m₂ e₂).1
      (divCore Format.binary64 m₁ e₁ m₂ e₂).2.1 (divCore Format.binary64 m₁ e₁ m₂ e₂).2.2)
    rw [hcore, unpackedValue_finite hx, unpackedValue_finite hy]
    have hm₂' : (m₂ : ℝ) ≠ 0 := by exact_mod_cast hm₂.ne'
    have hexponents : (2 : ℝ) ^ e₁ = 2 ^ n * 2 ^ t * 2 ^ e₂ := by
      rw [← zpow_natCast, ← zpow_add₀ two_ne_zero, ← zpow_add₀ two_ne_zero]
      congr 1
      omega
    have hquotient : signOf s₁ * (m₁ * 2 ^ e₁) / (signOf s₂ * (m₂ * 2 ^ e₂)) =
        signOf (s₁ / s₂) * ((m₁ <<< n : Nat) / m₂ * 2 ^ t) := by
      rw [signOf_div, Nat.shiftLeft_eq, hexponents]
      push_cast
      field_simp
    rw [hquotient]
    exact h

end

/-! ## Floats -/

noncomputable def reach : ℝ := binade 1023

theorem unitsEnd_div_one : (unitsEnd : ℝ) / one = 2 * reach := by
  unfold unitsEnd places reach
  rw [binade_eq, cast_one, Nat.cast_pow, Nat.cast_ofNat, ← zpow_natCast, ← zpow_sub₀ two_ne_zero, ← zpow_one_add₀ two_ne_zero]
  rfl

theorem value_finite {x : Float} {s : Sign} {m : Nat} {e : Int} {hm : 0 < m} (h : x.toModel.unpack = .finite s m e hm) :
    value x = signOf s * (m * 2 ^ e) := by
  have hcanonical := canonical_unpack x
  unfold value
  rw [h] at hcanonical ⊢
  exact unpackedValue_finite hcanonical

theorem value_one : value 1 = 1 := by
  have hunpack : (1 : Float).toModel.unpack = .finite .positive (2 ^ 52) (-52) (by decide) := rfl
  rw [value_finite hunpack]
  unfold signOf
  norm_num

variable {x y : Float} {r s : ℝ}

theorem abs_value_lt (h : x.isFinite = true) : |value x| < 2 * reach := by
  have hend : ((units x).natAbs : ℝ) < unitsEnd := by exact_mod_cast (isFinite_iff.mp h).2
  show |(units x : ℝ) / one| < _
  rw [abs_div, abs_of_pos cast_one_pos, ← unitsEnd_div_one, ← Int.cast_abs, ← Nat.cast_natAbs]
  exact div_lt_div_of_pos_right hend cast_one_pos

theorem one_le_reach : 1 ≤ reach := by
  unfold reach
  rw [binade_eq]
  exact one_le_zpow₀ one_le_two (by decide)

theorem roundoff_lt (r : ℝ) : roundoff r < |r| + 1 := by
  rw [roundoff_eq]
  apply max_lt
  · calc 2 ^ (-53 : ℤ) * |r|
      _ ≤ |r| := mul_le_of_le_one_left (abs_nonneg r) (zpow_le_one_of_nonpos₀ one_le_two (by decide))
      _ < |r| + 1 := lt_add_one _
  · calc (2 : ℝ) ^ (-1075 : ℤ)
      _ < 1 := zpow_lt_one_of_neg₀ one_lt_two (by decide)
      _ ≤ |r| + 1 := le_add_of_nonneg_left (abs_nonneg r)

theorem roundoff_lt_reach (h : |r| ≤ reach) : roundoff r < reach := by
  have hreach := one_le_reach
  rw [roundoff_eq]
  apply max_lt
  · calc 2 ^ (-53 : ℤ) * |r|
      _ ≤ 2 ^ (-53 : ℤ) * reach := by gcongr
      _ < reach := mul_lt_of_lt_one_left (by linarith) (by norm_num)
  · exact (zpow_lt_one_of_neg₀ one_lt_two (by decide)).trans_le hreach

/-- Packing keeps what is well inside of what floats reach. -/
theorem Rounds.packed {u : UnpackedFloat} (h : Rounds r u) (hr : |r| ≤ reach) :
    (Float.ofModel (Float.Model.pack u)).isFinite = true ∧ |value (Float.ofModel (Float.Model.pack u)) - r| ≤ roundoff r := by
  have hroundoff := roundoff_lt_reach hr
  -- Rounded, the number is still below twice the reach, where the floats end.
  have hend : (unpackedUnits u).natAbs < unitsEnd := by
    have hvalue : |unpackedValue u| < 2 * reach := by
      have := abs_le.mp h.near
      have := abs_le.mp hr
      rw [abs_lt]
      constructor <;> linarith
    unfold unpackedValue at hvalue
    rw [abs_div, abs_of_pos cast_one_pos, ← unitsEnd_div_one, div_lt_div_iff_of_pos_right cast_one_pos, ← Int.cast_abs,
      ← Nat.cast_natAbs] at hvalue
    exact_mod_cast hvalue
  have hunpack := unpack_pack h.canonical h.finite hend
  constructor
  · show (Float.Model.pack u).unpack.isFinite = true
    rw [hunpack]
    exact h.finite
  · show |unpackedValue (Float.Model.pack u).unpack - r| ≤ roundoff r
    rw [hunpack]
    exact h.near

theorem unpack_pack_beyond {u : UnpackedFloat} (h : Canonical u) (hfinite : u.isFinite = true)
    (hend : unitsEnd ≤ (unpackedUnits u).natAbs) :
    ∃ s, unpackedUnits u = s.apply (unpackedUnits u).natAbs ∧ (Float.Model.pack u).unpack = .infinity s := by
  cases u with
  | infinity | notANumber => cases hfinite
  | zero s => exact absurd hend unitsEnd_pos.not_ge
  | finite s m e hm =>
    rw [natAbs_unpackedUnits_finite] at hend ⊢
    refine ⟨s, rfl, ?_⟩
    have hhigh : places ≤ m.log2 + (e + 1074).toNat := by
      rw [← log2_mul_two_pow hm.ne']
      exact (Nat.le_log2 (magnitude_pos hm e).ne').mpr hend
    have hdigits := h.log2_le
    have hbiased : 2 ^ 11 ≤ (e + 1023 + 52).toNat + 1 := by
      unfold places at hhigh
      omega
    show UnpackedFloat.unpack Format.binary64
      (if 2 ^ 11 ≤ (e + 1023 + 52).toNat + 1 then packedInfinity Format.binary64 s
      else if m.log2 + 1 = 53 then ofParts s (BitVec.ofNat 11 (e + 1023 + 52).toNat) (BitVec.ofNat 52 m)
      else ofParts s 0#11 (BitVec.ofNat 52 m)) = .infinity s
    rw [if_pos hbiased]
    cases s <;> rfl

theorem unpackedValue_infinity (s : Sign) : unpackedValue (.infinity s) = signOf s * (2 * reach) := by
  unfold unpackedValue
  rw [← unitsEnd_div_one, ← apply_div_one]
  rfl

theorem Rounds.number {u : UnpackedFloat} (h : Rounds r u) :
    Number (Float.ofModel (Float.Model.pack u)) ∧
      (|value (Float.ofModel (Float.Model.pack u)) - r| ≤ roundoff r ∨
        ∃ s, value (Float.ofModel (Float.Model.pack u)) = signOf s * (2 * reach) ∧ reach ≤ signOf s * r) := by
  unfold Number
  show (Float.Model.pack u).unpack ≠ .notANumber ∧ (|unpackedValue (Float.Model.pack u).unpack - r| ≤ roundoff r ∨
    ∃ s, unpackedValue (Float.Model.pack u).unpack = signOf s * (2 * reach) ∧ reach ≤ signOf s * r)
  rcases Nat.lt_or_ge (unpackedUnits u).natAbs unitsEnd with hend | hbeyond
  · rw [unpack_pack h.canonical h.finite hend]
    refine ⟨fun hnan => ?_, .inl h.near⟩
    have hfinite := h.finite
    rw [hnan] at hfinite
    cases hfinite
  · obtain ⟨s, hunits, hpack⟩ := unpack_pack_beyond h.canonical h.finite hbeyond
    rw [hpack]
    refine ⟨nofun, .inr ⟨s, unpackedValue_infinity s, ?_⟩⟩
    have hvalue : 2 * reach ≤ signOf s * unpackedValue u := by
      rw [← unitsEnd_div_one]
      unfold unpackedValue
      rw [hunits, apply_div_one, ← mul_assoc, signOf_mul_self, one_mul]
      have hbeyond : (unitsEnd : ℝ) ≤ (unpackedUnits u).natAbs := by exact_mod_cast hbeyond
      exact div_le_div_of_nonneg_right hbeyond cast_one_pos.le
    have hnear : |signOf s * unpackedValue u - signOf s * r| ≤ roundoff r := by
      rw [← mul_sub, abs_mul, abs_signOf, one_mul]
      exact h.near
    have hup := (abs_le.mp hnear).2
    rw [← roundoff_signOf_mul s r] at hup
    have hroundoff := roundoff_lt (signOf s * r)
    have hreach := one_le_reach
    by_contra hlt
    rw [not_le] at hlt
    -- Rounding does not lead from within the reach to twice of it.
    rcases le_or_gt |signOf s * r| reach with hle | hgt
    · have hroundoff := roundoff_lt_reach hle
      linarith
    · have hneg : |signOf s * r| = -(signOf s * r) := by
        rcases abs_choice (signOf s * r) with habs | habs
        · linarith
        · exact habs
      linarith

section

variable (hx : x.isFinite = true) (hy : y.isFinite = true)

include hx hy

theorem value_add (hend : |value x + value y| ≤ reach) :
    (x + y).isFinite = true ∧ |value (x + y) - (value x + value y)| ≤ roundoff (value x + value y) :=
  (rounds_add (canonical_unpack x) (canonical_unpack y) hx hy).packed hend

theorem value_sub (hend : |value x - value y| ≤ reach) :
    (x - y).isFinite = true ∧ |value (x - y) - (value x - value y)| ≤ roundoff (value x - value y) :=
  (rounds_sub (canonical_unpack x) (canonical_unpack y) hx hy).packed hend

theorem value_mul (hend : |value x * value y| ≤ reach) :
    (x * y).isFinite = true ∧ |value (x * y) - value x * value y| ≤ roundoff (value x * value y) :=
  (rounds_mul (canonical_unpack x) (canonical_unpack y) hx hy).packed hend

theorem number_mul :
    Number (x * y) ∧ (|value (x * y) - value x * value y| ≤ roundoff (value x * value y) ∨
      ∃ s, value (x * y) = signOf s * (2 * reach) ∧ reach ≤ signOf s * (value x * value y)) :=
  (rounds_mul (canonical_unpack x) (canonical_unpack y) hx hy).number

theorem value_div (hne : value y ≠ 0) (hend : |value x / value y| ≤ reach) :
    (x / y).isFinite = true ∧ |value (x / y) - value x / value y| ≤ roundoff (value x / value y) :=
  (rounds_div (canonical_unpack x) (canonical_unpack y) hx hy hne).packed hend

theorem value_lt_iff : x < y ↔ value x < value y := by
  rw [lt_iff]
  unfold value unpackedValue
  rw [div_lt_div_iff_of_pos_right cast_one_pos, Int.cast_lt]
  exact ⟨fun h => h.2.2, fun h => ⟨number_of_isFinite hx, number_of_isFinite hy, h⟩⟩

theorem value_le_iff : x ≤ y ↔ value x ≤ value y := by
  rw [le_iff]
  unfold value unpackedValue
  rw [div_le_div_iff_of_pos_right cast_one_pos, Int.cast_le]
  exact ⟨fun h => h.2.2, fun h => ⟨number_of_isFinite hx, number_of_isFinite hy, h⟩⟩

end

theorem value_abs (x : Float) : value x.abs = |value x| := by
  show (units x.abs : ℝ) / one = |(units x : ℝ) / one|
  rw [units_abs, abs_div, abs_of_pos cast_one_pos, Int.cast_natCast, Nat.cast_natAbs, Int.cast_abs]

/-! ## Nearest integers -/

theorem units_eq_signed (h : Number x) : units x = signed x (units x).natAbs := by
  unfold Number at h
  cases hunpack : x.toModel.unpack with
  | notANumber => exact absurd hunpack h
  | zero s | finite s m e hm =>
    have hfinite : x.isFinite = true := by
      show x.toModel.unpack.isFinite = true
      rw [hunpack]
      rfl
    rw [units_eq_parts hfinite, natAbs_signed]
  | infinity s =>
    have hsign : Sign.ofBitVec (unpackSign (bits x)) = s := by
      rw [unpack_eq] at hunpack
      unfold UnpackedFloat.unpack at hunpack
      dsimp only at hunpack
      split at hunpack
      · split at hunpack
        · exact UnpackedFloat.infinity.inj hunpack
        · cases hunpack
      · split at hunpack
        · split at hunpack <;> cases hunpack
        · cases hunpack
    unfold units
    rw [hunpack, natAbs_unpackedUnits_infinity, ← apply_eq_signed, hsign]
    rfl

theorem signed_sub (x : Float) (a b : Nat) (c : ℝ) : |((signed x a : Int) : ℝ) - (signed x b : Int) / c| = |a - b / c| := by
  unfold signed
  split
  · rw [Int.cast_neg, Int.cast_neg, Int.cast_natCast, Int.cast_natCast, neg_div, neg_sub_neg, abs_sub_comm]
  · rw [Int.cast_natCast, Int.cast_natCast]

theorem number_cases (h : Number x) :
    x.isNaN = false ∧ (x.isFinite = true ∧ x.isInf = false ∨ x.isInf = true ∧ (units x).natAbs = unitsEnd) := by
  unfold Number at h
  show x.toModel.unpack.isNaN = false ∧ (x.toModel.unpack.isFinite = true ∧ x.toModel.unpack.isInf = false ∨
    x.toModel.unpack.isInf = true ∧ (unpackedUnits x.toModel.unpack).natAbs = unitsEnd)
  cases hunpack : x.toModel.unpack with
  | notANumber => exact absurd hunpack h
  | zero | finite => exact ⟨rfl, .inl ⟨rfl, rfl⟩⟩
  | infinity s => exact ⟨rfl, .inr ⟨rfl, natAbs_unpackedUnits_infinity s⟩⟩

theorem exists_unitsEnd_eq : ∃ top : Nat, unitsEnd = top * one ∧ twoTo 63 ≤ top := by
  obtain ⟨k, hk, hrange⟩ : ∃ k, places = k + placesBehind ∧ 63 ≤ k := ⟨1024, rfl, by decide⟩
  refine ⟨2 ^ k, ?_, Nat.pow_le_pow_right two_pos hrange⟩
  unfold unitsEnd one
  rw [hk, Nat.pow_add]

theorem abs_round_sub_le {num den : Nat} (hden : 0 < den) :
    |(((2 * num + den) / (2 * den) : Nat) : ℝ) - num / den| ≤ 1 / 2 := by
  have hden' : (0 : ℝ) < den := by exact_mod_cast hden
  have hlow : 2 * den * ((2 * num + den) / (2 * den)) ≤ 2 * num + den := Nat.mul_div_le _ _
  have hhigh : 2 * num + den < 2 * den * ((2 * num + den) / (2 * den) + 1) :=
    Nat.lt_mul_div_succ _ (Nat.mul_pos two_pos hden)
  generalize (2 * num + den) / (2 * den) = n at hlow hhigh
  have hlow : 2 * (den : ℝ) * n ≤ 2 * num + den := by exact_mod_cast hlow
  have hhigh : 2 * (num : ℝ) + den < 2 * den * (n + 1) := by exact_mod_cast hhigh
  rw [abs_le]
  constructor
  · rw [neg_le_sub_iff_le_add, div_le_iff₀ hden']
    linarith
  · rw [sub_le_iff_le_add, ← sub_le_iff_le_add', le_div_iff₀ hden']
    linarith

theorem natAbs_units_div_one (h : x.isFinite = true) :
    ((units x).natAbs : ℝ) / one = (fraction x).1 / (fraction x).2 := by
  obtain ⟨hfraction, hden⟩ := fraction_eq h
  have hden : ((fraction x).2 : ℝ) ≠ 0 := by exact_mod_cast hden.ne'
  rw [div_eq_div_iff cast_one_pos.ne' hden]
  exact_mod_cast hfraction

/-- The nearest integer is half a unit away at most, unless that is beyond the signed 64-bit range. -/
theorem nearestInt_spec (h : Number x) :
    ∃ n : Int, |n - value x| ≤ 1 / 2 ∧ nearestInt x = max leastInt (min greatestInt n) := by
  have hvalue (n : Nat) : |((signed x n : Int) : ℝ) - value x| = |(n : ℝ) - (units x).natAbs / one| := by
    show |((signed x n : Int) : ℝ) - (units x : ℝ) / one| = _
    rw [units_eq_signed h, signed_sub, ← units_eq_signed h]
  obtain ⟨hnan, ⟨hfinite, hinf⟩ | ⟨hinf, hunits⟩⟩ := number_cases h
  · refine ⟨signed x ((2 * (fraction x).1 + (fraction x).2) / (2 * (fraction x).2)), ?_, ?_⟩
    · rw [hvalue, natAbs_units_div_one hfinite]
      exact abs_round_sub_le (fraction_eq hfinite).2
    · unfold nearestInt
      simp only [hnan, hinf, Bool.false_eq_true, if_false]
  · obtain ⟨top, htop, hrange⟩ := exists_unitsEnd_eq
    refine ⟨signed x top, ?_, ?_⟩
    · rw [hvalue, hunits, htop, Nat.cast_mul, mul_div_cancel_right₀ _ cast_one_pos.ne', sub_self, abs_zero]
      norm_num
    · unfold nearestInt
      simp only [hnan, hinf, Bool.false_eq_true, if_false, if_true]
      unfold signed leastInt greatestInt
      have hpos : 0 < twoTo 63 := Nat.two_pow_pos 63
      generalize twoTo 63 = range at hpos hrange ⊢
      split_ifs <;> omega

theorem roundoff_le (r : ℝ) : roundoff r ≤ 2 ^ (-53 : ℤ) * |r| + 2 ^ (-1075 : ℤ) := by
  rw [roundoff_eq]
  exact max_le_add_of_nonneg (by positivity) (by positivity)

end SolidScript.Binary64

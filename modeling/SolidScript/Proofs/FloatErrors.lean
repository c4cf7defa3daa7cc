import SolidScript.Proofs.FloatValues

/-!
# Errors of computed floats

A float is within so many units of a number if it differs from it by so many units of the last digit of numbers of a
size. Each operation adds a few units. Sizes are large enough that nothing is lost to subnormal floats, and small enough
that nothing overflows.
-/

namespace SolidScript.Binary64

open Float.Model Float.Model.UnpackedFloat

/-! ## Zeros -/

structure Vanishes (x : Float) : Prop where
  finite : x.isFinite = true
  zero : value x = 0

variable {x y : Float}

theorem Vanishes.exists_unpack (h : Vanishes x) : ∃ s, x.toModel.unpack = .zero s := by
  have hfinite : x.toModel.unpack.isFinite = true := h.finite
  have hzero : unpackedValue x.toModel.unpack = 0 := h.zero
  have hcanonical := canonical_unpack x
  cases hunpack : x.toModel.unpack with
  | zero s => exact ⟨s, rfl⟩
  | infinity | notANumber =>
    rw [hunpack] at hfinite
    cases hfinite
  | finite s m e hm =>
    rw [hunpack] at hzero hcanonical
    rw [unpackedValue_finite hcanonical] at hzero
    have hsign : signOf s ≠ 0 := by
      have := abs_signOf s
      intro hs
      rw [hs, abs_zero] at this
      exact zero_ne_one this
    have hm' : (m : ℝ) ≠ 0 := by exact_mod_cast hm.ne'
    exact absurd hzero (mul_ne_zero hsign (mul_ne_zero hm' (zpow_ne_zero e two_ne_zero)))

theorem value_packed {u : UnpackedFloat} (h : Canonical u) (hfinite : u.isFinite = true)
    (hend : (unpackedUnits u).natAbs < unitsEnd) :
    (Float.ofModel (Float.Model.pack u)).isFinite = true ∧ value (Float.ofModel (Float.Model.pack u)) =
      unpackedValue u := by
  have hunpack := unpack_pack h hfinite hend
  constructor
  · show (Float.Model.pack u).unpack.isFinite = true
    rw [hunpack]
    exact hfinite
  · show unpackedValue (Float.Model.pack u).unpack = unpackedValue u
    rw [hunpack]

theorem vanishes_packed (s : Sign) : Vanishes (Float.ofModel (Float.Model.pack (.zero s))) := by
  obtain ⟨hfinite, hvalue⟩ := value_packed (u := .zero s) trivial rfl unitsEnd_pos
  exact ⟨hfinite, hvalue.trans (unpackedValue_zero s)⟩

theorem Vanishes.mul_right (h : Vanishes x) (hy : y.isFinite = true) : Vanishes (x * y) := by
  obtain ⟨s, hs⟩ := h.exists_unpack
  have hfinite : y.toModel.unpack.isFinite = true := hy
  show Vanishes (Float.ofModel (Float.Model.pack (UnpackedFloat.mul Format.binary64 x.toModel.unpack y.toModel.unpack)))
  rw [hs]
  cases hunpack : y.toModel.unpack with
  | infinity | notANumber =>
    rw [hunpack] at hfinite
    cases hfinite
  | zero t | finite t => exact vanishes_packed (s * t)

theorem mul_comm_float (x y : Float) : x * y = y * x := by
  show Float.ofModel (Float.Model.pack (UnpackedFloat.mul Format.binary64 x.toModel.unpack y.toModel.unpack)) =
    Float.ofModel (Float.Model.pack (UnpackedFloat.mul Format.binary64 y.toModel.unpack x.toModel.unpack))
  congr 2
  have hsign (s t : Sign) : s * t = t * s := by cases s <;> cases t <;> rfl
  cases x.toModel.unpack <;> cases y.toModel.unpack <;> simp only [UnpackedFloat.mul, hsign, Nat.mul_comm, Int.add_comm]

theorem Vanishes.mul_left (h : Vanishes x) (hy : y.isFinite = true) : Vanishes (y * x) :=
  mul_comm_float x y ▸ h.mul_right hy

theorem Vanishes.add (hx : Vanishes x) (hy : Vanishes y) : Vanishes (x + y) := by
  obtain ⟨s, hs⟩ := hx.exists_unpack
  obtain ⟨t, ht⟩ := hy.exists_unpack
  show Vanishes (Float.ofModel (Float.Model.pack (UnpackedFloat.add Format.binary64 x.toModel.unpack y.toModel.unpack)))
  rw [hs, ht]
  unfold UnpackedFloat.add
  dsimp only
  split <;> exact vanishes_packed _

theorem value_neg (h : x.isFinite = true) : (-x).isFinite = true ∧ value (-x) = -value x := by
  have hend := (isFinite_iff.mp h).2
  obtain ⟨hfinite, hvalue⟩ :=
    value_packed (canonical_neg (canonical_unpack x)) (isFinite_neg h) (by rwa [unpackedUnits_neg, Int.natAbs_neg])
  refine ⟨hfinite, hvalue.trans ?_⟩
  unfold unpackedValue
  rw [unpackedUnits_neg, Int.cast_neg, neg_div]
  rfl

/-! ## Errors -/

noncomputable def ulp : ℝ := binade (-52)

theorem ulp_eq : ulp = 2 ^ (-52 : ℤ) := binade_eq _

theorem ulp_pos : 0 < ulp := by
  rw [ulp_eq]
  exact zpow_pos two_pos _

/-- A float is near a number up to a size, with an error of so many units. -/
structure Within (size : ℝ) (units : Nat) (x : Float) (r : ℝ) : Prop where
  finite : x.isFinite = true
  bound : |r| ≤ size
  near : |value x - r| ≤ units * (ulp * size)

/-- Sizes that are clear of both ends of the floats. -/
def Fits (size : ℝ) : Prop := binade (-1000) ≤ size ∧ size + size ≤ reach

/-- Fewer units than would matter beside the size. -/
def fewUnits : Nat := 2 ^ 20

variable {a b d r s : ℝ} {k l : Nat}

theorem Within.nonneg (h : Within a k x r) : 0 ≤ a := (abs_nonneg r).trans h.bound

theorem Vanishes.within (h : Vanishes x) : Within 0 k x 0 := by
  refine ⟨h.finite, by rw [abs_zero], ?_⟩
  rw [h.zero, sub_zero, abs_zero, mul_zero, mul_zero]

theorem within_self (h : x.isFinite = true) (ha : |value x| ≤ a) : Within a 0 x (value x) := by
  refine ⟨h, ha, ?_⟩
  rw [sub_self, abs_zero, Nat.cast_zero, zero_mul]

theorem abs_value_le_of_units {n : Nat} (h : (units x).natAbs ≤ n * one) : |value x| ≤ n := by
  show |(units x : ℝ) / one| ≤ n
  rw [abs_div, abs_of_pos cast_one_pos, div_le_iff₀ cast_one_pos, ← Int.cast_abs, ← Nat.cast_natAbs]
  exact_mod_cast h

theorem Within.mono (h : Within a k x r) (hab : a ≤ b) (hkl : k ≤ l) : Within b l x r := by
  have ha := h.nonneg
  have hkl : (k : ℝ) ≤ l := by exact_mod_cast hkl
  have := ulp_pos
  refine ⟨h.finite, h.bound.trans hab, h.near.trans ?_⟩
  gcongr

theorem units_mul_ulp_le (hk : k ≤ fewUnits) : k * ulp ≤ 2 ^ (-32 : ℤ) := by
  have hk : (k : ℝ) ≤ 2 ^ 20 := by exact_mod_cast hk
  rw [ulp_eq]
  calc (k : ℝ) * 2 ^ (-52 : ℤ)
    _ ≤ (2 : ℝ) ^ 20 * 2 ^ (-52 : ℤ) := mul_le_mul_of_nonneg_right hk (zpow_pos two_pos _).le
    _ = 2 ^ (-32 : ℤ) := by norm_num

theorem Within.abs_value_le (h : Within a k x r) (hk : k ≤ fewUnits) : |value x| ≤ (1 + 2 ^ (-32 : ℤ)) * a := by
  have hnear : |value x| ≤ |value x - r| + |r| := by
    have := abs_add_le (value x - r) r
    rwa [sub_add_cancel] at this
  have herror : k * (ulp * a) ≤ 2 ^ (-32 : ℤ) * a := by
    rw [← mul_assoc]
    exact mul_le_mul_of_nonneg_right (units_mul_ulp_le hk) h.nonneg
  linarith [h.near, h.bound]

theorem roundoff_le_ulp (ha : Fits a) (hr : |r| ≤ 2 * a) : roundoff r ≤ ulp * a := by
  obtain ⟨hlow, -⟩ := ha
  rw [binade_eq] at hlow
  rw [roundoff_eq, ulp_eq]
  apply max_le
  · calc (2 : ℝ) ^ (-53 : ℤ) * |r|
      _ ≤ 2 ^ (-53 : ℤ) * (2 * a) := by gcongr
      _ = 2 ^ (-52 : ℤ) * a := by
        rw [← mul_assoc]
        norm_num
  · calc (2 : ℝ) ^ (-1075 : ℤ)
      _ ≤ 2 ^ (-52 + -1000 : ℤ) := zpow_le_zpow_right₀ one_le_two (by decide)
      _ = 2 ^ (-52 : ℤ) * 2 ^ (-1000 : ℤ) := zpow_add₀ two_ne_zero _ _
      _ ≤ 2 ^ (-52 : ℤ) * a := by gcongr

theorem within_rounded {z : Float} {exact : ℝ} (ha : Fits a)
    (hround : |exact| ≤ reach → z.isFinite = true ∧ |value z - exact| ≤ roundoff exact)
    (hr : |r| ≤ a) (hk : k ≤ fewUnits)
    (hnear : |exact - r| ≤ k * (ulp * a)) : Within a (k + 1) z r := by
  have hpos : 0 ≤ a := (abs_nonneg r).trans hr
  have herror : k * (ulp * a) ≤ 1 * a := by
    rw [← mul_assoc]
    refine mul_le_mul_of_nonneg_right ((units_mul_ulp_le hk).trans ?_) hpos
    exact zpow_le_one_of_nonpos₀ one_le_two (by decide)
  have hexact : |exact| ≤ 2 * a := by
    have := abs_sub_abs_le_abs_sub exact r
    linarith
  obtain ⟨hfinite, hvalue⟩ := hround (hexact.trans ((two_mul a).trans_le ha.2))
  refine ⟨hfinite, hr, ?_⟩
  calc |value z - r|
    _ ≤ |value z - exact| + |exact - r| := abs_sub_le _ _ _
    _ ≤ ulp * a + k * (ulp * a) := add_le_add (hvalue.trans (roundoff_le_ulp ha hexact)) hnear
    _ = (k + 1 : Nat) * (ulp * a) := by
      push_cast
      ring

theorem Within.neg (h : Within a k x r) : Within a k (-x) (-r) := by
  obtain ⟨hfinite, hvalue⟩ := value_neg h.finite
  refine ⟨hfinite, by rw [abs_neg]; exact h.bound, ?_⟩
  rw [hvalue, neg_sub_neg, abs_sub_comm]
  exact h.near

theorem Within.abs (h : Within a k x r) : Within a k x.abs |r| := by
  refine ⟨isFinite_abs h.finite, by rw [abs_abs]; exact h.bound, ?_⟩
  rw [value_abs]
  exact (abs_abs_sub_abs_le_abs_sub _ _).trans h.near

/-- An operation whose exact result is no farther off than its operands are together. -/
theorem Within.combine (hx : Within a k x r) (hy : Within b l y s) (hfits : Fits (a + b)) (hkl : k + l ≤ fewUnits)
    {z : Float} {exact t : ℝ} (hround : |exact| ≤ reach → z.isFinite = true ∧ |value z - exact| ≤ roundoff exact)
    (hbound : |t| ≤ |r| + |s|) (hnear : |exact - t| ≤ |value x - r| + |value y - s|) :
    Within (a + b) (k + l + 1) z t := by
  refine within_rounded hfits hround (hbound.trans (add_le_add hx.bound hy.bound)) hkl ?_
  have ha := hx.nonneg
  have hb := hy.nonneg
  have hulp := ulp_pos
  calc |exact - t|
    _ ≤ k * (ulp * a) + l * (ulp * b) := hnear.trans (add_le_add hx.near hy.near)
    _ ≤ k * (ulp * (a + b)) + l * (ulp * (a + b)) := by
      gcongr
      · linarith
      · linarith
    _ = (k + l : Nat) * (ulp * (a + b)) := by
      push_cast
      ring

theorem Within.add (hx : Within a k x r) (hy : Within b l y s) (hfits : Fits (a + b)) (hkl : k + l ≤ fewUnits) :
    Within (a + b) (k + l + 1) (x + y) (r + s) := by
  refine hx.combine hy hfits hkl (value_add hx.finite hy.finite) (abs_add_le r s) ?_
  rw [add_sub_add_comm]
  exact abs_add_le _ _

theorem Within.sub (hx : Within a k x r) (hy : Within b l y s) (hfits : Fits (a + b)) (hkl : k + l ≤ fewUnits) :
    Within (a + b) (k + l + 1) (x - y) (r - s) := by
  refine hx.combine hy hfits hkl (value_sub hx.finite hy.finite) (abs_sub r s) ?_
  rw [sub_sub_sub_comm]
  exact abs_sub _ _

theorem units_mul_le_one {n : Nat} (hn : n ≤ fewUnits) {δ : ℝ} (hδ : δ ≤ 2 ^ (-31 : ℤ)) : n * δ ≤ 1 := by
  have hn : (n : ℝ) ≤ 2 ^ 20 := by exact_mod_cast hn
  calc (n : ℝ) * δ
    _ ≤ n * 2 ^ (-31 : ℤ) := mul_le_mul_of_nonneg_left hδ n.cast_nonneg
    _ ≤ 2 ^ 20 * 2 ^ (-31 : ℤ) := mul_le_mul_of_nonneg_right hn (zpow_pos two_pos _).le
    _ ≤ 1 := by norm_num

theorem Within.mul (hx : Within a k x r) (hy : Within b l y s) (hfits : Fits (a * b)) (hkl : k + l + 1 ≤ fewUnits) :
    Within (a * b) (k + l + 2) (x * y) (r * s) := by
  have ha := hx.nonneg
  have hulp := ulp_pos
  have hbound : |r * s| ≤ a * b := by
    rw [abs_mul]
    exact mul_le_mul hx.bound hy.bound (abs_nonneg s) ha
  refine within_rounded hfits (value_mul hx.finite hy.finite) hbound hkl ?_
  have hab : 0 ≤ ulp * (a * b) := mul_nonneg hulp.le ((abs_nonneg _).trans hbound)
  have hk : (k : ℝ) * 2 ^ (-32 : ℤ) ≤ 1 := units_mul_le_one (by omega) (by norm_num)
  -- One factor after the other is replaced by what it stands for.
  calc |value x * value y - r * s|
    _ = |(value x - r) * value y + r * (value y - s)| := by ring_nf
    _ ≤ |value x - r| * |value y| + |r| * |value y - s| := by
      rw [← abs_mul, ← abs_mul]
      exact abs_add_le _ _
    _ ≤ k * (ulp * a) * ((1 + 2 ^ (-32 : ℤ)) * b) + a * (l * (ulp * b)) :=
      add_le_add
        (mul_le_mul hx.near (hy.abs_value_le (by omega)) (abs_nonneg _) ((abs_nonneg _).trans hx.near))
        (mul_le_mul hx.bound hy.near (abs_nonneg _) ha)
    _ = (k + l + k * 2 ^ (-32 : ℤ)) * (ulp * (a * b)) := by ring
    _ ≤ (k + l + 1) * (ulp * (a * b)) := by gcongr
    _ = (k + l + 1 : Nat) * (ulp * (a * b)) := by push_cast; ring

theorem Within.le_value (hy : Within d l y d) (hd : 0 < d) (hl : l ≤ fewUnits) :
    (1 - 2 ^ (-32 : ℤ)) * d ≤ value y := by
  have hsmall := mul_le_mul_of_nonneg_right (units_mul_ulp_le hl) hd.le
  have hlow := (abs_le.mp hy.near).1
  linarith

theorem abs_div_sub_div_le {p q : ℝ} (hq : 0 < q) (hd : 0 < d) :
    |p / q - r / d| ≤ |p - r| / q + |r| * |q - d| / (q * d) := by
  have hsplit : p / q - r / d = (p - r) / q + r * (d - q) / (q * d) := by
    field_simp
    ring
  calc |p / q - r / d|
    _ ≤ |(p - r) / q| + |r * (d - q) / (q * d)| := hsplit ▸ abs_add_le _ _
    _ = |p - r| / q + |r| * |q - d| / (q * d) := by
      rw [abs_div, abs_of_pos hq, abs_div, abs_mul, abs_of_pos (mul_pos hq hd), abs_sub_comm d]

theorem Within.div (hx : Within a k x r) (hy : Within d l y d) (hd : 0 < d) (hab : a ≤ b * d) (hfits : Fits b)
    (hkl : k + l + 1 ≤ fewUnits) : Within b (k + l + 2) (x / y) (r / d) := by
  have ha := hx.nonneg
  have hulp := ulp_pos
  have hnear := hy.le_value hd (by omega)
  have hpos : 0 < value y := (mul_pos (by norm_num) hd).trans_le hnear
  have hbound : |r / d| ≤ b := by
    rw [abs_div, abs_of_pos hd, div_le_iff₀ hd]
    exact hx.bound.trans hab
  have hb : 0 ≤ b := (abs_nonneg _).trans hbound
  have hratio : a / value y ≤ (1 + 2 ^ (-31 : ℤ)) * b := by
    rw [div_le_iff₀ hpos]
    calc a
      _ ≤ b * d := hab
      _ ≤ b * ((1 + 2 ^ (-31 : ℤ)) * ((1 - 2 ^ (-32 : ℤ)) * d)) := by
        rw [← mul_assoc (1 + _)]
        exact mul_le_mul_of_nonneg_left (le_mul_of_one_le_left hd.le (by norm_num)) hb
      _ ≤ b * ((1 + 2 ^ (-31 : ℤ)) * value y) := by gcongr
      _ = (1 + 2 ^ (-31 : ℤ)) * b * value y := by ring
  refine within_rounded hfits (value_div hx.finite hy.finite hpos.ne') hbound hkl ?_
  have hkl : ((k : ℝ) + l) * 2 ^ (-31 : ℤ) ≤ 1 := by
    rw [← Nat.cast_add]
    exact units_mul_le_one (by omega) le_rfl
  calc |value x / value y - r / d|
    _ ≤ |value x - r| / value y + |r| * |value y - d| / (value y * d) := abs_div_sub_div_le hpos hd
    _ ≤ k * (ulp * a) / value y + a * (l * (ulp * d)) / (value y * d) := by
      gcongr
      · exact hx.near
      · exact hx.bound
      · exact hy.near
    _ = (k + l) * ulp * (a / value y) := by
      field_simp
    _ ≤ (k + l) * ulp * ((1 + 2 ^ (-31 : ℤ)) * b) := by gcongr
    _ = (k + l + (k + l) * 2 ^ (-31 : ℤ)) * (ulp * b) := by ring
    _ ≤ (k + l + 1) * (ulp * b) := by gcongr
    _ = (k + l + 1 : Nat) * (ulp * b) := by push_cast; ring

/-! ## Constants -/

theorem fits_of_le {n : Int} (hlow : 2 ^ (-1000 : ℤ) ≤ a) (hhigh : a ≤ 2 ^ n) (hn : n ≤ 1022) : Fits a := by
  unfold Fits reach
  rw [binade_eq, binade_eq, ← two_mul]
  refine ⟨hlow, ?_⟩
  calc 2 * a
    _ ≤ 2 * 2 ^ n := by gcongr
    _ = 2 ^ (1 + n) := (zpow_one_add₀ two_ne_zero n).symm
    _ ≤ 2 ^ (1023 : ℤ) := zpow_le_zpow_right₀ one_le_two (by omega)

theorem fits_of_one_le (hlow : 1 ≤ a) (hhigh : a ≤ 2 ^ 100) : Fits a :=
  fits_of_le (n := 100) ((zpow_le_one_of_nonpos₀ one_le_two (by decide)).trans hlow) (by exact_mod_cast hhigh)
    (by decide)

theorem within_one : Within 1 0 1 1 := by
  have h := within_self (x := 1) (a := 1) rfl (by rw [value_one, abs_one])
  rwa [value_one] at h

theorem within_ofNat {n : Nat} (hpos : 0 < n) (hn : n < 2 ^ 53) : Within n 3 (Float.ofNat n) n := by
  have hword : n.toUInt64.toNat = n := by
    rw [Nat.toUInt64_eq, UInt64.toNat_ofNat']
    exact Nat.mod_eq_of_lt (hn.trans (by decide))
  have hone : (1 : ℝ) ≤ n := by exact_mod_cast hpos
  have hfits : Fits (n : ℝ) := by
    refine fits_of_one_le hone ?_
    exact_mod_cast hn.le.trans (by decide)
  have hrounds : Rounds n (UnpackedFloat.ofUInt64 Format.binary64 n.toUInt64) := by
    have h := rounds_of_stands (stands_normalize (z := n) (e := 0) (by decide) .positive)
    unfold UnpackedFloat.ofUInt64 UnpackedFloat.ofNat UnpackedFloat.ofInt
    rw [hword]
    rwa [Int.cast_mul, Int.cast_natCast, Int.cast_pow, Int.cast_ofNat, cast_one, ← zpow_natCast,
      show (((0 : Int) + 1074).toNat : Int) = 1074 from rfl, mul_div_cancel_right₀ _ (zpow_ne_zero _ two_ne_zero)] at h
  have hcast : Within n 1 n.toUInt64.toFloat n :=
    within_rounded (k := 0) hfits (fun hreach => hrounds.packed hreach) (by rw [Nat.abs_cast]) (by decide)
      (by rw [sub_self, abs_zero, Nat.cast_zero, zero_mul])
  -- Without digits behind the point, nothing is left to scale by.
  have hread : Float.ofNat n = n.toUInt64.toFloat * 1 := by
    unfold Float.ofNat
    show Float.ofScientific n false 0 = _
    unfold Float.ofScientific
    rw [dif_pos ⟨hn, by decide⟩]
    rfl
  have h := hcast.mul within_one (by rwa [mul_one]) (by decide)
  rwa [mul_one, ← hread] at h

theorem vanishes_zero : Vanishes 0 := vanishes_packed .positive

end SolidScript.Binary64

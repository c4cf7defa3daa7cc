import SolidScript.Proofs.FloatErrors
import SolidScript.Shape.Round

/-!
# Steps around a circle

Floats leave sine and cosine to the machine. Here any two functions take their place. Where these are accurate, so are
the directions of equal steps around a circle.
-/

namespace SolidScript

open Binary64

/-- Functions in the place of sine and cosine. -/
class Trigonometry where
  sin : Float → Float
  cos : Float → Float

namespace Trigonometry

/-- Floats with these functions. -/
@[reducible] def scalar [t : Trigonometry] : Scalar Float :=
  { (inferInstance : Scalar Float) with
    sin := t.sin
    cos := t.cos }

/-- The functions of the machine. -/
@[reducible] def machine : Trigonometry := ⟨Float.sin, Float.cos⟩

theorem scalar_machine : @scalar machine = (inferInstance : Scalar Float) := rfl

/-- The functions are off by a number of units at most on angles of one turn. -/
structure Accurate [t : Trigonometry] : Prop where
  sin : ∀ x : Float, x.isFinite = true → |value x| ≤ 7 → Within 1 128 (t.sin x) (Real.sin (value x))
  cos : ∀ x : Float, x.isFinite = true → |value x| ≤ 7 → Within 1 128 (t.cos x) (Real.cos (value x))

attribute [local instance] scalar

/-! ## Errors of a turn -/

noncomputable def turn : ℝ := (2 : Nat) * Real.pi

theorem turn_eq : turn = 2 * Real.pi := by
  unfold turn
  rw [Nat.cast_ofNat]

def turnUnits : Nat := 256

variable {x : Float} {r : ℝ}

theorem abs_angle_le (hx : Within 8 16 x r) (hr : |r| ≤ turn) : |value x| ≤ 7 := by
  have hpi := Real.pi_lt_d2
  have hnear := hx.near
  have := abs_sub_abs_le_abs_sub (value x) r
  rw [ulp_eq] at hnear
  rw [turn_eq] at hr
  norm_num at hnear
  linarith

theorem turn_pos : 0 < turn := by
  rw [turn_eq]
  exact Real.two_pi_pos

theorem abs_part_le {a : ℝ} {i m : Nat} (ha : 0 ≤ a) (hm : 0 < m) (hi : i ≤ m) : |a * i / m| ≤ a := by
  have hcast : (i : ℝ) ≤ m := by exact_mod_cast hi
  have hm' : (0 : ℝ) < m := by exact_mod_cast hm
  rw [abs_of_nonneg (by positivity), div_le_iff₀ hm']
  gcongr

theorem abs_step_le {i m : Nat} (hm : 0 < m) (hi : i ≤ m) : |turn * i / m| ≤ turn := abs_part_le turn_pos.le hm hi

theorem abs_polar_le {i m : Nat} (hm : 0 < m) (hi : i ≤ m) : |Real.pi * i / m| ≤ turn := by
  refine (abs_part_le Real.pi_pos.le hm hi).trans ?_
  rw [turn_eq]
  linarith [Real.pi_pos]

theorem within_turn {y : Float} {s t : ℝ} (hx : Within 8 16 x r) (hy : Within 1 128 y s) (ht : |t| ≤ 1)
    (hst : |s - t| ≤ |value x - r|) : Within 1 turnUnits y t := by
  refine ⟨hy.finite, ht, ?_⟩
  calc |value y - t|
    _ ≤ |value y - s| + |s - t| := abs_sub_le _ _ _
    _ ≤ (128 : Nat) * (ulp * 1) + (16 : Nat) * (ulp * 8) := add_le_add hy.near (hst.trans hx.near)
    _ = turnUnits * (ulp * 1) := by
      unfold turnUnits
      push_cast
      ring

/-! ## Accurate functions -/

noncomputable def nearUnit (r : ℝ) : Float :=
  Float.ofModel (Float.Model.pack (.normalize Float.Model.Format.binary64 (round (r * binade 60)) (-60) .positive))

theorem within_nearUnit (hr : |r| ≤ 1) : Within 1 128 (nearUnit r) r := by
  have hdigits : binade 60 = 2 ^ 60 := binade_eq 60
  unfold nearUnit
  rw [hdigits]
  -- The error is of the multiple of `2 ^ -60`, and of the float that is nearest to it.
  have hrounds := rounds_of_stands (stands_normalize (z := round (r * 2 ^ 60)) (e := -60) (by decide) .positive)
  have hexact : ((round (r * 2 ^ 60) * 2 ^ ((-60 : Int) + 1074).toNat : Int) : ℝ) / (one : Nat) =
      round (r * 2 ^ 60) / 2 ^ 60 := by
    rw [show ((-60 : Int) + 1074).toNat = 1014 from rfl, Int.cast_mul, Int.cast_pow, Int.cast_ofNat, cast_one,
      ← zpow_natCast (2 : ℝ) 1014, ← zpow_natCast (2 : ℝ) 60, mul_div_assoc, ← zpow_sub₀ two_ne_zero, div_eq_mul_inv,
        ← zpow_neg]
    rfl
  rw [hexact] at hrounds
  have hnear := abs_sub_round (r * 2 ^ 60)
  refine (within_rounded (k := 1) (fits_of_one_le le_rfl (by norm_num)) hrounds.packed hr (by decide) ?_).mono le_rfl (by decide)
  have hscaled : (round (r * 2 ^ 60) : ℝ) / 2 ^ 60 - r = -(r * 2 ^ 60 - round (r * 2 ^ 60)) / 2 ^ 60 := by
    field_simp
    ring
  rw [hscaled, abs_div, abs_neg, ulp_eq]
  norm_num at hnear ⊢
  linarith

/-- The functions that the numbers themselves have, rounded. -/
@[reducible] noncomputable def rounded : Trigonometry where
  sin x := nearUnit (Real.sin (value x))
  cos x := nearUnit (Real.cos (value x))

theorem accurate_rounded : @Accurate rounded :=
  @Accurate.mk rounded (fun _ _ _ => within_nearUnit (Real.abs_sin_le_one _)) fun _ _ _ => within_nearUnit (Real.abs_cos_le_one _)

/-! ## Angles -/

theorem value_pi : value (Float.ofBits 0x400921FB54442D18) = 7074237752028440 / 2 ^ 51 := by
  have hunpack : (Float.ofBits 0x400921FB54442D18).toModel.unpack =
    .finite .positive 7074237752028440 (-51) (by decide) := rfl
  rw [value_finite hunpack]
  unfold signOf
  norm_num

variable [Trigonometry]

theorem within_pi : Within 4 1 (Scalar.pi : Float) Real.pi := by
  show Within 4 1 (Float.ofBits 0x400921FB54442D18) Real.pi
  have hlow := Real.pi_gt_d20
  have hhigh := Real.pi_lt_d20
  refine ⟨by decide +kernel, ?_, ?_⟩
  · rw [abs_of_pos Real.pi_pos]
    linarith
  · rw [value_pi, ulp_eq, abs_le]
    constructor
    · norm_num at hlow hhigh ⊢
      linarith
    · norm_num at hlow hhigh ⊢
      linarith

theorem within_tau : Within 8 6 (Scalar.tau : Float) turn := by
  have h := (within_ofNat (n := 2) two_pos (by decide)).mul within_pi (fits_of_one_le (by norm_num) (by norm_num)) (by decide)
  have hsize : ((2 : Nat) : ℝ) * 4 = 8 := by norm_num
  rwa [hsize] at h

variable {j n : Nat}

theorem within_count (hn : n < 2 ^ 53) : Within n 3 (Scalar.ofNat n : Float) n := by
  rcases Nat.eq_zero_or_pos n with rfl | hpos
  · have h : Within 0 3 (Scalar.ofNat 0 : Float) 0 := vanishes_zero.within
    exact_mod_cast h
  · exact within_ofNat hpos hn

theorem within_step {x : Float} {a r : ℝ} {k : Nat} (hx : Within a k x r) (hlow : 1 ≤ a) (hhigh : a ≤ 2 ^ 40)
    (hk : k ≤ 2 ^ 10)
    (hpos : 0 < n) (hn : n < 2 ^ 53) (hj : j ≤ n) :
    Within a (k + 10) (x * Scalar.ofNat j / Scalar.ofNat n) (r * j / n) := by
  have hcast : (j : ℝ) ≤ n := by exact_mod_cast hj
  have hone : (1 : ℝ) ≤ n := by exact_mod_cast hpos
  have hend : (n : ℝ) ≤ 2 ^ 53 := by exact_mod_cast hn.le
  have hcount := (within_count (hj.trans_lt hn)).mono hcast le_rfl
  have hfew : k + 10 ≤ fewUnits := by
    unfold fewUnits
    omega
  have hproduct := hx.mul hcount (fits_of_one_le (one_le_mul_of_one_le_of_one_le hlow hone) (by
    calc a * n
      _ ≤ 2 ^ 40 * 2 ^ 53 := by gcongr
      _ ≤ 2 ^ 100 := by norm_num)) (by omega)
  have hquotient := hproduct.div (within_count hn) (by linarith) le_rfl
    (fits_of_one_le hlow (hhigh.trans (by norm_num))) (by omega)
  exact hquotient.mono le_rfl (by omega)

theorem within_stepAngle (hpos : 0 < n) (hn : n < 2 ^ 53) (hj : j ≤ n) :
    Within 8 16 (Round.stepAngle j n : Float) (turn * j / n) :=
  within_step within_tau (by norm_num) (by norm_num) (by decide) hpos hn hj

theorem within_polar (hpos : 0 < n) (hn : n < 2 ^ 53) (hj : j ≤ n) :
    Within 8 16 (Scalar.pi * Scalar.ofNat j / Scalar.ofNat n : Float) (Real.pi * j / n) :=
  (within_step within_pi (by norm_num) (by norm_num) (by decide) hpos hn hj).mono (by norm_num) (by decide)

/-! ## Directions -/

theorem Accurate.within_cos (h : Accurate) (hx : Within 8 16 x r) (hr : |r| ≤ turn) :
    Within 1 turnUnits (Scalar.cos x) (Real.cos r) :=
  within_turn hx (h.cos x hx.finite (abs_angle_le hx hr)) (Real.abs_cos_le_one r) (Real.abs_cos_sub_cos_le _ _)

theorem Accurate.within_sin (h : Accurate) (hx : Within 8 16 x r) (hr : |r| ≤ turn) :
    Within 1 turnUnits (Scalar.sin x) (Real.sin r) :=
  within_turn hx (h.sin x hx.finite (abs_angle_le hx hr)) (Real.abs_sin_le_one r) (Real.abs_sin_sub_sin_le _ _)

end Trigonometry

end SolidScript

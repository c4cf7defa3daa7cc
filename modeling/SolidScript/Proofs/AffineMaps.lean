import SolidScript.Feature.Transform
import SolidScript.Proofs.Outlines

/-!
# Matrices that scale

A matrix that scales each axis by itself and then moves has zeros everywhere else. Products of such matrices have them at
the same places, so that the zeros are exact and only the factors and the shifts are rounded.
-/

namespace SolidScript

open Binary64

attribute [local instance] Trigonometry.scalar

/-! ## Entries -/

def Vec4.entry (v : Vec4 Float) : Option Axis → Float
  | some .x => v.x
  | some .y => v.y
  | some .z => v.z
  | none => v.w

def Matrix4.row (m : Matrix4 Float) : Option Axis → Vec4 Float
  | some .x => m.row0
  | some .y => m.row1
  | some .z => m.row2
  | none => m.row3

def Matrix4.entry (m : Matrix4 Float) (i j : Option Axis) : Float := (m.row i).entry j

namespace Binary64

variable {a b r : ℝ} {k l : Nat} {x y : Float}

theorem Within.add_vanishing (hx : Within a k x r) (hy : Vanishes y) (hfits : Fits a) (hk : k ≤ fewUnits) :
    Within a (k + 1) (x + y) r := by
  have h := hx.add (k := k) (l := 0) hy.within (by rwa [add_zero]) hk
  rwa [add_zero, add_zero, add_zero] at h

theorem Vanishes.add_within (hy : Vanishes y) (hx : Within a k x r) (hfits : Fits a) (hk : k ≤ fewUnits) :
    Within a (k + 1) (y + x) r := by
  have h := (hy.within (k := 0)).add hx (by rwa [zero_add]) (by rwa [zero_add])
  rwa [zero_add, zero_add, zero_add] at h

theorem within_sum {g : Axis → Float} (axis : Axis) (h : Within a k (g axis) r)
    (hzero : ∀ other ≠ axis, Vanishes (g other))
    (hfits : Fits a) (hk : k + 1 ≤ fewUnits) : Within a (k + 2) (g .x + g .y + g .z) r := by
  have hk' : k ≤ fewUnits := by omega
  cases axis with
  | x => exact (h.add_vanishing (hzero .y nofun) hfits hk').add_vanishing (hzero .z nofun) hfits hk
  | y => exact ((hzero .x nofun).add_within h hfits hk').add_vanishing (hzero .z nofun) hfits hk
  | z => exact (((hzero .x nofun).add (hzero .y nofun)).add_within h hfits hk').mono le_rfl (Nat.le_succ _)

theorem vanishes_sum {g : Axis → Float} (h : ∀ axis, Vanishes (g axis)) : Vanishes (g .x + g .y + g .z) :=
  ((h .x).add (h .y)).add (h .z)

end Binary64

namespace Matrix4

/-- Factors along the axes and shifts, each with a size. The last entry is one. -/
structure Scales (size shift : ℝ) (units : Nat) (m : Matrix4 Float) (f t : Axis → ℝ) : Prop where
  factor : ∀ a, Within size units (m.entry (some a) (some a)) (f a)
  offset : ∀ a, Within shift units (m.entry (some a) none) (t a)
  elsewhere : ∀ a b, b ≠ a → Vanishes (m.entry (some a) (some b))
  last : ∀ a, Vanishes (m.entry none (some a))
  corner : Within 1 units (m.entry none none) 1

theorem Scales.finite {size shift : ℝ} {units : Nat} {m : Matrix4 Float} {f t : Axis → ℝ}
    (h : m.Scales size shift units f t)
    (a : Axis) (j : Option Axis) : (m.entry (some a) j).isFinite = true := by
  cases j with
  | none => exact (h.offset a).finite
  | some b =>
    rcases eq_or_ne b a with rfl | hne
    · exact (h.factor b).finite
    · exact (h.elsewhere a b hne).finite

variable [Trigonometry]

theorem entry_mul (m n : Matrix4 Float) (i j : Option Axis) :
    (m * n).entry i j = n.entry (some .x) j * m.entry i (some .x) + n.entry (some .y) j * m.entry i (some .y) +
      n.entry (some .z) j * m.entry i (some .z) + n.entry none j * m.entry i none := by
  rcases i with _ | _ | _ | _ <;> rcases j with _ | _ | _ | _ <;> rfl

def productUnits (k l : Nat) : Nat := 2 * (k + l) + 7

variable {A B A' B' : ℝ} {k l : Nat} {m n : Matrix4 Float} {f t f' t' : Axis → ℝ}

theorem Scales.mul (hm : m.Scales A B k f t) (hn : n.Scales A' B' l f' t') (hfew : productUnits k l ≤ fewUnits)
    (hsize : Fits (A' * A)) (hscaled : Fits (B' * A)) (hshift : Fits (1 * B)) (hsum : Fits (B' * A + 1 * B)) :
    (m * n).Scales (A' * A) (B' * A + 1 * B) (productUnits k l) (fun a => f' a * f a)
      fun a => t' a * f a + 1 * t a := by
  unfold productUnits at hfew ⊢
  refine ⟨fun a => ?_, fun a => ?_, fun a b hne => ?_, fun a => ?_, ?_⟩
  -- Of the products that are added, one is of factors on the same axis. The others vanish.
  · rw [entry_mul]
    have hterm := within_sum (g := fun c => n.entry (some c) (some a) * m.entry (some a) (some c)) a
      ((hn.factor a).mul (hm.factor a) hsize (by omega))
      (fun c hc => (hn.elsewhere c a hc.symm).mul_right (hm.finite a (some c))) hsize (by omega)
    exact (hterm.add_vanishing ((hn.last a).mul_right (hm.finite a none)) hsize (by omega)).mono le_rfl (by omega)
  · rw [entry_mul]
    have hterm := within_sum (g := fun c => n.entry (some c) none * m.entry (some a) (some c)) a
      ((hn.offset a).mul (hm.factor a) hscaled (by omega))
      (fun c hc => (hm.elsewhere a c hc).mul_left (hn.finite c none)) hscaled (by omega)
    exact (hterm.add (hn.corner.mul (hm.offset a) hshift (by omega)) hsum (by omega)).mono le_rfl (by omega)
  · rw [entry_mul]
    refine (vanishes_sum (g := fun c => n.entry (some c) (some b) * m.entry (some a) (some c)) fun c => ?_).add
      ((hn.last b).mul_right (hm.finite a none))
    rcases eq_or_ne c a with rfl | hc
    · exact (hn.elsewhere c b hne).mul_right (hm.finite c (some c))
    · exact (hm.elsewhere a c hc).mul_left (hn.finite c (some b))
  · rw [entry_mul]
    exact (vanishes_sum (g := fun c => n.entry (some c) (some a) * m.entry none (some c))
      fun c => (hm.last c).mul_left (hn.finite c (some a))).add ((hn.last a).mul_right hm.corner.finite)
  · rw [entry_mul]
    have hone : Fits ((1 : ℝ) * 1) := fits_of_one_le (by norm_num) (by norm_num)
    have hproduct := hn.corner.mul hm.corner hone (by omega)
    rw [one_mul (1 : ℝ)] at hproduct hone
    exact ((vanishes_sum (g := fun c => n.entry (some c) none * m.entry none (some c))
      fun c => (hm.last c).mul_left (hn.finite c none)).add_within hproduct hone (by omega)).mono le_rfl (by omega)

theorem get_linear (m : Matrix4 Float) (v : Vec3 Float) (a : Axis) :
    (m.linear.apply v + ⟨m.row0.w, m.row1.w, m.row2.w⟩ : Vec3 Float).get a =
      m.entry (some a) (some .x) * v.get .x + m.entry (some a) (some .y) * v.get .y + m.entry (some a) (some .z) * v.get .z +
        m.entry (some a) none := by
  cases a <;> rfl

def imageUnits (k l : Nat) : Nat := 3 * k + l + 10

theorem Scales.tracks_applyPoint (hm : m.Scales A B k f t) {v : Vec3 Float} {S : ℝ} {p : Axis → ℝ} (hv : v.Tracks S l p)
    (hfew : imageUnits k l ≤ fewUnits) (hproduct : Fits (A * S)) (hsum : Fits (A * S + B)) :
    (m.applyPoint v).Tracks (A * S + B) (imageUnits k l) fun a => f a * p a + t a := by
  unfold imageUnits at hfew ⊢
  have hone : Fits (1 : ℝ) := fits_of_one_le le_rfl (by norm_num)
  have hw : Within 1 (k + 1) (m.row3.xyz.dot v + m.row3.w) 1 :=
    (vanishes_sum (g := fun c => m.entry none (some c) * v.get c)
      fun c => (hm.last c).mul_right (hv c).finite).add_within hm.corner hone (by omega)
  -- It is not zero, so that the image is divided by it.
  have hsame : Scalar.same (m.row3.xyz.dot v + m.row3.w) 0 = false := by
    have hpos : 0 < value (m.row3.xyz.dot v + m.row3.w) := by
      have hsmall : ((k + 1 : Nat) : ℝ) * ulp ≤ 1 / 2 := (units_mul_ulp_le (by omega)).trans (by norm_num)
      have := (abs_le.mp hw.near).1
      linarith
    unfold Scalar.same
    rw [Bool.and_eq_false_iff]
    refine .inl (decide_eq_false fun hle => ?_)
    have := (value_le_iff hw.finite vanishes_zero.finite).mp hle
    rw [vanishes_zero.zero] at this
    linarith
  have himage (a : Axis) : Within (A * S + B) (2 * k + l + 5)
      ((m.linear.apply v + ⟨m.row0.w, m.row1.w, m.row2.w⟩ : Vec3 Float).get a) (f a * p a + t a) := by
    have hterm := within_sum (g := fun c => m.entry (some a) (some c) * v.get c) a
      ((hm.factor a).mul (hv a) hproduct (by omega)) (fun c hc => (hm.elsewhere a c hc).mul_right (hv c).finite) hproduct (by omega)
    rw [get_linear]
    exact (hterm.add (hm.offset a) hsum (by omega)).mono le_rfl (by omega)
  intro a
  unfold applyPoint
  dsimp only
  rw [hsame, if_neg (by decide), Vec3.get_div]
  have h := ((himage a).div hw one_pos (by rw [mul_one]) hsum (by omega)).mono (l := 3 * k + l + 10) le_rfl (by omega)
  rwa [div_one] at h

/-! ## Scaling about a point -/

theorem scales_translation {v : Vec3 Float} (hv : v.Tracks B k t) : (translation v).Scales 1 B k (fun _ => 1) t := by
  refine ⟨fun a => ?_, fun a => ?_, fun a b hne => ?_, fun a => ?_, within_one.mono le_rfl (Nat.zero_le k)⟩
  · cases a <;> exact within_one.mono le_rfl (Nat.zero_le k)
  · cases a
    · exact hv .x
    · exact hv .y
    · exact hv .z
  · cases a <;> cases b <;> first | exact absurd rfl hne | exact vanishes_zero
  · cases a <;> exact vanishes_zero

theorem scales_scaling {v : Vec3 Float} (hv : v.Tracks A k f) (hB : 0 ≤ B) : (scaling v).Scales A B k f fun _ => 0 := by
  refine ⟨fun a => ?_, fun a => ?_, fun a b hne => ?_, fun a => ?_, within_one.mono le_rfl (Nat.zero_le k)⟩
  · cases a
    · exact hv .x
    · exact hv .y
    · exact hv .z
  · cases a <;> exact vanishes_zero.within.mono hB le_rfl
  · cases a <;> cases b <;> first | exact absurd rfl hne | exact vanishes_zero
  · cases a <;> exact vanishes_zero

end Matrix4

/-- Bounds of factors and of coordinates that leave room for their products. -/
structure Scope (G L : ℝ) : Prop where
  factor : 1 ≤ G
  least : binade (-20) ≤ L
  most : G * L ≤ binade 1000

namespace Scope

variable {G L a : ℝ} (h : Scope G L)

include h

theorem size_ge : 1 / 2 ^ 20 ≤ L := by
  have hleast := h.least
  rw [binade_eq] at hleast
  exact le_of_eq_of_le (by norm_num) hleast

theorem pos : 0 < L := lt_of_lt_of_le (by norm_num) h.size_ge

theorem le_product : L ≤ G * L := le_mul_of_one_le_left h.pos.le h.factor

theorem factor_le : G ≤ 2 ^ 20 * (G * L) := by
  have hone : 1 ≤ 2 ^ 20 * L := by
    have hleast := h.size_ge
    rwa [div_le_iff₀' (by norm_num)] at hleast
  rw [mul_left_comm]
  exact le_mul_of_one_le_right (zero_le_one.trans h.factor) hone

theorem fits (hlow : 1 / 2 ^ 20 ≤ a) (hhigh : a ≤ 2 ^ 21 * (G * L)) : Fits a := by
  have hmost := h.most
  rw [binade_eq] at hmost
  refine fits_of_le (n := 1021) ?_ ?_ (by decide)
  · refine le_trans ?_ hlow
    calc (2 : ℝ) ^ (-1000 : ℤ)
      _ ≤ 2 ^ (-20 : ℤ) := zpow_le_zpow_right₀ one_le_two (by decide)
      _ = 1 / 2 ^ 20 := by norm_num
  · calc a
      _ ≤ 2 ^ 21 * (G * L) := hhigh
      _ ≤ 2 ^ (21 : ℤ) * 2 ^ (1000 : ℤ) := by
        rw [show (2 : ℝ) ^ (21 : ℤ) = 2 ^ 21 by norm_num]
        gcongr
      _ = 2 ^ (1021 : ℤ) := (zpow_add₀ two_ne_zero _ _).symm

theorem roomy (hlow : L ≤ a) (hhigh : a ≤ 4 * (G * L)) : Roomy a := by
  have hleast := h.least
  have hmost := h.most
  unfold Roomy reach
  rw [binade_eq] at hleast hmost
  rw [binade_eq, binade_eq, binade_eq]
  constructor
  · calc (2 : ℝ) ^ (-1000 : ℤ)
      _ ≤ 2 ^ (-20 : ℤ) := zpow_le_zpow_right₀ one_le_two (by decide)
      _ ≤ a := hleast.trans hlow
  · calc 2 ^ (10 : ℤ) * a
      _ ≤ 2 ^ (10 : ℤ) * (2 ^ (2 : ℤ) * 2 ^ (1000 : ℤ)) := by
        gcongr
        refine hhigh.trans ?_
        rw [show (2 : ℝ) ^ (2 : ℤ) = 4 by norm_num]
        gcongr
      _ = 2 ^ (1012 : ℤ) := by
        rw [← zpow_add₀ two_ne_zero, ← zpow_add₀ two_ne_zero]
        rfl
      _ ≤ 2 ^ (1023 : ℤ) := zpow_le_zpow_right₀ one_le_two (by decide)

end Scope

def scaledUnits : Nat := 80

/-- A point scaled along each axis, then moved. -/
def placed (f t p : Axis → ℝ) (a : Axis) : ℝ := p a * f a + t a

theorem placed_one (t p : Axis → ℝ) : placed 1 t p = p + t := by
  funext a
  exact congrArg (· + _) (mul_one _)

/-- How far scaling about a point moves the origin. -/
def pivotShift (f pivot : Axis → ℝ) (a : Axis) : ℝ := pivot a - pivot a * f a

theorem tracks_applyPoint_about [Trigonometry] {G L : ℝ} (hscope : Scope G L) {factor pivot v : Vec3 Float}
    {f c p : Axis → ℝ}
    (hfactor : factor.Tracks G 0 f) (hpivot : pivot.Tracks L 0 c) (hv : v.Tracks (3 * L) 0 p) :
    ((Matrix4.about pivot (Matrix4.scaling factor)).applyPoint v).Tracks (6 * (G * L)) scaledUnits
      (placed f (pivotShift f c) p) := by
  have hleast := hscope.size_ge
  have hone := hscope.factor
  have hproduct := hscope.le_product
  have hfactor_le := hscope.factor_le
  have hfirst := (Matrix4.scales_translation hpivot).mul (Matrix4.scales_scaling hfactor (B := L) (by linarith))
    (by decide)
    (hscope.fits (by linarith) (by linarith)) (hscope.fits (by linarith) (by linarith))
    (hscope.fits (by linarith) (by linarith)) (hscope.fits (by linarith) (by linarith))
  have hmatrix := hfirst.mul (Matrix4.scales_translation hpivot.neg) (by decide)
    (hscope.fits (by linarith) (by linarith)) (hscope.fits (by linarith) (by linarith))
    (hscope.fits (by linarith) (by linarith)) (hscope.fits (by linarith) (by linarith))
  have h := (hmatrix.tracks_applyPoint hv (by decide) (hscope.fits (by linarith) (by linarith))
    (hscope.fits (by linarith) (by linarith))).mono (b := 6 * (G * L)) (l := scaledUnits) (by linarith) (by decide)
  have himage : (fun a => 1 * (f a * 1) * p a + ((-c) a * (f a * 1) + 1 * (0 * 1 + 1 * c a))) =
      placed f (pivotShift f c) p := by
    funext a
    unfold placed pivotShift
    rw [Pi.neg_apply]
    ring
  rwa [himage] at h

end SolidScript

import SolidScript.Proofs.Angles
import SolidScript.Shape.Primitive

/-!
# Outlines of primitives

Each primitive has an outline of exact points. The vertices of its mesh are these points up to rounding, and every point
has a vertex next to it. The tip of a cone stands for all points around a top that is too narrow.
-/

namespace SolidScript

open Binary64

/-! ## Sets of points -/

/-- Each point of either set is next to one of the other. -/
def Close (slack : ℝ) (s t : Set (Axis → ℝ)) : Prop :=
  (∀ p ∈ s, ∃ q ∈ t, ∀ a, |p a - q a| ≤ slack) ∧ ∀ q ∈ t, ∃ p ∈ s, ∀ a, |p a - q a| ≤ slack

namespace Close

variable {c d g : ℝ} {s t u : Set (Axis → ℝ)}

theorem symm (h : Close c s t) : Close c t s := by
  refine ⟨fun p hp => ?_, fun q hq => ?_⟩
  · obtain ⟨q, hq, hnear⟩ := h.2 p hp
    exact ⟨q, hq, fun a => by rw [abs_sub_comm]; exact hnear a⟩
  · obtain ⟨p, hp, hnear⟩ := h.1 q hq
    exact ⟨p, hp, fun a => by rw [abs_sub_comm]; exact hnear a⟩

theorem trans (h : Close c s t) (h' : Close d t u) : Close (c + d) s u := by
  refine ⟨fun p hp => ?_, fun r hr => ?_⟩
  · obtain ⟨q, hq, hnear⟩ := h.1 p hp
    obtain ⟨r, hr, hnear'⟩ := h'.1 q hq
    exact ⟨r, hr, fun a => (abs_sub_le _ _ _).trans (add_le_add (hnear a) (hnear' a))⟩
  · obtain ⟨q, hq, hnear'⟩ := h'.2 r hr
    obtain ⟨p, hp, hnear⟩ := h.2 q hq
    exact ⟨p, hp, fun a => (abs_sub_le _ _ _).trans (add_le_add (hnear a) (hnear' a))⟩

theorem mono (h : Close c s t) (hcd : c ≤ d) : Close d s t := by
  refine ⟨fun p hp => ?_, fun q hq => ?_⟩
  · obtain ⟨q, hq, hnear⟩ := h.1 p hp
    exact ⟨q, hq, fun a => (hnear a).trans hcd⟩
  · obtain ⟨p, hp, hnear⟩ := h.2 q hq
    exact ⟨p, hp, fun a => (hnear a).trans hcd⟩

theorem images {f k : (Axis → ℝ) → Axis → ℝ} (hf : ∀ p q a, |f p a - k q a| ≤ g * |p a - q a| + d) (hg : 0 ≤ g)
    (h : Close c s t) : Close (g * c + d) (f '' s) (k '' t) := by
  have hle (p q : Axis → ℝ) (hnear : ∀ a, |p a - q a| ≤ c) (a : Axis) : |f p a - k q a| ≤ g * c + d :=
    (hf p q a).trans (add_le_add_left (mul_le_mul_of_nonneg_left (hnear a) hg) d)
  constructor
  · rintro _ ⟨p, hp, rfl⟩
    obtain ⟨q, hq, hnear⟩ := h.1 p hp
    exact ⟨k q, ⟨q, hq, rfl⟩, hle p q hnear⟩
  · rintro _ ⟨q, hq, rfl⟩
    obtain ⟨p, hp, hnear⟩ := h.2 q hq
    exact ⟨f p, ⟨p, hp, rfl⟩, hle p q hnear⟩

theorem of_images {ι : Type} {i : Set ι} {f k : ι → Axis → ℝ} (h : ∀ e ∈ i, ∀ a, |f e a - k e a| ≤ c) :
    Close c (f '' i) (k '' i) := by
  constructor
  · rintro _ ⟨e, he, rfl⟩
    exact ⟨k e, ⟨e, he, rfl⟩, h e he⟩
  · rintro _ ⟨e, he, rfl⟩
    exact ⟨f e, ⟨e, he, rfl⟩, h e he⟩

end Close

/-! ## Outlines -/

noncomputable def rimPoint (n : Nat) (radius height : ℝ) (j : Nat) : Axis → ℝ :=
  (⟨radius * Real.cos (Trigonometry.turn * j / n), height, radius * Real.sin (Trigonometry.turn * j / n)⟩ : Vec3 ℝ).get

/-- Circles around an axis through a center. Each goes through a point of a meridian, which is given by its distance from
the axis and its height. -/
def revolved (c : Axis → ℝ) (n : Nat) (meridian : Set (ℝ × ℝ)) : Set (Axis → ℝ) :=
  {p | ∃ m ∈ meridian, ∃ j < n, p = c + rimPoint n m.1 m.2 j}

/-- Middle and edge of the bottom, then of the top. -/
def frustumMeridian (bottom top half : ℝ) : Set (ℝ × ℝ) := {(0, -half), (bottom, -half), (0, half), (top, half)}

noncomputable def sphereMeridian (radius : ℝ) (rings : Nat) : Set (ℝ × ℝ) :=
  {m | ∃ i ≤ rings, m = (radius * Real.sin (Real.pi * i / rings), radius * Real.cos (Real.pi * i / rings))}

namespace Primitive

noncomputable def outline : Primitive ℝ → Set (Axis → ℝ)
  | box size center => {p | ∀ a, |p a - center.get a| = |size.get a| / (2 : Nat)}
  | cylinder radius height center segments =>
    revolved center.get (max segments Round.minSegments) (frustumMeridian |radius| |radius| (|height| / (2 : Nat)))
  | sphere radius center segments rings =>
    revolved center.get (max segments Round.minSegments) (sphereMeridian |radius| (max rings Round.minRings))
  | cone radius radiusTop height center segments =>
    revolved center.get (max segments Round.minSegments) (frustumMeridian |radius| |radiusTop| (|height| / (2 : Nat)))

end Primitive

/-! ## Vertices -/

attribute [local instance] Trigonometry.scalar

noncomputable def Vec3.position (v : Vec3 Float) (a : Axis) : ℝ := value (v.get a)

def positions (vertices : List (Vec3 Float)) : Set (Axis → ℝ) := Vec3.position '' {v | v ∈ vertices}

def Vec3.Tracks (size : ℝ) (units : Nat) (v : Vec3 Float) (p : Axis → ℝ) : Prop :=
  ∀ a, Within size units (v.get a) (p a)

/-- Sizes with room for sums. -/
def Roomy (size : ℝ) : Prop := binade (-1000) ≤ size ∧ binade 10 * size ≤ reach

variable {size a b r s : ℝ} {k l : Nat} {v w : Vec3 Float} {p q : Axis → ℝ}

theorem Roomy.fits (h : Roomy size) (hlow : size ≤ a) (hhigh : a ≤ 64 * size) : Fits a := by
  obtain ⟨hleast, hend⟩ := h
  refine ⟨hleast.trans hlow, ?_⟩
  have hpos : 0 < size := (zpow_pos (by norm_num) _).trans_le (binade_eq _ ▸ hleast)
  rw [binade_eq] at hend
  norm_num at hend
  linarith

namespace Vec3.Tracks

theorem mono (h : v.Tracks a k p) (hab : a ≤ b) (hkl : k ≤ l) : v.Tracks b l p := fun axis => (h axis).mono hab hkl

variable [Trigonometry]

theorem add (hv : v.Tracks a k p) (hw : w.Tracks b l q) (hfits : Fits (a + b)) (hkl : k + l ≤ fewUnits) :
    (v + w).Tracks (a + b) (k + l + 1) (p + q) := by
  intro axis
  rw [get_add]
  exact (hv axis).add (hw axis) hfits hkl

theorem sub (hv : v.Tracks a k p) (hw : w.Tracks b l q) (hfits : Fits (a + b)) (hkl : k + l ≤ fewUnits) :
    (v - w).Tracks (a + b) (k + l + 1) (p - q) := by
  intro axis
  rw [get_sub]
  exact (hv axis).sub (hw axis) hfits hkl

theorem neg (hv : v.Tracks a k p) : (-v).Tracks a k (-p) := by
  intro axis
  rw [get_neg]
  exact (hv axis).neg

end Vec3.Tracks

/-- Units by which the sizes of a record may be off. -/
def recordUnits : Nat := 8

/-- Units by which the vertices of a record are off. -/
def drawnUnits : Nat := 600

/-- How far the points of an outline are from the vertices. -/
noncomputable def outlineSlack (size : ℝ) : ℝ := binade (-41) * size + binade (-52)

/-- Vertices around a center that follow offsets. -/
structure Draws (size : ℝ) (vertices : List (Vec3 Float)) (outline : Set (Axis → ℝ)) : Prop where
  on : ∀ v ∈ vertices, ∃ p ∈ outline, v.Tracks (size + size) drawnUnits p
  covers : ∀ p ∈ outline, ∃ v ∈ vertices, ∀ a, |v.position a - p a| ≤ outlineSlack size

theorem Vec3.Tracks.near (h : v.Tracks (size + size) drawnUnits p) (a : Axis) :
    |v.position a - p a| ≤ outlineSlack size := by
  have hsize := (h a).nonneg
  refine (h a).near.trans ?_
  unfold drawnUnits outlineSlack
  rw [ulp_eq, binade_eq, binade_eq]
  norm_num
  linarith

variable {center : Vec3 Float} {c : Axis → ℝ} {x h : Float} {radius height : ℝ} {j n : Nat}

theorem rimPoint_neg_height : -rimPoint n 0 height 0 = rimPoint n 0 (-height) 0 := by
  funext a
  cases a with
  | x | z => simp [rimPoint, Vec3.get]
  | y => rfl

theorem rimPoint_near_axis (a : Axis) : |rimPoint n 0 height 0 a - rimPoint n |radius| height j a| ≤ |radius| := by
  have hle {t : ℝ} (ht : |t| ≤ 1) : |0 - (|radius| * t)| ≤ |radius| := by
    rw [zero_sub, abs_neg, abs_mul, abs_abs]
    exact mul_le_of_le_one_right (abs_nonneg _) ht
  cases a with
  | x =>
    simp only [rimPoint, Vec3.get, zero_mul]
    exact hle (Real.abs_cos_le_one _)
  | y =>
    simp only [rimPoint, Vec3.get, sub_self, abs_zero]
    exact abs_nonneg _
  | z =>
    simp only [rimPoint, Vec3.get, zero_mul]
    exact hle (Real.abs_sin_le_one _)

theorem sphereMeridian_eq {m : Nat} (hm : 1 ≤ m) : sphereMeridian radius m =
    {(0, radius)} ∪ (fun i : Nat => (radius * Real.sin (Real.pi * (i + 1 : Nat) / m),
      radius * Real.cos (Real.pi * (i + 1 : Nat) / m))) ''
      {i | i ∈ List.range (m - 1)} ∪ {(0, -radius)} := by
  have hm' : (m : ℝ) ≠ 0 := by exact_mod_cast (Nat.one_le_iff_ne_zero.mp hm)
  have hfirst : (radius * Real.sin (Real.pi * (0 : Nat) / m), radius * Real.cos (Real.pi * (0 : Nat) / m)) =
    (0, radius) := by
    rw [Nat.cast_zero, mul_zero, zero_div, Real.sin_zero, Real.cos_zero, mul_zero, mul_one]
  have hlast : (radius * Real.sin (Real.pi * m / m), radius * Real.cos (Real.pi * m / m)) = (0, -radius) := by
    rw [mul_div_cancel_right₀ _ hm', Real.sin_pi, Real.cos_pi, mul_zero, mul_neg_one]
  ext q
  constructor
  · rintro ⟨i, hi, rfl⟩
    -- The first point is one pole, the last point the other one.
    rcases Nat.eq_zero_or_pos i with rfl | hpos
    · exact .inl (.inl hfirst)
    · rcases hi.eq_or_lt with rfl | hlt
      · exact .inr hlast
      · refine .inl (.inr ⟨i - 1, List.mem_range.mpr (by omega), ?_⟩)
        dsimp only
        rw [Nat.sub_add_cancel hpos]
  · rintro ((rfl | ⟨i, hi, rfl⟩) | rfl)
    · exact ⟨0, Nat.zero_le m, hfirst.symm⟩
    · have hi := List.mem_range.mp hi
      exact ⟨i + 1, by omega, rfl⟩
    · exact ⟨m, le_rfl, hlast.symm⟩

namespace Draws

theorem close {vertices : List (Vec3 Float)} {outline : Set (Axis → ℝ)} (h : Draws size vertices outline) :
    Close (outlineSlack size) (positions vertices) outline := by
  constructor
  · rintro _ ⟨v, hv, rfl⟩
    obtain ⟨p, hp, htracks⟩ := h.on v hv
    exact ⟨p, hp, htracks.near⟩
  · intro p hp
    obtain ⟨v, hv, hnear⟩ := h.covers p hp
    exact ⟨v.position, ⟨v, hv, rfl⟩, hnear⟩

variable {vs ws : List (Vec3 Float)} {s t : Set (ℝ × ℝ)}

theorem append (h : Draws size vs (revolved c n s)) (h' : Draws size ws (revolved c n t)) :
    Draws size (vs ++ ws) (revolved c n (s ∪ t)) := by
  constructor
  · intro v hv
    rcases List.mem_append.mp hv with hv | hv
    · obtain ⟨p, ⟨m, hm, hp⟩, htracks⟩ := h.on v hv
      exact ⟨p, ⟨m, .inl hm, hp⟩, htracks⟩
    · obtain ⟨p, ⟨m, hm, hp⟩, htracks⟩ := h'.on v hv
      exact ⟨p, ⟨m, .inr hm, hp⟩, htracks⟩
  · rintro p ⟨m, hm | hm, hp⟩
    · obtain ⟨v, hv, hnear⟩ := h.covers p ⟨m, hm, hp⟩
      exact ⟨v, List.mem_append_left _ hv, hnear⟩
    · obtain ⟨v, hv, hnear⟩ := h'.covers p ⟨m, hm, hp⟩
      exact ⟨v, List.mem_append_right _ hv, hnear⟩

theorem flatMap {l : List Nat} {f : Nat → List (Vec3 Float)} {g : Nat → ℝ × ℝ}
    (h : ∀ i ∈ l, Draws size (f i) (revolved c n {g i})) :
      Draws size (l.flatMap f) (revolved c n (g '' {i | i ∈ l})) := by
  constructor
  · intro v hv
    obtain ⟨i, hi, hv⟩ := List.mem_flatMap.mp hv
    obtain ⟨p, ⟨m, rfl, hp⟩, htracks⟩ := (h i hi).on v hv
    exact ⟨p, ⟨_, ⟨i, hi, rfl⟩, hp⟩, htracks⟩
  · rintro p ⟨_, ⟨i, hi, rfl⟩, hp⟩
    obtain ⟨v, hv, hnear⟩ := (h i hi).covers p ⟨_, rfl, hp⟩
    exact ⟨v, List.mem_flatMap_of_mem hi hv, hnear⟩

theorem rim {f : Nat → Vec3 Float}
    (h : ∀ j < n, (f j).Tracks (size + size) drawnUnits (c + rimPoint n radius height j)) :
    Draws size ((List.range n).map f) (revolved c n {(radius, height)}) := by
  constructor
  · intro v hv
    obtain ⟨j, hj, rfl⟩ := List.mem_map.mp hv
    have hj := List.mem_range.mp hj
    exact ⟨_, ⟨_, rfl, j, hj, rfl⟩, h j hj⟩
  · rintro _ ⟨_, rfl, j, hj, rfl⟩
    exact ⟨f j, List.mem_map_of_mem (List.mem_range.mpr hj), (h j hj).near⟩

theorem hub (hn : 0 < n) (h : v.Tracks (size + size) drawnUnits (c + rimPoint n 0 height 0)) :
    Draws size [v] (revolved c n {(0, height)}) := by
  have hsame (j : Nat) : rimPoint n 0 height j = rimPoint n 0 height 0 := by
    unfold rimPoint
    rw [zero_mul, zero_mul, zero_mul, zero_mul]
  constructor
  · rintro w hw
    rw [List.mem_singleton.mp hw]
    exact ⟨_, ⟨_, rfl, 0, hn, rfl⟩, h⟩
  · rintro _ ⟨_, rfl, j, hj, rfl⟩
    refine ⟨v, List.mem_singleton_self v, ?_⟩
    rw [hsame]
    exact h.near

end Draws

section

variable [Trigonometry]

/-! ## Rims -/

theorem tracks_offset (hsize : Roomy size) (hcenter : center.Tracks size recordUnits c) (hv : v.Tracks size 550 p) :
    (center + v).Tracks (size + size) drawnUnits (c + p) :=
  have hpos := (hcenter .x).nonneg
  (hcenter.add hv (hsize.fits (by linarith) (by linarith)) (by decide)).mono le_rfl (by decide)

theorem tracks_onCircle (haccurate : Trigonometry.Accurate) (hsize : Roomy size)
    (hcenter : center.Tracks size recordUnits c)
    (hradius : Within size recordUnits x radius) (hheight : Within size 16 h height) (hn : 0 < n) (hend : n < 2 ^ 53)
    (hj : j < n) :
    (Round.onCircle center x h (Round.stepAngle j n)).Tracks (size + size) drawnUnits (c + rimPoint n radius height j) := by
  refine tracks_offset hsize hcenter fun axis => ?_
  have hpos := hradius.nonneg
  have hangle := Trigonometry.within_stepAngle hn hend hj.le
  have hturn := Trigonometry.abs_step_le hn hj.le
  have hfits : Fits (size * 1) := hsize.fits (by linarith) (by linarith)
  cases axis with
  | x => exact (hradius.mul (haccurate.within_cos hangle hturn) hfits (by decide)).mono (by linarith) (by decide)
  | y => exact hheight.mono le_rfl (by decide)
  | z => exact (hradius.mul (haccurate.within_sin hangle hturn) hfits (by decide)).mono (by linarith) (by decide)

theorem tracks_hub (hsize : Roomy size) (hcenter : center.Tracks size recordUnits c)
    (hheight : Within size 16 h height) :
    (center + ⟨0, h, 0⟩).Tracks (size + size) drawnUnits (c + rimPoint n 0 height j) := by
  have hpos := hheight.nonneg
  refine tracks_offset hsize hcenter fun axis => ?_
  have hzero : Within size 550 (0 : Float) 0 := vanishes_zero.within.mono hpos le_rfl
  cases axis with
  | x | z =>
    simp only [rimPoint, Vec3.get, zero_mul]
    exact hzero
  | y => exact hheight.mono le_rfl (by decide)

/-! ## Frustums -/

theorem within_half (hsize : Roomy size) (hheight : Within size recordUnits x height) :
    Within size 16 (Scalar.magnitude x / 2) (|height| / (2 : Nat)) := by
  have hpos := hheight.nonneg
  refine (hheight.abs.div (within_ofNat (n := 2) two_pos (by decide)) (by norm_num) ?_ ?_ (by decide)).mono le_rfl
    (by decide)
  · push_cast
    linarith
  · exact hsize.fits le_rfl (by linarith)

theorem value_ulpOne : (Scalar.ulpOne : Float).isFinite = true ∧ value (Scalar.ulpOne : Float) = ulp := by
  have hunpack : (Float.ofBits 0x3CB0000000000000).toModel.unpack = .finite .positive (2 ^ 52) (-104) (by decide) := rfl
  show (Float.ofBits 0x3CB0000000000000).isFinite = true ∧ value (Float.ofBits 0x3CB0000000000000) = ulp
  refine ⟨by decide +kernel, ?_⟩
  rw [value_finite hunpack, ulp_eq]
  unfold signOf
  norm_num

theorem draws_apex (hsize : Roomy size) (hcenter : center.Tracks size recordUnits c) (hn : 0 < n)
    (hradius : Within size recordUnits x radius) (hheight : Within size 16 h height)
    (hnarrow : Scalar.magnitude x ≤ Scalar.ulpOne) :
    Draws size [center + ⟨0, h, 0⟩] (revolved c n ({(0, height)} ∪ {(|radius|, height)})) := by
  have htracks := tracks_hub (n := n) (j := 0) hsize hcenter hheight
  have hhub := Draws.hub hn htracks
  -- What counts as narrow is no wider than this, up to rounding.
  have hsmall : |radius| ≤ ulp + recordUnits * (ulp * size) := by
    have hvalue := (value_le_iff hradius.abs.finite value_ulpOne.1).mp hnarrow
    rw [value_ulpOne.2] at hvalue
    have := (abs_le.mp hradius.abs.near).1
    linarith
  constructor
  · intro w hw
    obtain ⟨p, ⟨m, hm, hp⟩, hw⟩ := hhub.on w hw
    exact ⟨p, ⟨m, .inl hm, hp⟩, hw⟩
  · rintro p ⟨m, hm | rfl, hp⟩
    · exact hhub.covers p ⟨m, hm, hp⟩
    · obtain ⟨j, -, rfl⟩ := hp
      refine ⟨_, List.mem_singleton_self _, fun a => ?_⟩
      calc |Vec3.position _ a - (c a + rimPoint n |radius| height j a)|
        _ ≤ |Vec3.position _ a - (c a + rimPoint n 0 height 0 a)| +
            |c a + rimPoint n 0 height 0 a - (c a + rimPoint n |radius| height j a)| := abs_sub_le _ _ _
        _ ≤ drawnUnits * (ulp * (size + size)) + |radius| := by
          rw [add_sub_add_left_eq_sub]
          exact add_le_add (htracks a).near (rimPoint_near_axis a)
        _ ≤ outlineSlack size := by
          have hpos := hheight.nonneg
          unfold outlineSlack drawnUnits recordUnits at *
          rw [ulp_eq] at hsmall ⊢
          rw [binade_eq, binade_eq]
          norm_num at hsmall ⊢
          linarith

variable {bottomRadius topRadius : Float} {bottom top : ℝ}

theorem draws_frustum (haccurate : Trigonometry.Accurate) (hsize : Roomy size)
    (hcenter : center.Tracks size recordUnits c) (hbottom : Within size recordUnits bottomRadius bottom)
    (htop : Within size recordUnits topRadius top) (hheight : Within size recordUnits x height) (segments : Nat)
    (hend : segments < 2 ^ 32) :
    Draws size (Round.frustum bottomRadius topRadius x center segments).vertices.toList
      (revolved c (max segments Round.minSegments) (frustumMeridian |bottom| |top| (|height| / (2 : Nat)))) := by
  have hn : 0 < max segments Round.minSegments := lt_max_of_lt_right (by decide)
  have hn' : max segments Round.minSegments < 2 ^ 53 := max_lt (hend.trans (by decide)) (by decide)
  have hhalf := within_half hsize hheight
  generalize |height| / (2 : Nat) = half at hhalf ⊢
  have hmeridian : frustumMeridian |bottom| |top| half =
      ({(0, -half)} ∪ {(|bottom|, -half)}) ∪ ({(0, half)} ∪ {(|top|, half)}) := by
    unfold frustumMeridian
    rw [Set.insert_eq, Set.insert_eq, Set.insert_eq, Set.union_assoc]
  rw [hmeridian]
  unfold Round.frustum Mesh.recomputeNormals Round.frustumSurface Round.circle
  dsimp only
  generalize max segments Round.minSegments = n at hn hn' ⊢
  have hbase := (Draws.hub hn (tracks_hub hsize hcenter hhalf.neg)).append
    (.rim fun j hj => tracks_onCircle haccurate hsize hcenter hbottom.abs hhalf.neg hn hn' hj)
  refine Draws.append hbase ?_
  split
  · rename_i hnarrow
    exact draws_apex hsize hcenter hn htop hhalf (of_decide_eq_true hnarrow)
  · exact (Draws.hub hn (tracks_hub hsize hcenter hhalf)).append
      (.rim fun j hj => tracks_onCircle haccurate hsize hcenter htop.abs hhalf hn hn' hj)

/-! ## Spheres -/

theorem tracks_direction (haccurate : Trigonometry.Accurate) (hsize : Roomy size)
    (hcenter : center.Tracks size recordUnits c) (hradius : Within size recordUnits x radius) {m i : Nat} (hm : 0 < m)
    (hm' : m < 2 ^ 53) (hi : i ≤ m) (hn : 0 < n) (hn' : n < 2 ^ 53) (hj : j ≤ n) :
    (center + (Round.direction (Scalar.pi * Scalar.ofNat i / Scalar.ofNat m) (Round.stepAngle j n) :
      Vec3 Float) * x).Tracks
      (size + size) drawnUnits (c + rimPoint n (radius * Real.sin (Real.pi * i / m)) (radius * Real.cos (Real.pi * i / m)) j) := by
  have hpos := hradius.nonneg
  refine tracks_offset hsize hcenter fun axis => ?_
  have hsin := haccurate.within_sin (Trigonometry.within_polar hm hm' hi) (Trigonometry.abs_polar_le hm hi)
  have hcos := haccurate.within_cos (Trigonometry.within_polar hm hm' hi) (Trigonometry.abs_polar_le hm hi)
  have hsin' := haccurate.within_sin (Trigonometry.within_stepAngle hn hn' hj) (Trigonometry.abs_step_le hn hj)
  have hcos' := haccurate.within_cos (Trigonometry.within_stepAngle hn hn' hj) (Trigonometry.abs_step_le hn hj)
  have hone : Fits ((1 : ℝ) * 1) := fits_of_one_le (by norm_num) (by norm_num)
  have hfits (a : ℝ) (ha : a = 1) : Fits (a * size) := hsize.fits (by rw [ha]; linarith) (by rw [ha]; linarith)
  cases axis with
  | x =>
    have h := ((hsin.mul hcos' hone (by decide)).mul hradius (hfits _ (one_mul 1)) (by decide)).mono (by linarith) (l := 550) (by decide)
    rwa [show Real.sin (Real.pi * i / m) * Real.cos (Trigonometry.turn * j / n) * radius =
      radius * Real.sin (Real.pi * i / m) * Real.cos (Trigonometry.turn * j / n) by ring] at h
  | y =>
    have h := (hcos.mul hradius (hfits _ rfl) (by decide)).mono (b := size) (by linarith) (l := 550) (by decide)
    rwa [mul_comm] at h
  | z =>
    have h := ((hsin.mul hsin' hone (by decide)).mul hradius (hfits _ (one_mul 1)) (by decide)).mono (by linarith) (l := 550) (by decide)
    rwa [show Real.sin (Real.pi * i / m) * Real.sin (Trigonometry.turn * j / n) * radius =
      radius * Real.sin (Real.pi * i / m) * Real.sin (Trigonometry.turn * j / n) by ring] at h

theorem draws_sphere (haccurate : Trigonometry.Accurate) (hsize : Roomy size)
    (hcenter : center.Tracks size recordUnits c)
    (hradius : Within size recordUnits x radius) {segments rings : Nat} (hend : segments < 2 ^ 32)
    (hend' : rings < 2 ^ 32) :
    Draws size (Round.sphere x center segments rings).vertices.toList
      (revolved c (max segments Round.minSegments) (sphereMeridian |radius| (max rings Round.minRings))) := by
  have hn : 0 < max segments Round.minSegments := lt_max_of_lt_right (by decide)
  have hn' : max segments Round.minSegments < 2 ^ 53 := max_lt (hend.trans (by decide)) (by decide)
  have hm : 0 < max rings Round.minRings := lt_max_of_lt_right (by decide)
  have hm' : max rings Round.minRings < 2 ^ 53 := max_lt (hend'.trans (by decide)) (by decide)
  have hpos := hradius.nonneg
  have hradius := hradius.abs
  unfold Round.sphere Round.sphereDirections
  dsimp only
  rw [sphereMeridian_eq hm, List.map_flatMap, ← List.singleton_append]
  generalize max segments Round.minSegments = n at hn hn' ⊢
  generalize max rings Round.minRings = m at hm hm' ⊢
  have hpole : ((Vec3.unitY : Vec3 Float) * Scalar.magnitude x).Tracks size 550 (rimPoint n 0 |radius| 0) := by
    intro axis
    cases axis with
    | x | z =>
      simp only [rimPoint, Vec3.get, zero_mul]
      exact (vanishes_zero.mul_right hradius.finite).within.mono hpos le_rfl
    | y =>
      have h := (within_one.mul hradius (hsize.fits (by linarith) (by linarith)) (by decide)).mono
        (b := size) (l := 550)
        (by linarith) (by decide)
      rwa [one_mul] at h
  refine .append (.append ?_ (.flatMap fun i hi => ?_)) ?_
  · exact .hub hn (tracks_offset hsize hcenter hpole)
  · rw [List.map_map]
    have hi := List.mem_range.mp hi
    exact .rim fun j hj => tracks_direction haccurate hsize hcenter hradius hm hm' (by omega) hn hn' hj.le
  · have hbelow : c - rimPoint n 0 |radius| 0 = c + rimPoint n 0 (-|radius|) 0 := by
      rw [sub_eq_add_neg, rimPoint_neg_height]
    refine .hub hn ?_
    rw [← hbelow]
    exact (hcenter.sub hpole (hsize.fits (by linarith) (by linarith)) (by decide)).mono le_rfl (by decide)

/-! ## Boxes -/

theorem within_boxSign {s : Vec3 Float} (hs : s ∈ (Primitive.boxSigns : List (Vec3 Float))) (a : Axis) :
    Within 1 0 (s.get a) (value (s.get a)) ∧ |value (s.get a)| = 1 := by
  have hsign : s.get a = 1 ∨ s.get a = -1 := by
    simp only [Primitive.boxSigns, List.mem_cons, List.not_mem_nil, or_false] at hs
    rcases hs with rfl | rfl | rfl | rfl | rfl | rfl | rfl | rfl <;> cases a <;> first | exact .inl rfl | exact .inr rfl
  rcases hsign with h | h
  · rw [h, value_one, abs_one]
    exact ⟨within_one, rfl⟩
  · rw [h, (value_neg rfl).2, value_one, abs_neg, abs_one]
    exact ⟨within_one.neg, rfl⟩

theorem exists_boxSign (below : Axis → Bool) :
    ∃ s ∈ (Primitive.boxSigns : List (Vec3 Float)), ∀ a, value (s.get a) = if below a then -1 else 1 := by
  refine ⟨⟨if below .x then -1 else 1, if below .y then -1 else 1, if below .z then -1 else 1⟩, ?_, fun a => ?_⟩
  · cases below .x <;> cases below .y <;> cases below .z <;> simp [Primitive.boxSigns]
  · have hsign (b : Bool) : value (if b then -1 else 1) = if b then -1 else 1 := by
      cases b
      · exact value_one
      · exact (value_neg rfl).2.trans (congrArg _ value_one)
    cases a
    · exact hsign _
    · exact hsign _
    · exact hsign _

theorem tracks_corner (hsize : Roomy size) (hcenter : center.Tracks size recordUnits c) {sides : Vec3 Float}
    {d : Vec3 ℝ}
    (hsides : sides.Tracks size recordUnits d.get) {s : Vec3 Float}
    (hs : s ∈ (Primitive.boxSigns : List (Vec3 Float))) :
    (center + Vec3.zipWith (· * ·) s (BoxFrame.half sides)).Tracks (size + size) drawnUnits
      (fun a => c a + value (s.get a) * (|d.get a| / (2 : Nat))) := by
  have hpos := (hcenter .x).nonneg
  refine tracks_offset hsize hcenter (p := fun a => value (s.get a) * (|d.get a| / (2 : Nat))) fun axis => ?_
  unfold BoxFrame.half
  rw [Vec3.get_zipWith, Vec3.get_div, Vec3.get_map]
  exact ((within_boxSign hs axis).1.mul (within_half hsize (hsides axis)) (hsize.fits (by linarith) (by linarith))
    (by decide)).mono (by linarith) (by decide)

theorem draws_box (hsize : Roomy size) (hcenter : center.Tracks size recordUnits c) {sides : Vec3 Float} {d : Vec3 ℝ}
    (hsides : sides.Tracks size recordUnits d.get) :
    Draws size (Primitive.boxMesh sides center).vertices.toList {p | ∀ a, |p a - c a| = |d.get a| / (2 : Nat)} := by
  constructor
  · intro v hv
    obtain ⟨s, hs, rfl⟩ := List.mem_map.mp hv
    refine ⟨_, fun a => ?_, tracks_corner hsize hcenter hsides hs⟩
    rw [add_sub_cancel_left, abs_mul, (within_boxSign hs a).2, one_mul]
    exact abs_of_nonneg (by positivity)
  · intro p hp
    -- A point of the outline is at the corner on its side of the middle along each axis.
    obtain ⟨s, hs, hsign⟩ := exists_boxSign fun a => decide (p a < c a)
    refine ⟨_, List.mem_map_of_mem hs, fun a => ?_⟩
    have hp : p a = c a + value (s.get a) * (|d.get a| / (2 : Nat)) := by
      rw [hsign, ← hp a]
      by_cases hbelow : p a < c a
      · rw [if_pos (decide_eq_true hbelow), abs_of_neg (sub_neg.mpr hbelow)]
        ring
      · rw [if_neg (by simpa using hbelow), abs_of_nonneg (sub_nonneg.mpr (not_lt.mp hbelow))]
        ring
    rw [hp]
    exact (tracks_corner hsize hcenter hsides hs).near a

/-! ## Records -/

/-- A record that is near an exact one of the same kind, with the same counts. -/
inductive Primitive.Tracks (size : ℝ) : Primitive Float → Primitive ℝ → Prop
  | box {sides center : Vec3 Float} {d c : Vec3 ℝ} (hsides : sides.Tracks size recordUnits d.get)
    (hcenter : center.Tracks size recordUnits c.get) : Tracks size (.box sides center) (.box d c)
  | cylinder {radius height : Float} {r h : ℝ} {center : Vec3 Float} {c : Vec3 ℝ} {segments : Nat}
    (hradius : Within size recordUnits radius r) (hheight : Within size recordUnits height h)
    (hcenter : center.Tracks size recordUnits c.get) (hsegments : segments < 2 ^ 32) :
    Tracks size (.cylinder radius height center segments) (.cylinder r h c segments)
  | sphere {radius : Float} {r : ℝ} {center : Vec3 Float} {c : Vec3 ℝ} {segments rings : Nat}
    (hradius : Within size recordUnits radius r) (hcenter : center.Tracks size recordUnits c.get)
    (hsegments : segments < 2 ^ 32) (hrings : rings < 2 ^ 32) :
    Tracks size (.sphere radius center segments rings) (.sphere r c segments rings)
  | cone {radius radiusTop height : Float} {r t h : ℝ} {center : Vec3 Float} {c : Vec3 ℝ} {segments : Nat}
    (hradius : Within size recordUnits radius r) (htop : Within size recordUnits radiusTop t)
    (hheight : Within size recordUnits height h) (hcenter : center.Tracks size recordUnits c.get)
    (hsegments : segments < 2 ^ 32) :
    Tracks size (.cone radius radiusTop height center segments) (.cone r t h c segments)

omit [Trigonometry] in
theorem Primitive.Tracks.tracks_center {p : Primitive Float} {e : Primitive ℝ} (h : p.Tracks size e) :
    p.center.Tracks size recordUnits e.center.get := by
  cases h <;> assumption

/-- The mesh of a record draws the outline of the exact one. -/
theorem Primitive.Tracks.draws {p : Primitive Float} {e : Primitive ℝ} (h : p.Tracks size e)
    (haccurate : Trigonometry.Accurate) (hsize : Roomy size) : Draws size p.toMesh.vertices.toList e.outline := by
  cases h with
  | box hsides hcenter => exact draws_box hsize hcenter hsides
  | cylinder hradius hheight hcenter hsegments =>
    exact draws_frustum haccurate hsize hcenter hradius hradius hheight _ hsegments
  | sphere hradius hcenter hsegments hrings => exact draws_sphere haccurate hsize hcenter hradius hsegments hrings
  | cone hradius htop hheight hcenter hsegments =>
    exact draws_frustum haccurate hsize hcenter hradius htop hheight _ hsegments

end

end SolidScript

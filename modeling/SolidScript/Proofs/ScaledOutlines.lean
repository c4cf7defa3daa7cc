import SolidScript.Proofs.AffineMaps

/-!
# Outlines that are scaled

A circle in equal steps is its own mirror image in the plane through its first point and the axis, and across that plane
only if the number of steps is even. So a negative factor along the first axis turns a round outline with an odd number
of steps around, and otherwise the outline of the scaled record takes the place of the scaled outline.
-/

namespace SolidScript

open Binary64 Trigonometry

/-! ## Mirrored circles -/

section

variable {n k j : Nat}

theorem turn_mul_div (hn : 0 < n) : turn * k / n = turn * (k % n : Nat) / n + (k / n : Nat) * (2 * Real.pi) := by
  have hn' : (n : ℝ) ≠ 0 := by exact_mod_cast hn.ne'
  have hk : (k : ℝ) = (k % n : Nat) + n * (k / n : Nat) := by exact_mod_cast (Nat.mod_add_div k n).symm
  rw [turn_eq]
  conv_lhs => rw [hk]
  field_simp

theorem cos_turn_mod (hn : 0 < n) : Real.cos (turn * (k % n : Nat) / n) = Real.cos (turn * k / n) := by
  rw [turn_mul_div (k := k) hn, Real.cos_add_nat_mul_two_pi]

theorem sin_turn_mod (hn : 0 < n) : Real.sin (turn * (k % n : Nat) / n) = Real.sin (turn * k / n) := by
  rw [turn_mul_div (k := k) hn, Real.sin_add_nat_mul_two_pi]

theorem exists_turned_back (hj : j < n) : ∃ i < n, Real.cos (turn * i / n) = Real.cos (turn * j / n) ∧
    Real.sin (turn * i / n) = -Real.sin (turn * j / n) := by
  have hn : 0 < n := Nat.zero_lt_of_lt hj
  have hn' : (n : ℝ) ≠ 0 := by exact_mod_cast hn.ne'
  have hangle : turn * (n - j : Nat) / n = 2 * Real.pi - turn * j / n := by
    rw [Nat.cast_sub hj.le, turn_eq]
    field_simp
  refine ⟨(n - j) % n, Nat.mod_lt _ hn, ?_, ?_⟩
  · rw [cos_turn_mod hn, hangle, Real.cos_two_pi_sub]
  · rw [sin_turn_mod hn, hangle, Real.sin_two_pi_sub]

theorem exists_turned_half (hj : j < n) (heven : Even n) : ∃ i < n, Real.cos (turn * i / n) = -Real.cos (turn * j / n) ∧
    Real.sin (turn * i / n) = -Real.sin (turn * j / n) := by
  have hn : 0 < n := Nat.zero_lt_of_lt hj
  obtain ⟨half, rfl⟩ := heven
  have hhalf : (half : ℝ) ≠ 0 := by
    have : half ≠ 0 := by omega
    exact_mod_cast this
  have hangle : turn * (j + half : Nat) / (half + half : Nat) = turn * j / (half + half : Nat) + Real.pi := by
    push_cast
    rw [turn_eq]
    field_simp
    ring
  refine ⟨(j + half) % (half + half), Nat.mod_lt _ hn, ?_, ?_⟩
  · rw [cos_turn_mod hn, hangle, Real.cos_add_pi]
  · rw [sin_turn_mod hn, hangle, Real.sin_add_pi]

theorem exists_mirrored (hj : j < n) {e e' : ℝ} (he : e = 1 ∨ e = -1 ∧ Even n) (he' : e' = 1 ∨ e' = -1) :
    ∃ i < n, Real.cos (turn * i / n) = e * Real.cos (turn * j / n) ∧
      Real.sin (turn * i / n) = e' * Real.sin (turn * j / n) := by
  rcases he with rfl | ⟨rfl, heven⟩
  · rcases he' with rfl | rfl
    · exact ⟨j, hj, (one_mul _).symm, (one_mul _).symm⟩
    · obtain ⟨i, hi, hcos, hsin⟩ := exists_turned_back hj
      exact ⟨i, hi, by rw [hcos, one_mul], by rw [hsin, neg_one_mul]⟩
  · obtain ⟨i, hi, hcos, hsin⟩ := exists_turned_half hj heven
    rcases he' with rfl | rfl
    · obtain ⟨i', hi', hcos', hsin'⟩ := exists_turned_back hi
      exact ⟨i', hi', by rw [hcos', hcos, neg_one_mul], by rw [hsin', hsin, one_mul, neg_neg]⟩
    · exact ⟨i, hi, by rw [hcos, neg_one_mul], by rw [hsin, neg_one_mul]⟩

end

/-! ## Round outlines -/

def facing (side : ℝ) (center p : Axis → ℝ) : Axis → ℝ := Function.update p .x (center .x + side * (p .x - center .x))

variable {n : Nat} {f t d : Axis → ℝ} {g tolerance size side e e' : ℝ}

theorem rimPoint_scaled {i j : Nat} {m m' : ℝ × ℝ} (hx : f .x = side * (e * g)) (hz : |f .z - e' * g| ≤ tolerance)
    (hradius : |m.1| ≤ size) (hwide : m'.1 = m.1 * g) (hhigh : |m.2 * f .y - m'.2| ≤ tolerance * size)
    (hcos : Real.cos (turn * i / n) = e * Real.cos (turn * j / n))
    (hsin : Real.sin (turn * i / n) = e' * Real.sin (turn * j / n)) (a : Axis) :
    |placed f t (d + rimPoint n m.1 m.2 j) a -
      facing side (placed f t d) (placed f t d + rimPoint n m'.1 m'.2 i) a| ≤ tolerance * size := by
  have htolerance : 0 ≤ tolerance := (abs_nonneg _).trans hz
  cases a with
  | x =>
    have hzero : placed f t (d + rimPoint n m.1 m.2 j) .x -
        facing side (placed f t d) (placed f t d + rimPoint n m'.1 m'.2 i) .x = 0 := by
      simp only [facing, Function.update_self, placed, Pi.add_apply, rimPoint, Vec3.get]
      rw [hcos, hwide, hx]
      ring
    rw [hzero, abs_zero]
    exact mul_nonneg htolerance ((abs_nonneg _).trans hradius)
  | y =>
    have hdiff : placed f t (d + rimPoint n m.1 m.2 j) .y -
        facing side (placed f t d) (placed f t d + rimPoint n m'.1 m'.2 i) .y = m.2 * f .y - m'.2 := by
      simp only [facing, Function.update_of_ne, ne_eq, reduceCtorEq, not_false_eq_true, placed, Pi.add_apply,
        rimPoint, Vec3.get]
      ring
    rw [hdiff]
    exact hhigh
  | z =>
    have hdiff : placed f t (d + rimPoint n m.1 m.2 j) .z -
        facing side (placed f t d) (placed f t d + rimPoint n m'.1 m'.2 i) .z =
          (f .z - e' * g) * (m.1 * Real.sin (turn * j / n)) := by
      simp only [facing, Function.update_of_ne, ne_eq, reduceCtorEq, not_false_eq_true, placed, Pi.add_apply,
        rimPoint, Vec3.get]
      rw [hsin, hwide]
      ring
    rw [hdiff, abs_mul, abs_mul]
    have hle := mul_le_of_le_one_right (abs_nonneg m.1) (Real.abs_sin_le_one (turn * j / n))
    exact mul_le_mul hz (hle.trans hradius) (mul_nonneg (abs_nonneg _) (abs_nonneg _)) htolerance

theorem close_revolved (meridian : Set (ℝ × ℝ)) {u v : ℝ} (hx : f .x = side * (e * g)) (he : e = 1 ∨ e = -1 ∧ Even n)
    (hy : |f .y - u| ≤ tolerance) (hz : |f .z - v * g| ≤ tolerance) (hv : v = 1 ∨ v = -1)
    (hmeridian : ∀ m ∈ meridian, |m.1| ≤ size ∧ |m.2| ≤ size) :
    Close (tolerance * size) (placed f t '' revolved d n meridian)
      (facing side (placed f t d) '' revolved (placed f t d) n ((fun m => (m.1 * g, m.2 * u)) '' meridian)) := by
  have hhigh (m : ℝ × ℝ) (hm : m ∈ meridian) : |m.2 * f .y - m.2 * u| ≤ tolerance * size := by
    rw [← mul_sub, abs_mul, mul_comm]
    exact mul_le_mul hy (hmeridian m hm).2 (abs_nonneg _) ((abs_nonneg _).trans hy)
  constructor
  · rintro _ ⟨_, ⟨m, hm, j, hj, rfl⟩, rfl⟩
    obtain ⟨i, hi, hcos, hsin⟩ := exists_mirrored hj he hv
    exact ⟨_, ⟨_, ⟨_, ⟨m, hm, rfl⟩, i, hi, rfl⟩, rfl⟩,
      rimPoint_scaled hx hz (hmeridian m hm).1 rfl (hhigh m hm) hcos hsin⟩
  · rintro _ ⟨_, ⟨_, ⟨m, hm, rfl⟩, i, hi, rfl⟩, rfl⟩
    obtain ⟨j, hj, hcos, hsin⟩ := exists_mirrored hi he hv
    have hsquare : e * e = 1 := by rcases he with rfl | ⟨rfl, -⟩ <;> norm_num
    have hsquare' : v * v = 1 := by rcases hv with rfl | rfl <;> norm_num
    refine ⟨_, ⟨_, ⟨m, hm, j, hj, rfl⟩, rfl⟩, rimPoint_scaled hx hz (hmeridian m hm).1 rfl (hhigh m hm) ?_ ?_⟩
    · rw [hcos, ← mul_assoc, hsquare, one_mul]
    · rw [hsin, ← mul_assoc, hsquare', one_mul]

/-! ## Meridians that are scaled -/

variable {bottom top half radius w : ℝ}

theorem image_frustumMeridian (hw : w = 1 ∨ w = -1 ∧ bottom = top) (u : ℝ) :
    (fun m : ℝ × ℝ => (m.1 * g, m.2 * (w * u))) '' frustumMeridian bottom top half =
      frustumMeridian (bottom * g) (top * g) (half * u) := by
  unfold frustumMeridian
  rw [Set.image_insert_eq, Set.image_insert_eq, Set.image_insert_eq, Set.image_singleton]
  dsimp only
  rcases hw with rfl | ⟨rfl, rfl⟩
  · rw [zero_mul, one_mul, neg_mul]
  · rw [zero_mul, neg_one_mul, neg_mul_neg, mul_neg]
    ext m
    simp only [Set.mem_insert_iff, Set.mem_singleton_iff]
    tauto

theorem image_sphereMeridian {rings : Nat} (hrings : 0 < rings) (hw : w = 1 ∨ w = -1) :
    (fun m : ℝ × ℝ => (m.1 * g, m.2 * (w * g))) '' sphereMeridian radius rings = sphereMeridian (radius * g) rings := by
  have hrings' : (rings : ℝ) ≠ 0 := by exact_mod_cast hrings.ne'
  -- The point of the same circle of latitude, or of that on the other side of the equator.
  have hsame (i : Nat) (hi : i ≤ rings) : ∃ i' ≤ rings, Real.sin (Real.pi * i' / rings) =
    Real.sin (Real.pi * i / rings) ∧
      Real.cos (Real.pi * i' / rings) = w * Real.cos (Real.pi * i / rings) := by
    rcases hw with rfl | rfl
    · exact ⟨i, hi, rfl, (one_mul _).symm⟩
    · have hangle : Real.pi * (rings - i : Nat) / rings = Real.pi - Real.pi * i / rings := by
        rw [Nat.cast_sub hi]
        field_simp
      refine ⟨rings - i, Nat.sub_le _ _, ?_, ?_⟩
      · rw [hangle, Real.sin_pi_sub]
      · rw [hangle, Real.cos_pi_sub, neg_one_mul]
  have hsquare : w * w = 1 := by rcases hw with rfl | rfl <;> norm_num
  ext m
  constructor
  · rintro ⟨_, ⟨i, hi, rfl⟩, rfl⟩
    obtain ⟨i', hi', hsin, hcos⟩ := hsame i hi
    refine ⟨i', hi', Prod.ext ?_ ?_⟩
    · dsimp only
      rw [hsin]
      ring
    · dsimp only
      rw [hcos]
      ring
  · rintro ⟨i, hi, rfl⟩
    obtain ⟨i', hi', hsin, hcos⟩ := hsame i hi
    refine ⟨_, ⟨i', hi', rfl⟩, Prod.ext ?_ ?_⟩
    · dsimp only
      rw [hsin]
      ring
    · dsimp only
      rw [hcos]
      linear_combination radius * g * Real.cos (Real.pi * i / rings) * hsquare

/-! ## Records that are scaled -/

namespace Primitive

def numbers {α : Type} : Primitive α → List α
  | box size center => size.toList ++ center.toList
  | cylinder radius height center _ => radius :: height :: center.toList
  | sphere radius center _ _ => radius :: center.toList
  | cone radius radiusTop height center _ => radius :: radiusTop :: height :: center.toList

/-- A round primitive with an odd number of steps around is not its own mirror image across the first axis. -/
def isLopsided {α : Type} : Primitive α → Bool
  | box _ _ => false
  | cylinder _ _ _ segments => max segments Round.minSegments % 2 == 1
  | sphere _ _ segments _ => max segments Round.minSegments % 2 == 1
  | cone _ _ _ _ segments => max segments Round.minSegments % 2 == 1

/-- The record of a scaled primitive around its new center. -/
noncomputable def resized (f : Axis → ℝ) (center : Vec3 ℝ) : Primitive ℝ → Primitive ℝ
  | box size _ => box ⟨size.x * |f .x|, size.y * |f .y|, size.z * |f .z|⟩ center
  | cylinder radius height _ segments => cylinder (radius * |f .x|) (height * |f .y|) center segments
  | sphere radius _ segments rings => sphere (radius * |f .x|) center segments rings
  | cone radius radiusTop height _ segments => cone (radius * |f .x|) (radiusTop * |f .x|) (height * |f .y|) center segments

/-- Factors that keep the primitive of its kind, up to a tolerance. -/
def KeptBy (tolerance : ℝ) (f : Axis → ℝ) : Primitive ℝ → Prop
  | box _ _ => True
  | cylinder _ _ _ _ => |(|f .x| - |f .z|)| ≤ tolerance
  | sphere _ _ _ _ => |(|f .x| - |f .z|)| ≤ tolerance ∧ |(|f .x| - |f .y|)| ≤ tolerance
  | cone _ _ _ _ _ => |(|f .x| - |f .z|)| ≤ tolerance ∧ 0 < f .y

open Classical in
/-- The side to which a scaled primitive faces, seen from its record. -/
noncomputable def facingSide (f : Axis → ℝ) (p : Primitive ℝ) : ℝ := if p.isLopsided ∧ f .x < 0 then -1 else 1

theorem abs_facingSide_le (p : Primitive ℝ) (f : Axis → ℝ) : |p.facingSide f| ≤ 1 := by
  unfold facingSide
  split <;> norm_num

theorem exists_sign (x : ℝ) : ∃ w : ℝ, (w = 1 ∨ w = -1) ∧ x = w * |x| := by
  rcases le_total 0 x with h | h
  · exact ⟨1, .inl rfl, by rw [abs_of_nonneg h, one_mul]⟩
  · exact ⟨-1, .inr rfl, by rw [abs_of_nonpos h, neg_one_mul, neg_neg]⟩

theorem near_of_magnitudes {x w : ℝ} (hx : x = w * |x|) (hw : w = 1 ∨ w = -1) (h : |(g - |x|)| ≤ tolerance) :
    |x - w * g| ≤ tolerance := by
  have hfactor : x - w * g = -(w * (g - |x|)) := by linear_combination hx
  have habs : |w| = 1 := by rcases hw with rfl | rfl <;> norm_num
  rw [hfactor, abs_neg, abs_mul, habs, one_mul]
  exact h

theorem exists_facing {p : Primitive ℝ} (steps : Nat) (hsteps : p.isLopsided = (steps % 2 == 1)) (f : Axis → ℝ) :
    ∃ e : ℝ, (e = 1 ∨ e = -1 ∧ Even steps) ∧ f .x = p.facingSide f * (e * |f .x|) := by
  unfold facingSide
  rcases lt_or_ge (f .x) 0 with hneg | hpos
  · rw [abs_of_neg hneg]
    rcases Nat.even_or_odd steps with heven | hodd
    · have hside : ¬ (p.isLopsided = true ∧ f .x < 0) := by
        rw [hsteps, Nat.even_iff.mp heven]
        simp
      exact ⟨-1, .inr ⟨rfl, heven⟩, by rw [if_neg hside]; ring⟩
    · have hside : p.isLopsided = true ∧ f .x < 0 := by
        rw [hsteps, Nat.odd_iff.mp hodd]
        exact ⟨rfl, hneg⟩
      exact ⟨1, .inl rfl, by rw [if_pos hside]; ring⟩
  · have hside : ¬ (p.isLopsided = true ∧ f .x < 0) := fun h => absurd h.2 hpos.not_gt
    rw [abs_of_nonneg hpos]
    exact ⟨1, .inl rfl, by rw [if_neg hside]; ring⟩

theorem abs_frustumMeridian_le {m : ℝ × ℝ} (hbottom : |bottom| ≤ size) (htop : |top| ≤ size) (hhalf : |half| ≤ size)
    (hm : m ∈ frustumMeridian bottom top half) : |m.1| ≤ size ∧ |m.2| ≤ size := by
  have hzero : |(0 : ℝ)| ≤ size := by
    rw [abs_zero]
    exact (abs_nonneg _).trans hhalf
  have hhalf' : |-half| ≤ size := by rwa [abs_neg]
  rcases hm with rfl | rfl | rfl | rfl
  · exact ⟨hzero, hhalf'⟩
  · exact ⟨hbottom, hhalf'⟩
  · exact ⟨hzero, hhalf⟩
  · exact ⟨htop, hhalf⟩

theorem abs_sphereMeridian_le {m : ℝ × ℝ} {rings : Nat} (hradius : |radius| ≤ size)
    (hm : m ∈ sphereMeridian |radius| rings) :
    |m.1| ≤ size ∧ |m.2| ≤ size := by
  have hle {t : ℝ} (ht : |t| ≤ 1) : |(|radius| * t)| ≤ size := by
    rw [abs_mul, abs_abs]
    exact (mul_le_of_le_one_right (abs_nonneg _) ht).trans hradius
  obtain ⟨i, -, rfl⟩ := hm
  exact ⟨hle (Real.abs_sin_le_one _), hle (Real.abs_cos_le_one _)⟩

theorem facing_one (center p : Axis → ℝ) : facing 1 center p = p := by
  unfold facing
  rw [one_mul, add_sub_cancel, Function.update_eq_self]

variable {sides center center' : Vec3 ℝ}

theorem image_box (hf : ∀ a, f a ≠ 0) (hcenter : center'.get = placed f t center.get) :
    placed f t '' (box sides center).outline = ((box sides center).resized f center').outline := by
  have hside (a : Axis) : |(⟨sides.x * |f .x|, sides.y * |f .y|, sides.z * |f .z|⟩ : Vec3 ℝ).get a| =
    |sides.get a| * |f a| := by
    cases a <;> exact (abs_mul _ _).trans (congrArg _ (abs_abs _))
  have hdiff (p : Axis → ℝ) (a : Axis) : placed f t p a - center'.get a = (p a - center.get a) * f a := by
    rw [hcenter]
    unfold placed
    ring
  ext p
  constructor
  · rintro ⟨p, hp, rfl⟩ a
    rw [hdiff, abs_mul, hp a, hside, div_mul_eq_mul_div]
  · intro hp
    have himage : placed f t (fun a => center.get a + (p a - center'.get a) / f a) = p := by
      funext a
      have h := hdiff (fun a => center.get a + (p a - center'.get a) / f a) a
      rw [add_sub_cancel_left, div_mul_cancel₀ _ (hf a)] at h
      linarith
    refine ⟨_, fun a => ?_, himage⟩
    have hp := hp a
    rw [hside] at hp
    have hne := abs_ne_zero.mpr (hf a)
    rw [add_sub_cancel_left, abs_div, hp]
    field_simp

theorem close_frustum {height : ℝ} (hx : f .x = side * (e * |f .x|)) (he : e = 1 ∨ e = -1 ∧ Even n)
    (hy : f .y = w * |f .y|) (hw : w = 1 ∨ w = -1 ∧ |bottom| = |top|) (hround : |(|f .x| - |f .z|)| ≤ tolerance)
    (htolerance : 0 ≤ tolerance) (hbottom : |bottom| ≤ size) (htop : |top| ≤ size) (hheight : |height| ≤ size) :
    Close (tolerance * size) (placed f t '' revolved d n (frustumMeridian |bottom| |top| (|height| / (2 : Nat))))
      (facing side (placed f t d) '' revolved (placed f t d) n
        (frustumMeridian |(bottom * |f .x|)| |(top * |f .x|)| (|(height * |f .y|)| / (2 : Nat)))) := by
  have hhalf : |(|height| / (2 : Nat) : ℝ)| ≤ size := by
    rw [abs_of_nonneg (by positivity)]
    push_cast
    linarith [abs_nonneg height]
  obtain ⟨v, hv, hz⟩ := exists_sign (f .z)
  have h := close_revolved (t := t) (d := d) (u := w * |f .y|) (frustumMeridian |bottom| |top| (|height| / (2 : Nat))) hx he
    (by rw [← hy, sub_self, abs_zero]; exact htolerance) (near_of_magnitudes hz hv hround) hv
    fun m hm => abs_frustumMeridian_le (by rwa [abs_abs]) (by rwa [abs_abs]) hhalf hm
  rw [image_frustumMeridian hw] at h
  rw [abs_mul, abs_mul, abs_mul, abs_abs, abs_abs, mul_div_right_comm]
  exact h

/-- The outline of the record takes the place of the scaled outline. -/
theorem close_outline {p : Primitive ℝ} (hf : ∀ a, f a ≠ 0) (hcenter : center'.get = placed f t p.center.get)
    (hkept : p.KeptBy tolerance f) (htolerance : 0 ≤ tolerance) (hnumbers : ∀ x ∈ p.numbers, |x| ≤ size) :
    Close (tolerance * size) (placed f t '' p.outline)
      (facing (p.facingSide f) center'.get '' (p.resized f center').outline) := by
  obtain ⟨w, hw, hy⟩ := exists_sign (f .y)
  cases p with
  | box sides center =>
    have hsize : 0 ≤ size := (abs_nonneg _).trans (hnumbers sides.x List.mem_cons_self)
    have hside : (box sides center).facingSide f = 1 := if_neg fun h => nomatch h.1
    have hfacing : facing 1 center'.get = id := funext (facing_one _)
    have himage : placed f t '' (box sides center).outline = _ := image_box hf hcenter
    rw [himage, hside, hfacing, Set.image_id]
    exact ⟨fun p hp => ⟨p, hp, fun a => by rw [sub_self, abs_zero]; positivity⟩,
      fun p hp => ⟨p, hp, fun a => by rw [sub_self, abs_zero]; positivity⟩⟩
  | cylinder radius height center segments =>
    obtain ⟨e, he, hx⟩ := exists_facing (p := cylinder radius height center segments)
      (max segments Round.minSegments) rfl f
    have hr := hnumbers radius List.mem_cons_self
    have hh := hnumbers height (List.mem_cons_of_mem _ List.mem_cons_self)
    unfold resized outline
    dsimp only
    rw [hcenter]
    exact close_frustum hx he hy (hw.imp_right fun h => ⟨h, rfl⟩) hkept htolerance hr hr hh
  | cone radius radiusTop height center segments =>
    obtain ⟨e, he, hx⟩ := exists_facing (p := cone radius radiusTop height center segments)
      (max segments Round.minSegments) rfl f
    obtain ⟨hround, hup⟩ := hkept
    have hr := hnumbers radius List.mem_cons_self
    have ht := hnumbers radiusTop (List.mem_cons_of_mem _ List.mem_cons_self)
    have hh := hnumbers height (List.mem_cons_of_mem _ (List.mem_cons_of_mem _ List.mem_cons_self))
    have hy : f .y = 1 * |f .y| := by rw [abs_of_pos hup, one_mul]
    unfold resized outline
    dsimp only
    rw [hcenter]
    exact close_frustum hx he hy (.inl rfl) hround htolerance hr ht hh
  | sphere radius center segments rings =>
    obtain ⟨e, he, hx⟩ := exists_facing (p := sphere radius center segments rings)
      (max segments Round.minSegments) rfl f
    obtain ⟨v, hv, hz⟩ := exists_sign (f .z)
    obtain ⟨hround, hround'⟩ := hkept
    have hr := hnumbers radius List.mem_cons_self
    -- The meridian may be turned over, and each circle turned back or mirrored.
    have h := close_revolved (t := t) (d := center.get) (u := w * |f .x|)
      (sphereMeridian |radius| (max rings Round.minRings)) hx he
      (near_of_magnitudes hy hw hround') (near_of_magnitudes hz hv hround) hv fun m hm => abs_sphereMeridian_le hr hm
    rw [image_sphereMeridian (lt_max_of_lt_right (by decide)) hw] at h
    unfold resized outline
    dsimp only
    rw [hcenter, abs_mul, abs_abs]
    exact h

end Primitive

end SolidScript

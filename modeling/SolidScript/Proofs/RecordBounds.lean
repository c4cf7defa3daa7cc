import SolidScript.Proofs.MeshBounds

/-!
# Records that follow their meshes

A record is moved and scaled beside the mesh it came from. The mesh that the record stands for then has the bounds of the
one that was moved, up to rounding, unless a round solid with an odd number of steps is mirrored across the first axis.
-/

namespace SolidScript

open Binary64

attribute [local instance] Trigonometry.scalar

/-! ## Records and transforms -/

theorem value_roundness : (1e-12 : Float).isFinite = true ∧ value (1e-12 : Float) ≤ 2 ^ (-39 : ℤ) := by
  have hunpack : (Float.ofBits 0x3D80000000000000).toModel.unpack = .finite .positive (2 ^ 52) (-91) (by decide) := rfl
  have hfinite : (1e-12 : Float).isFinite = true := by decide +kernel
  refine ⟨hfinite, ?_⟩
  have hle : (1e-12 : Float) ≤ Float.ofBits 0x3D80000000000000 := by decide +kernel
  have hvalue := (value_le_iff hfinite (by decide +kernel)).mp hle
  rw [value_finite hunpack] at hvalue
  unfold signOf at hvalue
  norm_num at hvalue ⊢
  exact hvalue

noncomputable def Vec3.exact (v : Vec3 Float) : Vec3 ℝ := ⟨value v.x, value v.y, value v.z⟩

theorem Vec3.exact_get (v : Vec3 Float) : v.exact.get = v.position := by
  funext a
  cases a <;> rfl

namespace Primitive

noncomputable def exact : Primitive Float → Primitive ℝ
  | box size center => box size.exact center.exact
  | cylinder radius height center segments => cylinder (value radius) (value height) center.exact segments
  | sphere radius center segments rings => sphere (value radius) center.exact segments rings
  | cone radius radiusTop height center segments =>
    cone (value radius) (value radiusTop) (value height) center.exact segments

def counts : Primitive Float → List Nat
  | box _ _ => []
  | cylinder _ _ _ segments => [segments]
  | sphere _ _ segments rings => [segments, rings]
  | cone _ _ _ _ segments => [segments]

/-- Finite numbers up to a size, and counts of 32 bits. -/
def Bounded (L : ℝ) (p : Primitive Float) : Prop :=
  (∀ x ∈ p.numbers, x.isFinite = true ∧ |value x| ≤ L) ∧ ∀ n ∈ p.counts, n < 2 ^ 32

end Primitive

namespace Transform

noncomputable def factors : Transform Float → Axis → ℝ
  | translate _ => 1
  | rotate _ _ _ => 1
  | scale factor _ => factor.position

noncomputable def shift : Transform Float → Axis → ℝ
  | translate offset => offset.position
  | scale factor pivot => pivotShift factor.position pivot.position
  | rotate _ _ _ => 0

/-- Factors up to one size, and a finite pivot or an offset up to another. -/
def Bounded (G L : ℝ) : Transform Float → Prop
  | translate offset => ∀ a, |offset.position a| ≤ L
  | scale factor pivot =>
    (∀ a, |factor.position a| ≤ G) ∧ ∀ a, (pivot.get a).isFinite = true ∧ |pivot.position a| ≤ L
  | rotate _ _ _ => True

end Transform

variable {G L : ℝ} {m m' : Mesh Float} {p q : Primitive Float} {v factor pivot offset : Vec3 Float}

section

variable [Trigonometry]

omit [Trigonometry] in
theorem Vec3.tracks_self {S : ℝ} (hfinite : ∀ a, (v.get a).isFinite = true) (hbound : ∀ a, |v.position a| ≤ S) :
    v.Tracks S 0 v.position := fun a => within_self (hfinite a) (hbound a)

/-! ## Meshes that are moved -/

theorem apply_translate (h : m.apply (.translate offset) = .ok m') :
    offset.isFinite = true ∧ m'.vertices = m.vertices.map (· + offset) := by
  unfold Mesh.apply Transform.checkOffset at h
  dsimp only at h
  split at h
  · rename_i hfinite
    cases h
    exact ⟨hfinite, rfl⟩
  · cases h

theorem vertices_transform (m : Mesh Float) (matrix : Matrix4 Float) :
    (m.transform matrix).vertices = m.vertices.map matrix.applyPoint := by
  unfold Mesh.transform
  dsimp only
  split <;> rfl

theorem apply_scale (h : m.apply (.scale factor pivot) = .ok m') :
    factor.isFinite = true ∧ (∀ a, factor.position a ≠ 0) ∧
      m'.vertices = m.vertices.map (Matrix4.about pivot (Matrix4.scaling factor)).applyPoint := by
  unfold Mesh.apply Transform.toMatrix Transform.checkFactor at h
  dsimp only at h
  split at h
  · cases h
  · rename_i hfinite
    have hfinite : factor.isFinite = true := by simpa using hfinite
    split at h
    · cases h
    · rename_i hlarge
      cases h
      refine ⟨hfinite, fun a hzero => hlarge (List.any_eq_true.mpr ⟨factor.get a, ?_, ?_⟩), vertices_transform _ _⟩
      · cases a <;> simp [Vec3.toList, Vec3.get]
      · have habs := isFinite_abs (Vec3.isFinite_get hfinite a)
        refine decide_eq_true ((value_lt_iff habs value_ulpOne.1).mpr ?_)
        rw [value_ulpOne.2, value_abs, show value (factor.get a) = 0 from hzero, abs_zero]
        exact ulp_pos

variable {t : Transform Float}

theorem exists_placed (hscope : Scope G L) (ht : t.Bounded G L) (h : m.apply t = .ok m')
    (hrecord : p.transform? t = some q)
    (hvertices : ∀ v ∈ m.vertices, v.Tracks (3 * L) 0 v.position) :
    ∃ g : Vec3 Float → Vec3 Float, m'.vertices = m.vertices.map g ∧
      ∀ v ∈ m.vertices, (g v).Tracks (6 * (G * L)) scaledUnits (placed t.factors t.shift v.position) := by
  have hleast := hscope.size_ge
  have hproduct := hscope.le_product
  cases t with
  | rotate => cases hrecord
  | translate offset =>
    obtain ⟨hfinite, hmoved⟩ := apply_translate h
    refine ⟨_, hmoved, fun v hv => ?_⟩
    have hoffset := Vec3.tracks_self (Vec3.isFinite_get hfinite) ht
    have hsum := ((hvertices v hv).add hoffset (hscope.fits (by linarith) (by linarith)) (by decide)).mono
      (b := 6 * (G * L)) (l := scaledUnits) (by linarith) (by decide)
    rwa [← placed_one] at hsum
  | scale factor pivot =>
    obtain ⟨hfinite, -, hmoved⟩ := apply_scale h
    refine ⟨_, hmoved, fun v hv => ?_⟩
    exact tracks_applyPoint_about hscope (Vec3.tracks_self (Vec3.isFinite_get hfinite) ht.1)
      (Vec3.tracks_self (fun a => (ht.2 a).1) fun a => (ht.2 a).2) (hvertices v hv)

/-! ## Records that are moved -/

theorem near_of_uniform {x y : Float} (hx : x.isFinite = true) (hy : y.isFinite = true)
    (hend : |value x| + |value y| ≤ reach)
    (h : Scalar.magnitude (Scalar.magnitude x - Scalar.magnitude y) < Primitive.roundness) :
    |(|value x| - |value y|)| ≤ binade (-38) := by
  have hbound : |(|value x| - |value y|)| ≤ reach := by
    refine (abs_sub _ _).trans ?_
    rwa [abs_abs, abs_abs]
  obtain ⟨hfinite, hnear⟩ := value_sub (isFinite_abs hx) (isFinite_abs hy) (by rwa [value_abs, value_abs])
  have hsmall := (value_lt_iff (isFinite_abs hfinite) value_roundness.1).mp h
  rw [value_abs] at hsmall
  rw [value_abs, value_abs] at hnear
  generalize |value x| - |value y| = e at hnear ⊢
  have hround := hnear.trans (roundoff_le e)
  have htiny : (2 : ℝ) ^ (-1075 : ℤ) ≤ 2 ^ (-41 : ℤ) := zpow_le_zpow_right₀ one_le_two (by decide)
  have hdiff := abs_sub_abs_le_abs_sub e (value (x.abs - y.abs))
  rw [abs_sub_comm] at hdiff
  have hvalue := hsmall.le.trans value_roundness.2
  rw [binade_eq]
  generalize (2 : ℝ) ^ (-1075 : ℤ) = tiny at hround htiny
  norm_num at hround htiny hvalue ⊢
  linarith

noncomputable def pointOf (p : Axis → ℝ) : Vec3 ℝ := ⟨p .x, p .y, p .z⟩

omit [Trigonometry] in
theorem pointOf_get (p : Axis → ℝ) : (pointOf p).get = p := by
  funext a
  cases a <;> rfl

theorem within_dimension (hscope : Scope G L) {x y : Float} {f : ℝ} (hx : x.isFinite = true ∧ |value x| ≤ L)
    (hy : Within G 0 y f) :
    Within (3 * (G * L)) recordUnits (x * Scalar.magnitude y) (value x * |f|) := by
  have hleast := hscope.size_ge
  have hproduct := hscope.le_product
  exact ((within_self hx.1 hx.2).mul hy.abs (hscope.fits (by linarith) (by linarith)) (by decide)).mono (by linarith) (by decide)

theorem tracks_scalePoint (hscope : Scope G L) {f c e : Axis → ℝ} (hfactor : factor.Tracks G 0 f)
    (hpivot : pivot.Tracks L 0 c)
    (hv : v.Tracks L 0 e) :
    (Primitive.scalePoint factor pivot v).Tracks (3 * (G * L)) recordUnits (placed f (pivotShift f c) e) := by
  have hleast := hscope.size_ge
  have hproduct := hscope.le_product
  have hdiff := hv.sub hpivot (hscope.fits (by linarith) (by linarith)) (by decide)
  have hscaled : (Vec3.zipWith (· * ·) (v - pivot) factor).Tracks ((L + L) * G) 3 ((e - c) * f) := by
    intro a
    rw [Vec3.get_zipWith]
    exact (hdiff a).mul (hfactor a) (hscope.fits (by linarith) (by linarith)) (by decide)
  have hsum := (hpivot.add hscaled (hscope.fits (by linarith) (by linarith)) (by decide)).mono
    (b := 3 * (G * L)) (l := recordUnits) (by linarith) (by decide)
  have hplaced : c + (e - c) * f = placed f (pivotShift f c) e := by
    funext a
    simp only [Pi.add_apply, Pi.mul_apply, Pi.sub_apply, placed, pivotShift]
    ring
  rwa [hplaced] at hsum

omit [Trigonometry] in
theorem Primitive.Bounded.tracks_center (hp : p.Bounded L) : p.center.Tracks L 0 p.center.position := by
  have hcenter (a : Axis) : (p.center.get a).isFinite = true ∧ |value (p.center.get a)| ≤ L := by
    refine Vec3.forall_get (r := fun x => x.isFinite = true ∧ |value x| ≤ L) (fun x hx => hp.1 x ?_) a
    cases p with
    | box => exact List.mem_append_right _ hx
    | cylinder => exact List.mem_cons_of_mem _ (List.mem_cons_of_mem _ hx)
    | sphere => exact List.mem_cons_of_mem _ hx
    | cone => exact List.mem_cons_of_mem _ (List.mem_cons_of_mem _ (List.mem_cons_of_mem _ hx))
  exact Vec3.tracks_self (fun a => (hcenter a).1) fun a => (hcenter a).2

/-- A primitive of the same kind, with dimensions from those of this one. -/
def Primitive.withDimensions (g : Axis → Float → Float) (center : Vec3 Float) : Primitive Float → Primitive Float
  | box size _ => box ⟨g .x size.x, g .y size.y, g .z size.z⟩ center
  | cylinder radius height _ segments => cylinder (g .x radius) (g .y height) center segments
  | sphere radius _ segments rings => sphere (g .x radius) center segments rings
  | cone radius radiusTop height _ segments => cone (g .x radius) (g .x radiusTop) (g .y height) center segments

omit [Trigonometry] in
theorem Primitive.tracks_withDimensions {S : ℝ} {g : Axis → Float → Float} {f : Axis → ℝ} {c : Vec3 Float} {e : Vec3 ℝ}
    (hnumber : ∀ x ∈ p.numbers, ∀ a, Within S recordUnits (g a x) (value x * |f a|))
    (hcenter : c.Tracks S recordUnits e.get) (hcounts : ∀ n ∈ p.counts, n < 2 ^ 32) :
    (p.withDimensions g c).Tracks S (p.exact.resized f e) := by
  cases p with
  | box size center =>
    refine .box (fun a => ?_) hcenter
    cases a
    · exact hnumber size.x List.mem_cons_self .x
    · exact hnumber size.y (List.mem_cons_of_mem _ List.mem_cons_self) .y
    · exact hnumber size.z (List.mem_cons_of_mem _ (List.mem_cons_of_mem _ List.mem_cons_self)) .z
  | cylinder radius height center segments =>
    exact .cylinder (hnumber _ List.mem_cons_self .x) (hnumber _ (List.mem_cons_of_mem _ List.mem_cons_self) .y) hcenter
      (hcounts _ List.mem_cons_self)
  | sphere radius center segments rings =>
    exact .sphere (hnumber _ List.mem_cons_self .x) hcenter (hcounts _ List.mem_cons_self)
      (hcounts _ (List.mem_cons_of_mem _ List.mem_cons_self))
  | cone radius radiusTop height center segments =>
    exact .cone (hnumber _ List.mem_cons_self .x) (hnumber _ (List.mem_cons_of_mem _ List.mem_cons_self) .x)
      (hnumber _ (List.mem_cons_of_mem _ (List.mem_cons_of_mem _ List.mem_cons_self)) .y) hcenter
      (hcounts _ List.mem_cons_self)

omit [Trigonometry] in
theorem Primitive.Bounded.within (hp : p.Bounded L) {x : Float} (hx : x ∈ p.numbers) :
    Within L recordUnits x (value x * |1|) := by
  rw [abs_one, mul_one]
  exact (within_self (hp.1 x hx).1 (hp.1 x hx).2).mono le_rfl (by decide)

omit [Trigonometry] in
theorem Primitive.Bounded.tracks (hp : p.Bounded L) : p.Tracks L p.exact := by
  have hcenter : p.center.Tracks L recordUnits p.center.exact.get := by
    rw [Vec3.exact_get]
    exact hp.tracks_center.mono le_rfl (by decide)
  have hsame : p.withDimensions (fun _ x => x) p.center = p := by cases p <;> rfl
  have hexact : p.exact.resized 1 p.center.exact = p.exact := by
    cases p <;> simp [Primitive.exact, Primitive.resized, Primitive.center, Vec3.exact]
  have htracks := Primitive.tracks_withDimensions (f := 1) (fun x hx _ => hp.within hx) hcenter hp.2
  rwa [hsame, hexact] at htracks

omit [Trigonometry] in
theorem Primitive.exact_numbers (p : Primitive Float) : p.exact.numbers = p.numbers.map value := by
  cases p <;> rfl

omit [Trigonometry] in
theorem Primitive.exact_center (p : Primitive Float) : p.exact.center.get = p.center.position := by
  cases p <;> exact Vec3.exact_get _

theorem eq_of_scale? (h : p.scale? factor pivot = some q) :
    q = p.withDimensions (fun a x => x * Scalar.magnitude (factor.get a)) (Primitive.scalePoint factor pivot p.center) := by
  cases p with
  | box =>
    cases h
    rfl
  | cylinder | sphere | cone =>
    simp only [Primitive.scale?, Option.ite_none_right_eq_some, Option.some_inj] at h
    obtain ⟨-, rfl⟩ := h
    rfl

theorem keptBy_of_scale? (hfactor : ∀ a, (factor.get a).isFinite = true)
    (hend : ∀ a b, |factor.position a| + |factor.position b| ≤ reach) (h : p.scale? factor pivot = some q) :
    p.exact.KeptBy (binade (-38)) factor.position := by
  have huniform (a b : Axis) (h : Scalar.magnitude (Scalar.magnitude (factor.get a) - Scalar.magnitude (factor.get b)) <
      Primitive.roundness) : |(|factor.position a| - |factor.position b|)| ≤ binade (-38) :=
    near_of_uniform (hfactor a) (hfactor b) (hend a b) h
  cases p with
  | box => trivial
  | cylinder =>
    simp only [Primitive.scale?, Option.ite_none_right_eq_some, decide_eq_true_eq] at h
    exact huniform .x .z h.1
  | sphere =>
    simp only [Primitive.scale?, Option.ite_none_right_eq_some, Bool.and_eq_true, decide_eq_true_eq] at h
    exact ⟨huniform .x .z h.1.1, huniform .x .y h.1.2⟩
  | cone =>
    simp only [Primitive.scale?, Option.ite_none_right_eq_some, Bool.and_eq_true, decide_eq_true_eq] at h
    have hup := (value_lt_iff vanishes_zero.finite (hfactor .y)).mp h.1.2
    rw [vanishes_zero.zero] at hup
    exact ⟨huniform .x .z h.1.1, hup⟩

theorem tracks_scaled (hscope : Scope G L) (hp : p.Bounded L) (hfactor : ∀ a, (factor.get a).isFinite = true)
    (ht : (Transform.scale factor pivot).Bounded G L) (hrecord : p.scale? factor pivot = some q) :
    q.Tracks (3 * (G * L)) (p.exact.resized factor.position
      (pointOf (placed factor.position (pivotShift factor.position pivot.position) p.center.position))) ∧
      p.exact.KeptBy (binade (-38)) factor.position := by
  have hf := Vec3.tracks_self hfactor ht.1
  have hcenter := tracks_scalePoint hscope hf (Vec3.tracks_self (fun a => (ht.2 a).1) fun a => (ht.2 a).2) hp.tracks_center
  rw [← pointOf_get (placed _ _ _)] at hcenter
  have hfits : Fits G := hscope.fits (by linarith [hscope.factor]) (by linarith [hscope.factor, hscope.factor_le])
  constructor
  · rw [eq_of_scale? hrecord]
    exact Primitive.tracks_withDimensions (fun x hx a => within_dimension hscope (hp.1 x hx) (hf a)) hcenter hp.2
  · exact keptBy_of_scale? hfactor (fun a b => (add_le_add (ht.1 a) (ht.1 b)).trans hfits.2) hrecord

theorem tracks_translated (hscope : Scope G L) (hp : p.Bounded L) (hoffset : offset.Tracks L 0 offset.position) :
    (p.translate offset).Tracks (3 * (G * L)) (p.exact.resized 1 (pointOf (placed 1 offset.position p.center.position))) ∧
      p.exact.KeptBy (binade (-38)) 1 := by
  have hleast := hscope.size_ge
  have hproduct := hscope.le_product
  have hcenter : (p.center + offset).Tracks (3 * (G * L)) recordUnits
      (pointOf (placed 1 offset.position p.center.position)).get := by
    rw [pointOf_get, placed_one]
    exact (hp.tracks_center.add hoffset (hscope.fits (by linarith) (by linarith)) (by decide)).mono (by linarith) (by decide)
  have hround : |(|(1 : ℝ)| - |1|)| ≤ binade (-38) := by
    rw [sub_self, abs_zero, binade_eq]
    positivity
  have hmoved : p.translate offset = p.withDimensions (fun _ x => x) (p.center + offset) := by cases p <;> rfl
  constructor
  · rw [hmoved]
    exact Primitive.tracks_withDimensions (fun x hx _ => (hp.within hx).mono (by linarith) le_rfl) hcenter hp.2
  · cases p with
    | box => trivial
    | cylinder => exact hround
    | sphere => exact ⟨hround, hround⟩
    | cone => exact ⟨hround, one_pos⟩

/-- The exact record of what a transform makes of a primitive. -/
noncomputable def Primitive.moved (t : Transform Float) (p : Primitive Float) : Primitive ℝ :=
  p.exact.resized t.factors (pointOf (placed t.factors t.shift p.exact.center.get))

theorem tracks_moved (hscope : Scope G L) (hp : p.Bounded L) (ht : t.Bounded G L) (h : m.apply t = .ok m')
    (hrecord : p.transform? t = some q) :
    q.Tracks (3 * (G * L)) (p.moved t) ∧ p.exact.KeptBy (binade (-38)) t.factors ∧
      ∀ a, t.factors a ≠ 0 ∧ |t.factors a| ≤ G := by
  unfold Primitive.moved
  rw [p.exact_center]
  cases t with
  | rotate => cases hrecord
  | translate offset =>
    obtain ⟨htracks, hkept⟩ := tracks_translated hscope hp (Vec3.tracks_self (Vec3.isFinite_get (apply_translate h).1) ht)
    cases hrecord
    refine ⟨htracks, hkept, fun a => ⟨one_ne_zero, ?_⟩⟩
    rw [Transform.factors, Pi.one_apply, abs_one]
    exact hscope.factor
  | scale factor pivot =>
    obtain ⟨hfinite, hne, -⟩ := apply_scale h
    obtain ⟨htracks, hkept⟩ := tracks_scaled hscope hp (Vec3.isFinite_get hfinite) ht hrecord
    exact ⟨htracks, hkept, fun a => ⟨hne a, ht.1 a⟩⟩

/-! ## Meshes and records -/

theorem Primitive.vertices_ne_nil (p : Primitive Float) : p.toMesh.vertices.toList ≠ [] := by
  cases p with
  | box => exact List.cons_ne_nil _ _
  | cylinder => exact List.cons_ne_nil _ _
  | sphere => exact List.cons_ne_nil _ _
  | cone => exact List.cons_ne_nil _ _

theorem Primitive.Tracks.bounded {size : ℝ} {e : Primitive ℝ} (hp : p.Tracks size e) (haccurate : Trigonometry.Accurate)
    (hsize : Roomy size) : ∀ v ∈ p.toMesh.vertices, v.Tracks (3 * size) 0 v.position := by
  intro v hv
  obtain ⟨_, -, htracks⟩ := (hp.draws haccurate hsize).on v (Array.mem_toList_iff.mpr hv)
  refine Vec3.tracks_self (fun a => (htracks a).finite) fun a => ((htracks a).abs_value_le (by decide)).trans ?_
  have := (htracks a).nonneg
  norm_num
  linarith

theorem close_placed (hscope : Scope G L) (ht : t.Bounded G L) (h : m.apply t = .ok m')
    (hrecord : p.transform? t = some q)
    (hvertices : ∀ v ∈ m.vertices, v.Tracks (3 * L) 0 v.position) :
    Close (scaledUnits * (ulp * (6 * (G * L)))) (positions m'.vertices.toList)
      (placed t.factors t.shift '' positions m.vertices.toList) := by
  obtain ⟨g, hmoved, hg⟩ := exists_placed hscope ht h hrecord hvertices
  have himage : positions m'.vertices.toList = (fun v => (g v).position) '' {v | v ∈ m.vertices.toList} := by
    rw [hmoved, Array.toList_map]
    ext p
    constructor
    · rintro ⟨w, hw, rfl⟩
      obtain ⟨v, hv, rfl⟩ := List.mem_map.mp hw
      exact ⟨v, hv, rfl⟩
    · rintro ⟨v, hv, rfl⟩
      exact ⟨g v, List.mem_map_of_mem hv, rfl⟩
  have himage' : placed t.factors t.shift '' positions m.vertices.toList =
      (fun v => placed t.factors t.shift v.position) '' {v | v ∈ m.vertices.toList} := Set.image_image _ _ _
  rw [himage, himage']
  exact .of_images fun v hv a => (hg v (Array.mem_toList_iff.mp hv) a).near

omit [Trigonometry] in
theorem placed_near {f t : Axis → ℝ} (hf : ∀ a, |f a| ≤ G) (p q : Axis → ℝ) (a : Axis) :
    |placed f t p a - placed f t q a| ≤ G * |p a - q a| + 0 := by
  unfold placed
  rw [add_sub_add_right_eq_sub, ← sub_mul, abs_mul, mul_comm, add_zero]
  exact mul_le_mul_of_nonneg_right (hf a) (abs_nonneg _)

omit [Trigonometry] in
theorem facing_near {side d : ℝ} {center center' : Axis → ℝ} (hside : |side| ≤ 1)
    (hcenter : |center .x - center' .x| ≤ d)
    (p q : Axis → ℝ) (a : Axis) : |facing side center p a - facing side center' q a| ≤ 1 * |p a - q a| + 2 * d := by
  rw [one_mul]
  have hd : 0 ≤ d := (abs_nonneg _).trans hcenter
  cases a with
  | x =>
    have hdiff : facing side center p .x - facing side center' q .x =
        (1 - side) * (center .x - center' .x) + side * (p .x - q .x) := by
      unfold facing
      rw [Function.update_self, Function.update_self]
      ring
    have hfactor : |1 - side| ≤ 2 := by
      have := abs_le.mp hside
      rw [abs_le]
      constructor <;> linarith
    rw [hdiff]
    calc |(1 - side) * (center .x - center' .x) + side * (p .x - q .x)|
      _ ≤ |1 - side| * |center .x - center' .x| + |side| * |p .x - q .x| := by
        rw [← abs_mul, ← abs_mul]
        exact abs_add_le _ _
      _ ≤ 2 * d + 1 * |p .x - q .x| := by gcongr
      _ = |p .x - q .x| + 2 * d := by ring
  | y =>
    exact le_add_of_nonneg_right (by positivity)
  | z =>
    exact le_add_of_nonneg_right (by positivity)

/-- The vertices of a record are moved to where those of the moved record are, unless these face the other side. -/
theorem close_moved (haccurate : Trigonometry.Accurate) (hscope : Scope G L) (hp : p.Bounded L) (ht : t.Bounded G L)
    (h : p.toMesh.apply t = .ok m) (hrecord : p.transform? t = some q) :
    Close (binade (-30) * (G * L)) (positions m.vertices.toList)
      (facing (p.exact.facingSide t.factors) q.center.position '' positions q.toMesh.vertices.toList) := by
  obtain ⟨htracks, hkept, hfactors⟩ := tracks_moved hscope hp ht h hrecord
  have hleast := hscope.least
  have hfactor := hscope.factor
  have hproduct := hscope.le_product
  have hfactor_le := hscope.factor_le
  have hpos : 0 ≤ L := (hp.tracks_center .x).nonneg
  have hnumbers : ∀ x ∈ p.exact.numbers, |x| ≤ L := by
    rw [p.exact_numbers]
    intro x hx
    obtain ⟨y, hy, rfl⟩ := List.mem_map.mp hx
    exact (hp.1 y hy).2
  have hroomy := hscope.roomy le_rfl (by linarith)
  have hroomy' := hscope.roomy (a := 3 * (G * L)) (by linarith) (by linarith)
  -- By the outline of the record, its image and the outline of the moved record to the vertices of that.
  have hvertices := close_placed hscope ht h hrecord (hp.tracks.bounded haccurate hroomy)
  have hdrawn := (hp.tracks.draws haccurate hroomy).close.images (placed_near (t := t.shift) fun a => (hfactors a).2)
    (by linarith)
  have hscaled := Primitive.close_outline (t := t.shift) (fun a => (hfactors a).1) (pointOf_get _) hkept
    (by rw [binade_eq]; positivity) hnumbers
  have hcenter : |(p.moved t).center.get .x - q.center.position .x| ≤ recordUnits * (ulp * (3 * (G * L))) := by
    rw [abs_sub_comm]
    exact (htracks.tracks_center .x).near
  have hdrawn' := (htracks.draws haccurate hroomy').close.symm.images
    (facing_near (p.exact.abs_facingSide_le t.factors) hcenter) zero_le_one
  have hcenter' : (p.moved t).center.get = (pointOf (placed t.factors t.shift p.exact.center.get)).get := by
    unfold Primitive.moved
    cases p <;> rfl
  rw [hcenter'] at hdrawn'
  refine (((hvertices.trans hdrawn).trans hscaled).trans hdrawn').mono ?_
  unfold outlineSlack scaledUnits recordUnits
  rw [ulp_eq, binade_eq, binade_eq, binade_eq, binade_eq]
  norm_num
  linarith

omit [Trigonometry] in
theorem Primitive.exact_isLopsided (p : Primitive Float) : p.exact.isLopsided = p.isLopsided := by
  cases p <;> rfl

/-- A primitive is translated or scaled, and so is its record. The mesh of the new record then has the bounds of the mesh
that was moved, up to rounding. Only along the first axis the bounds of a round solid with an odd number of steps are
mirrored at the center of the record where the factor is negative. -/
theorem moved_bounds (haccurate : Trigonometry.Accurate) (hscope : Scope G L) (hp : p.Bounded L) (ht : t.Bounded G L)
    (h : p.toMesh.apply t = .ok m) (hrecord : p.transform? t = some q) :
    let box := q.toMesh.bounds
    let slack := binade (-30) * (G * L)
    (∀ a, ((m.bounds.low.get a).isFinite ∧ (m.bounds.high.get a).isFinite) ∧
      (box.low.get a).isFinite ∧ (box.high.get a).isFinite) ∧
    (∀ a, a ≠ .x ∨ p.isLopsided = false ∨ 0 ≤ t.factors .x →
      |value (m.bounds.low.get a) - value (box.low.get a)| ≤ slack ∧
        |value (m.bounds.high.get a) - value (box.high.get a)| ≤ slack) ∧
    (p.isLopsided = true → t.factors .x < 0 →
      |value m.bounds.low.x - (2 * value q.center.x - value box.high.x)| ≤ slack ∧
        |value m.bounds.high.x - (2 * value q.center.x - value box.low.x)| ≤ slack) := by
  intro box slack
  have hclose := close_moved haccurate hscope hp ht h hrecord
  have hroomy := hscope.roomy le_rfl (by linarith [hscope.le_product, hp.tracks_center .x |>.nonneg])
  have hroomy' := hscope.roomy (a := 3 * (G * L)) (by linarith [hscope.le_product, hp.tracks_center .x |>.nonneg])
    (by linarith [hscope.le_product, hp.tracks_center .x |>.nonneg])
  obtain ⟨g, hmoved, hg⟩ := exists_placed hscope ht h hrecord (hp.tracks.bounded haccurate hroomy)
  have hspans := spans_vertices (m := m) (by simpa [hmoved] using p.vertices_ne_nil) (by
    rw [hmoved]
    intro v hv a
    obtain ⟨w, hw, rfl⟩ := Array.mem_map.mp hv
    exact (hg w hw a).finite)
  have hspans' := spans_vertices q.vertices_ne_nil fun v hv a =>
    ((tracks_moved hscope hp ht h hrecord).1.bounded haccurate hroomy' v hv a).finite
  refine ⟨fun a => ⟨⟨(hspans a).1, (hspans a).2.1⟩, (hspans' a).1, (hspans' a).2.1⟩, fun a ha => ?_,
    fun hodd hneg => ?_⟩
  · refine hclose.spans (hspans a).2.2 ((hspans' a).2.2.image fun p' => ?_)
    -- Along the first axis, one of the reasons for a mirror image is missing.
    rcases ne_or_eq a .x with hne | rfl
    · exact Function.update_of_ne hne _ _
    · have hside : p.exact.facingSide t.factors = 1 := by
        refine if_neg fun hboth => ?_
        rw [p.exact_isLopsided] at hboth
        rcases ha with ha | ha | ha
        · exact ha rfl
        · exact absurd (hboth.1.symm.trans ha) nofun
        · exact absurd hboth.2 ha.not_gt
      rw [hside, Primitive.facing_one]
  · have hside : p.exact.facingSide t.factors = -1 := by
      refine if_pos ⟨?_, hneg⟩
      rw [p.exact_isLopsided]
      exact hodd
    rw [hside] at hclose
    exact hclose.spans (hspans .x).2.2 ((hspans' .x).2.2.mirrored q.center.position)

end

/-! ## A mirrored prism -/

section

variable [Trigonometry]

theorem apply_scale_of_large (m : Mesh Float) (pivot : Vec3 Float) (hfinite : factor.isFinite = true)
    (hlarge : ∀ x ∈ factor.toList, ¬ Scalar.magnitude x < Scalar.ulpOne) :
    m.apply (.scale factor pivot) = .ok (m.transform (Matrix4.about pivot (Matrix4.scaling factor))) := by
  have hchecked : Transform.checkFactor factor = .ok () := by
    unfold Transform.checkFactor
    rw [hfinite, if_neg (by simp), if_neg (by simpa using hlarge)]
    rfl
  unfold Mesh.apply Transform.toMatrix
  dsimp only
  rw [hchecked]
  rfl

theorem scale?_cylinder (radius height : Float) (center pivot : Vec3 Float) (segments : Nat)
    (h : Scalar.magnitude (Scalar.magnitude factor.x - Scalar.magnitude factor.z) < Primitive.roundness) :
    (Primitive.cylinder radius height center segments).scale? factor pivot =
      some (.cylinder (radius * Scalar.magnitude factor.x) (height * Scalar.magnitude factor.y)
        (Primitive.scalePoint factor pivot center) segments) :=
  if_pos (decide_eq_true h)

end

namespace Primitive

def wedge : Primitive Float := .cylinder 1 2 ⟨0, 0, 0⟩ 3

def mirrorWedge : Transform Float := .scale ⟨-1, 1, 1⟩ ⟨0.25, 0, 0⟩

theorem wedge_bounded : Scope 1 2 ∧ wedge.Bounded 2 ∧ mirrorWedge.Bounded 1 2 := by
  refine ⟨⟨le_rfl, ?_, ?_⟩, ⟨?_, by decide⟩, ?_, ?_⟩
  · rw [binade_eq]
    norm_num
  · rw [binade_eq, one_mul]
    calc (2 : ℝ)
      _ = 2 ^ (1 : ℤ) := (zpow_one 2).symm
      _ ≤ 2 ^ (1000 : ℤ) := zpow_le_zpow_right₀ one_le_two (by decide)
  · intro x hx
    have hall : ∀ x ∈ wedge.numbers, x.isFinite = true ∧ (units x).natAbs ≤ 2 * one := by decide +kernel
    exact ⟨(hall x hx).1, by exact_mod_cast abs_value_le_of_units (hall x hx).2⟩
  · have hall : ∀ x ∈ (⟨-1, 1, 1⟩ : Vec3 Float).toList, (units x).natAbs ≤ 1 * one := by decide +kernel
    intro a
    exact_mod_cast abs_value_le_of_units (Vec3.forall_get hall a)
  · have hall : ∀ x ∈ (⟨0.25, 0, 0⟩ : Vec3 Float).toList, x.isFinite = true ∧ (units x).natAbs ≤ 2 * one := by
      decide +kernel
    intro a
    exact ⟨(Vec3.forall_get hall a).1, by exact_mod_cast abs_value_le_of_units (Vec3.forall_get hall a).2⟩

/-- The mirrored mesh of the prism, and its record. -/
def wedgeMesh [Trigonometry] : Mesh Float :=
  wedge.toMesh.transform (Matrix4.about ⟨0.25, 0, 0⟩ (Matrix4.scaling ⟨-1, 1, 1⟩))

def wedgeRecord [Trigonometry] : Primitive Float :=
  .cylinder (1 * 1) (2 * 1) (scalePoint ⟨-1, 1, 1⟩ ⟨0.25, 0, 0⟩ ⟨0, 0, 0⟩) 3

theorem mirrorWedge_regular :
    (⟨-1, 1, 1⟩ : Vec3 Float).isFinite = true ∧
      (∀ x ∈ (⟨-1, 1, 1⟩ : Vec3 Float).toList, ¬ Scalar.magnitude x < Scalar.ulpOne) ∧
      Scalar.magnitude (Scalar.magnitude (-1 : Float) - Scalar.magnitude 1) < roundness := by
  decide +kernel

theorem wedge_mirrored [Trigonometry] :
    wedge.toMesh.apply mirrorWedge = .ok wedgeMesh ∧ wedge.transform? mirrorWedge = some wedgeRecord := by
  obtain ⟨hfinite, hlarge, hround⟩ := mirrorWedge_regular
  exact ⟨apply_scale_of_large _ _ hfinite hlarge, scale?_cylinder _ _ _ _ _ hround⟩

theorem mirrorWedge_mirrors : mirrorWedge.factors .x < 0 := by
  show value (-1) < 0
  rw [(value_neg (by decide +kernel)).2, value_one]
  exact neg_one_lt_zero

section

attribute [local instance] Trigonometry.rounded

theorem wedge_moved_bounds :
    Trigonometry.Accurate ∧ Scope 1 2 ∧ wedge.Bounded 2 ∧ mirrorWedge.Bounded 1 2 ∧
      wedge.toMesh.apply mirrorWedge = .ok wedgeMesh ∧ wedge.transform? mirrorWedge = some wedgeRecord ∧
      |value wedgeMesh.bounds.low.x - (2 * value wedgeRecord.center.x - value wedgeRecord.toMesh.bounds.high.x)| ≤
        binade (-30) * (1 * 2) ∧
      |value wedgeMesh.bounds.low.y - value wedgeRecord.toMesh.bounds.low.y| ≤ binade (-30) * (1 * 2) := by
  obtain ⟨hscope, hbounded, hbounded'⟩ := wedge_bounded
  obtain ⟨happly, hrecord⟩ := wedge_mirrored
  have haccurate := Trigonometry.accurate_rounded
  obtain ⟨-, hother, hfirst⟩ := moved_bounds haccurate hscope hbounded hbounded' happly hrecord
  exact ⟨haccurate, hscope, hbounded, hbounded', happly, hrecord, (hfirst rfl mirrorWedge_mirrors).1,
    (hother .y (.inl nofun)).1⟩

end

/-- What the machine finds at thirds of a turn. -/
@[reducible] def thirds : Trigonometry where
  sin x := if x < 1 then 0 else if x < 3 then 0.8660254037844387 else -0.8660254037844385
  cos x := if x < 1 then 1 else if x < 3 then -0.4999999999999998 else -0.5000000000000004

section

attribute [local instance] thirds

/-- The record points the other way, half a unit further along the axis. -/
theorem mirrored_wedge_apart :
    wedge.toMesh.apply mirrorWedge = .ok wedgeMesh ∧ wedge.transform? mirrorWedge = some wedgeRecord ∧
      wedgeMesh.bounds.low.x = -0.5 ∧ -0.1 < wedgeRecord.toMesh.bounds.low.x := by
  refine ⟨wedge_mirrored.1, wedge_mirrored.2, ?_, ?_⟩
  · decide +kernel
  · decide +kernel

end

end Primitive

end SolidScript

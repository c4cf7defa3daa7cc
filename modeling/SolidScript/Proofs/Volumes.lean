import Mathlib.Algebra.Order.Field.Basic
import SolidScript.Feature.Pattern
import SolidScript.Feature.Transform
import SolidScript.Mesh.Topology
import SolidScript.Proofs.Clipping
import SolidScript.Proofs.Fans
import SolidScript.Proofs.Joining

/-!
# Volumes

The volume of a mesh is the sum of the cones between its triangles and the origin. A linear map multiplies each cone by
its determinant. A shift changes a cone by terms along its sides, and these cancel where each side is passed as often in
one direction as in the other.
-/

namespace SolidScript

namespace Vec3

variable {α : Type} [Scalar α] (a b : Vec3 α) (s : α)

theorem add_eq : a + b = ⟨a.x + b.x, a.y + b.y, a.z + b.z⟩ := rfl

theorem sub_eq : a - b = ⟨a.x - b.x, a.y - b.y, a.z - b.z⟩ := rfl

theorem neg_eq : -a = ⟨-a.x, -a.y, -a.z⟩ := rfl

theorem mul_eq : a * s = ⟨a.x * s, a.y * s, a.z * s⟩ := rfl

end Vec3

/-! ## Facets and their sides -/

namespace Facet

variable {α β : Type}

def map (f : Vec3 α → Vec3 β) (t : Facet α) : Facet β := (f t.1, f t.2.1, f t.2.2)

def flip (t : Facet α) : Facet α := (t.1, t.2.2, t.2.1)

def sides (t : Facet α) : List (Vec3 α × Vec3 α) := [(t.1, t.2.1), (t.2.1, t.2.2), (t.2.2, t.1)]

def allSides (facets : List (Facet α)) : List (Vec3 α × Vec3 α) := facets.flatMap sides

/-- As often as a side is passed in one direction it is passed in the other. -/
def Paired (facets : List (Facet α)) : Prop :=
  (allSides facets : Multiset (Vec3 α × Vec3 α)).map Prod.swap = allSides facets

theorem allSides_map (f : Vec3 α → Vec3 β) (facets : List (Facet α)) :
    allSides (facets.map (map f)) = (allSides facets).map (Prod.map f f) := by
  unfold allSides
  rw [List.flatMap_map, List.map_flatMap]
  rfl

theorem Paired.image {facets : List (Facet α)} (h : Paired facets) (f : Vec3 α → Vec3 β) :
    Paired (facets.map (map f)) := by
  unfold Paired at *
  rw [allSides_map, ← Multiset.map_coe, Multiset.map_map]
  conv_rhs => rw [← h, Multiset.map_map]
  rfl

end Facet

theorem sum_eq_zero_of_swap {β K : Type} [Field K] [LinearOrder K] [IsStrictOrderedRing K] {s : Multiset (β × β)}
    (h : s.map Prod.swap = s) {g : β × β → K} (hg : ∀ e, g e.swap = -g e) : (s.map g).sum = 0 := by
  have hself : (s.map g).sum = -(s.map g).sum := by
    calc (s.map g).sum = ((s.map Prod.swap).map g).sum := by rw [h]
      _ = (s.map fun e => -g e).sum := by
        rw [Multiset.map_map]
        exact congrArg Multiset.sum (Multiset.map_congr rfl fun e _ => hg e)
      _ = -(s.map g).sum := Multiset.sum_map_neg
  exact self_eq_neg.mp hself

/-! ## Cones -/

namespace Facet

variable {K : Type} [Field K] [LinearOrder K] [Elementary K]

def cone (t : Facet K) : K := t.1.dot (t.2.1.cross t.2.2) / 6

def volume (facets : List (Facet K)) : K := (facets.map cone).sum

@[simp]
theorem volume_append (facets rest : List (Facet K)) : volume (facets ++ rest) = volume facets + volume rest := by
  simp [volume]

theorem volume_flatMap {β : Type} (items : List β) (facets : β → List (Facet K)) :
    volume (items.flatMap facets) = (items.map fun b => volume (facets b)).sum := by
  induction items with
  | nil => rfl
  | cons b rest ih => rw [List.flatMap_cons, volume_append, ih, List.map_cons, List.sum_cons]

theorem volume_map_of_cone {f : Facet K → Facet K} {c : K} (h : ∀ t, cone (f t) = c * cone t)
    (facets : List (Facet K)) : volume (facets.map f) = c * volume facets := by
  unfold volume
  rw [List.map_map, ← List.sum_map_mul_left]
  exact congrArg List.sum (List.map_congr_left fun t _ => h t)

theorem volume_map_flip (facets : List (Facet K)) : volume (facets.map flip) = -volume facets := by
  rw [← neg_one_mul]
  refine volume_map_of_cone (fun t => ?_) facets
  simp only [cone, flip, Vec3.dot, Vec3.cross]
  ring

theorem volume_map_apply (linear : Matrix3 K) (facets : List (Facet K)) :
    volume (facets.map (map linear.apply)) = linear.det * volume facets := by
  refine volume_map_of_cone (fun t => ?_) facets
  simp only [cone, map, Matrix3.apply, Matrix3.det, Vec3.dot, Vec3.cross]
  ring

/-- What a side adds to a cone that is shifted. -/
def wedge (offset : Vec3 K) (side : Vec3 K × Vec3 K) : K := offset.dot (side.1.cross side.2) / 6

theorem volume_map_add (offset : Vec3 K) (facets : List (Facet K)) :
    volume (facets.map (map (· + offset))) = volume facets + ((allSides facets).map (wedge offset)).sum := by
  have hshift (t : Facet K) : cone (map (· + offset) t) = cone t + (t.sides.map (wedge offset)).sum := by
    simp only [cone, map, sides, wedge, Vec3.dot, Vec3.cross, Vec3.add_eq, List.map_cons, List.map_nil, List.sum_cons,
      List.sum_nil]
    ring
  induction facets with
  | nil => simp [volume, allSides]
  | cons t rest ih =>
    simp only [volume, allSides, List.map_cons, List.sum_cons, List.flatMap_cons, List.map_append,
      List.sum_append] at ih ⊢
    rw [hshift, ih]
    ring

variable [IsStrictOrderedRing K]

theorem Paired.volume_shifted {facets : List (Facet K)} (h : Paired facets) (offset : Vec3 K) :
    volume (facets.map (map (· + offset))) = volume facets := by
  have hwedge (side : Vec3 K × Vec3 K) : wedge offset side.swap = -wedge offset side := by
    simp only [wedge, Prod.swap, Vec3.dot, Vec3.cross]
    ring
  have hcancel := sum_eq_zero_of_swap h hwedge
  rw [Multiset.map_coe, Multiset.sum_coe] at hcancel
  rw [volume_map_add, hcancel, add_zero]

theorem Paired.volume_image {facets : List (Facet K)} (h : Paired facets) {f : Vec3 K → Vec3 K} (linear : Matrix3 K)
    (offset : Vec3 K) (hf : ∀ p, f p = linear.apply p + offset) :
    volume (facets.map (map f)) = linear.det * volume facets := by
  have hmap : facets.map (map f) = (facets.map (map linear.apply)).map (map (· + offset)) := by
    rw [List.map_map]
    refine List.map_congr_left fun t _ => ?_
    simp only [Function.comp_apply, map, hf]
  rw [hmap, (h.image linear.apply).volume_shifted, volume_map_apply]

end Facet

/-! ## Meshes -/

theorem Triangle.corners_lt {t : Triangle} {n : Nat} (h : t.top < n) : t.a < n ∧ t.b < n ∧ t.c < n := by
  have hcorners := (t.top_lt_iff n).mp h
  simpa only [toList, List.forall_mem_cons, List.not_mem_nil, false_imp_iff, implies_true, and_true] using hcorners

namespace Mesh

variable {α : Type}

/-- Each directed edge is there as often as its reverse. -/
def Balanced (m : Mesh α) : Prop := ∀ e ∈ m.directedEdges, m.directedEdges.count e.swap = m.directedEdges.count e

instance (m : Mesh α) : Decidable m.Balanced :=
  inferInstanceAs (Decidable (∀ e ∈ m.directedEdges, m.directedEdges.count e.swap = m.directedEdges.count e))

theorem Balanced.count_swap {m : Mesh α} (h : m.Balanced) (e : Nat × Nat) :
    m.directedEdges.count e.swap = m.directedEdges.count e := by
  by_cases he : e ∈ m.directedEdges
  · exact h e he
  · by_cases hback : e.swap ∈ m.directedEdges
    · exact (h e.swap hback).symm
    · rw [List.count_eq_zero.mpr he, List.count_eq_zero.mpr hback]

variable [Scalar α] {m m' n : Mesh α}

theorem allSides_facets (m : Mesh α) :
    Facet.allSides m.facets = m.directedEdges.map (Prod.map m.point m.point) := by
  unfold Facet.allSides facets directedEdges
  rw [List.flatMap_map, List.map_flatMap]
  rfl

theorem Balanced.paired (h : m.Balanced) : Facet.Paired m.facets := by
  have hedges : (m.directedEdges : Multiset (Nat × Nat)).map Prod.swap = m.directedEdges := by
    ext e
    have hcount := Multiset.count_map_eq_count' Prod.swap (m.directedEdges : Multiset (Nat × Nat))
      Prod.swap_injective e.swap
    rw [Prod.swap_swap] at hcount
    rw [hcount, Multiset.coe_count, Multiset.coe_count, lawful_beq_subsingleton instBEqOfDecidableEq instBEqProd]
    exact h.count_swap e
  unfold Facet.Paired
  rw [allSides_facets, ← Multiset.map_coe, Multiset.map_map]
  conv_rhs => rw [← hedges, Multiset.map_map]
  rfl

theorem facets_of_vertices {f : Vec3 α → Vec3 α} (hvertices : m'.vertices = m.vertices.map f)
    (htriangles : m'.triangles = m.triangles) (hm : ∀ t ∈ m.triangles, t.top < m.vertexCount) :
    m'.facets = m.facets.map (Facet.map f) := by
  have hpoint {i : Nat} (hi : i < m.vertexCount) : m'.point i = f (m.point i) := by
    simp [point, Array.getD_eq_getD_getElem?, hvertices, Array.getElem?_eq_getElem hi]
  unfold facets
  rw [htriangles, List.map_map]
  refine List.map_congr_left fun t ht => ?_
  obtain ⟨ha, hb, hc⟩ := Triangle.corners_lt (hm t (Array.mem_toList_iff.mp ht))
  simp only [Function.comp_apply, Facet.map, hpoint ha, hpoint hb, hpoint hc]

theorem facets_of_flipped (hvertices : m'.vertices = m.vertices)
    (htriangles : m'.triangles = m.triangles.map Triangle.flip) : m'.facets = m.facets.map Facet.flip := by
  unfold facets point
  rw [htriangles, hvertices, Array.toList_map, List.map_map, List.map_map]
  rfl

theorem facets_merge (hm : ∀ t ∈ m.triangles, t.top < m.vertexCount) :
    (m.merge n).facets = m.facets ++ n.facets := by
  unfold facets
  rw [triangles_merge, Array.toList_append, Array.toList_map, List.map_append, List.map_map]
  congr 1
  · refine List.map_congr_left fun t ht => ?_
    obtain ⟨ha, hb, hc⟩ := Triangle.corners_lt (hm t (Array.mem_toList_iff.mp ht))
    rw [point_merge_left ha, point_merge_left hb, point_merge_left hc]
  · refine List.map_congr_left fun t _ => ?_
    simp only [Function.comp_apply, Triangle.map, point_merge_right]

end Mesh

namespace Mesh

variable {K : Type} [Field K] [LinearOrder K] [Elementary K] {m : Mesh K}

theorem signedVolume_eq (m : Mesh K) : m.signedVolume = Facet.volume m.facets := by
  have hcone (t : Triangle) : m.signedCone t = Facet.cone (m.point t.a, m.point t.b, m.point t.c) := by
    show _ / ((6 : Nat) : K) = _ / 6
    rw [Nat.cast_ofNat]
  have hsum (triangles : List Triangle) (v : K) :
      triangles.foldl (fun v t => v + m.signedCone t) v = v + (triangles.map m.signedCone).sum := by
    induction triangles generalizing v with
    | nil => simp
    | cons t rest ih => rw [List.foldl_cons, ih, List.map_cons, List.sum_cons, add_assoc]
  unfold signedVolume Facet.volume facets
  rw [← Array.foldl_toList, hsum, Scalar.literal_eq, Nat.cast_zero, zero_add, List.map_map]
  exact congrArg List.sum (List.map_congr_left fun t _ => hcone t)

end Mesh

/-! ## Reflection and scaling -/

variable {K : Type} [Field K] [LinearOrder K] [Elementary K]

/-- The reflection in the plane through the origin with a unit normal. -/
def Matrix3.reflection (n : Vec3 K) : Matrix3 K where
  row0 := ⟨1 - (n.x + n.x) * n.x, -(n.x + n.x) * n.y, -(n.x + n.x) * n.z⟩
  row1 := ⟨-(n.y + n.y) * n.x, 1 - (n.y + n.y) * n.y, -(n.y + n.y) * n.z⟩
  row2 := ⟨-(n.z + n.z) * n.x, -(n.z + n.z) * n.y, 1 - (n.z + n.z) * n.z⟩

theorem Matrix3.det_reflection (n : Vec3 K) : (reflection n).det = 1 - 2 * n.dot n := by
  simp only [det, reflection, Vec3.dot]
  ring

theorem Vec3.reflectPoint_eq (origin n p : Vec3 K) :
    reflectPoint origin n p = (Matrix3.reflection n).apply p + n * (2 * origin.dot n) := by
  have htwo : @OfNat.ofNat K 2 (Scalar.instOfNat 2) = 2 := Nat.cast_ofNat
  unfold reflectPoint
  simp only [htwo, Vec3.sub_eq, Vec3.add_eq, Vec3.mul_eq, Vec3.dot, Matrix3.reflection, Matrix3.apply,
    Vec3.mk.injEq]
  refine ⟨?_, ?_, ?_⟩ <;> ring

def Matrix3.stretch (factor : Vec3 K) : Matrix3 K := ⟨⟨factor.x, 0, 0⟩, ⟨0, factor.y, 0⟩, ⟨0, 0, factor.z⟩⟩

theorem Matrix3.det_stretch (factor : Vec3 K) : (stretch factor).det = factor.x * factor.y * factor.z := by
  simp only [det, stretch]
  ring

theorem Matrix4.about_scaling (factor pivot : Vec3 K) :
    about pivot (scaling factor) =
      ⟨⟨factor.x, 0, 0, pivot.x - factor.x * pivot.x⟩, ⟨0, factor.y, 0, pivot.y - factor.y * pivot.y⟩,
        ⟨0, 0, factor.z, pivot.z - factor.z * pivot.z⟩, ⟨0, 0, 0, 1⟩⟩ := by
  have hzero : @OfNat.ofNat K 0 (Scalar.instOfNat 0) = 0 := Nat.cast_zero
  have hone : @OfNat.ofNat K 1 (Scalar.instOfNat 1) = 1 := Nat.cast_one
  have hadd (a b : Vec4 K) : a + b = ⟨a.x + b.x, a.y + b.y, a.z + b.z, a.w + b.w⟩ := rfl
  have hmul (m n : Matrix4 K) : m * n = m.mul n := rfl
  unfold about
  simp only [hmul, hadd, hzero, hone, mul, combine, translation, scaling, Vec4.scale, Vec3.neg_eq, Matrix4.mk.injEq,
    Vec4.mk.injEq]
  refine ⟨⟨?_, ?_, ?_, ?_⟩, ⟨?_, ?_, ?_, ?_⟩, ⟨?_, ?_, ?_, ?_⟩, ?_, ?_, ?_, ?_⟩ <;> ring

theorem Matrix4.linear_about_scaling (factor pivot : Vec3 K) :
    (about pivot (scaling factor)).linear = Matrix3.stretch factor := by
  rw [about_scaling]
  rfl

theorem Matrix4.applyPoint_about_scaling [IsStrictOrderedRing K] (factor pivot p : Vec3 K) :
    (about pivot (scaling factor)).applyPoint p =
      (Matrix3.stretch factor).apply p + (pivot - (Matrix3.stretch factor).apply pivot) := by
  have hone : ¬ Scalar.same (1 : K) (@OfNat.ofNat K 0 (Scalar.instOfNat 0)) = true := by
    have hzero : @OfNat.ofNat K 0 (Scalar.instOfNat 0) = 0 := Nat.cast_zero
    simp [Scalar.same, hzero]
  have hw : (Vec3.mk 0 0 0 : Vec3 K).dot p + 1 = 1 := by
    simp only [Vec3.dot]
    ring
  rw [about_scaling]
  unfold applyPoint
  dsimp only [Vec4.xyz]
  rw [hw, if_neg hone]
  show Vec3.mk _ _ _ = Vec3.mk _ _ _
  simp only [div_one, linear, Vec4.xyz, Matrix3.apply, Matrix3.stretch, Vec3.dot, Vec3.add_eq, Vec3.sub_eq,
    Vec3.mk.injEq]
  refine ⟨?_, ?_, ?_⟩ <;> ring

namespace Vec3

variable [IsStrictOrderedRing K] {v : Vec3 K} {length : K}

theorem shortLength_nonneg : (0 : K) ≤ shortLength := by
  show (0 : K) ≤ ((1 : Nat) : K) / 10 ^ 12
  positivity

theorem normalize?_of_dot [Elementary.TrueRoots K] (hlength : shortLength < length) (h : v.dot v = length * length) :
    v.normalize? = some (v / length) := by
  have hnonneg : 0 ≤ length := le_trans shortLength_nonneg hlength.le
  have hnorm : v.norm = length := by
    show Elementary.sqrt (v.dot v) = length
    rw [h, Elementary.TrueRoots.sqrt_mul_self hnonneg]
  unfold normalize?
  rw [hnorm]
  exact if_pos (by rw [decide_eq_true hlength]; rfl)

theorem dot_div_self (hlength : 0 < length) (h : v.dot v = length * length) : (v / length).dot (v / length) = 1 := by
  have hdiv : v / length = ⟨v.x / length, v.y / length, v.z / length⟩ := rfl
  have hparts : (v / length).dot (v / length) = v.dot v / (length * length) := by
    simp only [hdiv, dot]
    field_simp
  rw [hparts, h, div_self (mul_pos hlength hlength).ne']

end Vec3

/-! ## What becomes of the volume -/

namespace Transform

variable {factor : Vec3 K}

theorem any_small_iff : (factor.toList.any fun f => Scalar.magnitude f < Scalar.ulpOne) = true ↔
    ∃ a, |factor.get a| < Scalar.ulpOne := by
  simp only [Vec3.toList, List.any_cons, List.any_nil, Bool.or_false, Bool.or_eq_true, decide_eq_true_eq]
  constructor
  · rintro (h | h | h)
    · exact ⟨.x, h⟩
    · exact ⟨.y, h⟩
    · exact ⟨.z, h⟩
  · rintro ⟨a, h⟩
    cases a with
    | x => exact .inl h
    | y => exact .inr (.inl h)
    | z => exact .inr (.inr h)

theorem checkFactor_eq_error (h : ∃ a, |factor.get a| < Scalar.ulpOne) : checkFactor factor = .error .zeroScale := by
  have hfinite : factor.isFinite = true := rfl
  unfold checkFactor
  rw [hfinite, any_small_iff.mpr h]
  rfl

theorem checkFactor_eq_ok (h : ∀ a, Scalar.ulpOne ≤ |factor.get a|) : checkFactor factor = .ok () := by
  have hfinite : factor.isFinite = true := rfl
  unfold checkFactor
  rw [hfinite, Bool.eq_false_of_not_eq_true fun hany => (any_small_iff.mp hany).elim fun a ha => (h a).not_gt ha]
  rfl

end Transform

namespace Mesh

variable {m n : Mesh K}

theorem signedVolume_reverseWinding (m : Mesh K) : m.reverseWinding.signedVolume = -m.signedVolume := by
  have hfacets : m.reverseWinding.facets = m.facets.map Facet.flip := facets_of_flipped rfl rfl
  rw [signedVolume_eq, signedVolume_eq, hfacets, Facet.volume_map_flip]

theorem signedVolume_flipTriangles (m : Mesh K) : m.flipTriangles.signedVolume = -m.signedVolume :=
  signedVolume_reverseWinding m

theorem signedVolume_merge (hm : m.Valid) : (m.merge n).signedVolume = m.signedVolume + n.signedVolume := by
  rw [signedVolume_eq, signedVolume_eq, signedVolume_eq, facets_merge hm.inRange, Facet.volume_append]

theorem mirror_eq_ok {normal direction : Vec3 K} (point : Vec3 K) (h : normal.normalize? = some direction) :
    m.mirror normal point false =
      .ok (m.map (Vec3.reflectPoint point direction) (Vec3.reflect direction)).flipTriangles := by
  unfold mirror Pattern.requireDirection
  rw [h]
  rfl

theorem apply_scale_eq_error {factor : Vec3 K} (pivot : Vec3 K) (h : ∃ a, |factor.get a| < Scalar.ulpOne) :
    m.apply (.scale factor pivot) = .error .zeroScale := by
  unfold apply Transform.toMatrix
  dsimp only
  rw [Transform.checkFactor_eq_error h]
  rfl

theorem apply_scale_eq_ok {factor : Vec3 K} (pivot : Vec3 K) (h : ∀ a, Scalar.ulpOne ≤ |factor.get a|) :
    m.apply (.scale factor pivot) = .ok (m.transform (Matrix4.about pivot (Matrix4.scaling factor))) := by
  unfold apply Transform.toMatrix
  dsimp only
  rw [Transform.checkFactor_eq_ok h]
  rfl

variable [IsStrictOrderedRing K]

theorem Balanced.signedVolume_translate (h : m.Balanced) (hm : ∀ t ∈ m.triangles, t.top < m.vertexCount)
    (offset : Vec3 K) : (m.translate offset).signedVolume = m.signedVolume := by
  have hfacets : (m.translate offset).facets = m.facets.map (Facet.map (· + offset)) := facets_of_vertices rfl rfl hm
  rw [signedVolume_eq, signedVolume_eq, hfacets, h.paired.volume_shifted]

/-- A map that multiplies directions by a matrix multiplies the volume by its determinant. -/
theorem Balanced.signedVolume_map (h : m.Balanced) (hm : ∀ t ∈ m.triangles, t.top < m.vertexCount)
    {point : Vec3 K → Vec3 K} (direction : Vec3 K → Vec3 K) (linear : Matrix3 K) (offset : Vec3 K)
    (hpoint : ∀ p, point p = linear.apply p + offset) :
    (m.map point direction).signedVolume = linear.det * m.signedVolume := by
  have hfacets : (m.map point direction).facets = m.facets.map (Facet.map point) := facets_of_vertices rfl rfl hm
  rw [signedVolume_eq, signedVolume_eq, hfacets, h.paired.volume_image linear offset hpoint]

theorem Balanced.signedVolume_mirror [Elementary.TrueRoots K] (h : m.Balanced)
    (hm : ∀ t ∈ m.triangles, t.top < m.vertexCount) {normal : Vec3 K} {length : K} (point : Vec3 K)
    (hlength : Vec3.shortLength < length) (hnormal : normal.dot normal = length * length) :
    ∃ image, m.mirror normal point false = .ok image ∧ image.signedVolume = m.signedVolume := by
  have hunit := Vec3.dot_div_self (lt_of_le_of_lt Vec3.shortLength_nonneg hlength) hnormal
  refine ⟨_, mirror_eq_ok point (Vec3.normalize?_of_dot hlength hnormal), ?_⟩
  rw [signedVolume_flipTriangles, h.signedVolume_map hm _ _ _ (Vec3.reflectPoint_eq point (normal / length)),
    Matrix3.det_reflection, hunit]
  ring

theorem Balanced.signedVolume_scaled (h : m.Balanced) (hm : ∀ t ∈ m.triangles, t.top < m.vertexCount)
    (factor pivot : Vec3 K) : (m.transform (Matrix4.about pivot (Matrix4.scaling factor))).signedVolume =
      |factor.x * factor.y * factor.z| * m.signedVolume := by
  have hzero : @OfNat.ofNat K 0 (Scalar.instOfNat 0) = 0 := Nat.cast_zero
  have hmap (direction : Vec3 K → Vec3 K) :=
    h.signedVolume_map hm direction _ _ (Matrix4.applyPoint_about_scaling factor pivot)
  simp only [Matrix3.det_stretch] at hmap
  unfold transform
  dsimp only
  rw [Matrix4.linear_about_scaling, Matrix3.det_stretch, hzero]
  by_cases hneg : factor.x * factor.y * factor.z < 0
  · rw [if_pos hneg, signedVolume_flipTriangles, hmap, abs_of_neg hneg, neg_mul]
  · rw [if_neg hneg, hmap, abs_of_nonneg (not_lt.mp hneg)]

/-- Moving a mesh without borders keeps its volume, and so does the mirror image. Scaling multiplies the volume by the
factors, whatever their signs are. A factor below the rounding of one counts as zero and is refused. Turned inside out,
a mesh has the negative volume, and joined meshes have the sum of their volumes. -/
theorem volume_of_moved_and_joined [Elementary.TrueRoots K] :
    (∀ m : Mesh K, (∀ t ∈ m.triangles, t.top < m.vertexCount) → m.Balanced →
      (∀ offset, (m.translate offset).signedVolume = m.signedVolume) ∧
      (∀ normal point length, Vec3.shortLength < length → normal.dot normal = length * length →
        ∃ image, m.mirror normal point false = .ok image ∧ image.signedVolume = m.signedVolume) ∧
      (∀ factor pivot, (∀ a, Scalar.ulpOne ≤ |factor.get a|) →
        ∃ scaled, m.apply (.scale factor pivot) = .ok scaled ∧
          scaled.signedVolume = |factor.x * factor.y * factor.z| * m.signedVolume) ∧
      (∀ factor pivot, (∃ a, |factor.get a| < Scalar.ulpOne) →
        m.apply (.scale factor pivot) = .error .zeroScale) ∧
      m.reverseWinding.signedVolume = -m.signedVolume) ∧
    ∀ m n : Mesh K, m.Valid → n.Valid → (m.merge n).signedVolume = m.signedVolume + n.signedVolume := by
  refine ⟨fun m hm h => ⟨h.signedVolume_translate hm, ?_, ?_, ?_, signedVolume_reverseWinding m⟩, ?_⟩
  · exact fun normal point length hlength hnormal => h.signedVolume_mirror hm point hlength hnormal
  · exact fun factor pivot hfactor => ⟨_, apply_scale_eq_ok pivot hfactor, h.signedVolume_scaled hm factor pivot⟩
  · exact fun factor pivot hfactor => apply_scale_eq_error pivot hfactor
  · exact fun m n hm _ => signedVolume_merge hm

end Mesh

/-! ## A tetrahedron -/

/-- Rational numbers with their square roots. -/
@[reducible] def Elementary.rational : Elementary ℚ := { Elementary.none with sqrt := Rat.sqrt }

section

attribute [local instance] Elementary.rational

instance Elementary.trueRoots_rational : Elementary.TrueRoots ℚ where
  sqrt_mul_self {a} ha := (Rat.sqrt_eq a).trans (abs_of_nonneg ha)

namespace Mesh

def tetrahedron : Mesh ℚ :=
  ⟨#[⟨0, 0, 0⟩, ⟨1, 0, 0⟩, ⟨0, 1, 0⟩, ⟨0, 0, 1⟩], #[⟨0, 2, 1⟩, ⟨0, 1, 3⟩, ⟨1, 2, 3⟩, ⟨2, 0, 3⟩], none⟩

theorem valid_tetrahedron : tetrahedron.Valid := ⟨by decide, by rintro _ ⟨⟩⟩

theorem balanced_tetrahedron : tetrahedron.Balanced := by decide

theorem signedVolume_tetrahedron : tetrahedron.signedVolume = 1 / 6 := by decide +kernel

theorem tetrahedron_volumes :
    (tetrahedron.translate ⟨1, 2, 3⟩).signedVolume = 1 / 6 ∧
      (∃ image, tetrahedron.mirror ⟨0, 3, 4⟩ ⟨1, 0, 0⟩ false = .ok image ∧ image.signedVolume = 1 / 6) ∧
      (∃ scaled, tetrahedron.apply (.scale ⟨-2, 3, 1⟩ ⟨1, 1, 1⟩) = .ok scaled ∧ scaled.signedVolume = 1) ∧
      tetrahedron.apply (.scale ⟨1, 0, 1⟩ ⟨1, 1, 1⟩) = .error .zeroScale ∧
      tetrahedron.reverseWinding.signedVolume = -(1 / 6) ∧
      (tetrahedron.merge tetrahedron).signedVolume = 1 / 6 + 1 / 6 := by
  obtain ⟨hmoved, hjoined⟩ := volume_of_moved_and_joined (K := ℚ)
  obtain ⟨htranslated, hmirrored, hscaled, hrefused, hreversed⟩ :=
    hmoved tetrahedron valid_tetrahedron.inRange balanced_tetrahedron
  rw [signedVolume_tetrahedron] at htranslated hreversed
  refine ⟨htranslated _, ?_, ?_, hrefused _ _ ⟨.y, by decide +kernel⟩, hreversed, ?_⟩
  · rw [← signedVolume_tetrahedron]
    exact hmirrored _ _ 5 (by decide +kernel) (by decide +kernel)
  · obtain ⟨scaled, hok, hvolume⟩ := hscaled ⟨-2, 3, 1⟩ ⟨1, 1, 1⟩ fun a => by cases a <;> decide +kernel
    refine ⟨scaled, hok, hvolume.trans ?_⟩
    rw [signedVolume_tetrahedron]
    decide +kernel
  · rw [← signedVolume_tetrahedron]
    exact hjoined _ _ valid_tetrahedron valid_tetrahedron

/-- The factors keep the volume and none of them is zero, but one is refused. -/
theorem tiny_factor_refused :
    tetrahedron.Valid ∧ tetrahedron.Balanced ∧ (∀ a, (⟨1 / 10 ^ 16, 10 ^ 16, 1⟩ : Vec3 ℚ).get a ≠ 0) ∧
      ¬ ∃ scaled, tetrahedron.apply (.scale ⟨1 / 10 ^ 16, 10 ^ 16, 1⟩ ⟨0, 0, 0⟩) = .ok scaled ∧
        scaled.signedVolume = |1 / 10 ^ 16 * 10 ^ 16 * 1| * tetrahedron.signedVolume := by
  refine ⟨valid_tetrahedron, balanced_tetrahedron, fun a => by cases a <;> decide +kernel, ?_⟩
  rintro ⟨scaled, hok, -⟩
  rw [apply_scale_eq_error _ ⟨.x, by decide +kernel⟩] at hok
  cases hok

end Mesh

end

end SolidScript

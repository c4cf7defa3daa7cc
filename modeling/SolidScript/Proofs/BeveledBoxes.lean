import Mathlib.Algebra.Order.Field.Basic
import SolidScript.Proofs.BoxLevels

/-!
# Boxes with all edges cut off

What is left of the faces, the cuts along the edges and the triangles at the corners close around the box, whatever its
proportions are and however deep the cuts.
-/

namespace SolidScript

namespace Chamfer

/-! ## Faces by their levels -/

/-- Where a corner of the box touches the face across an axis. -/
def touchLevels (s : Vec3 Bool) (axis : Axis) : Vec3 Level :=
  ⟨⟨s.x, axis ≠ .x⟩, ⟨s.y, axis ≠ .y⟩, ⟨s.z, axis ≠ .z⟩⟩

def faceLevels (axis : Axis) (side : Bool) : Mesh.Quad Level := .rectangle axis ⟨side, false⟩ fun _ s => ⟨s, true⟩

def bevelLevels (axis : Axis) (su sv : Bool) : Mesh.Quad Level :=
  let corner (side : Bool) (onto : Bool) := Vec3.turn axis ⟨side, true⟩ ⟨su, onto⟩ ⟨sv, !onto⟩
  ⟨corner false false, corner true false, corner true true, corner false true⟩

def cornerLevels (s : Vec3 Bool) : Facet Level := (touchLevels s .x, touchLevels s .y, touchLevels s .z)

def oddSigns (s : Vec3 Bool) : Bool := s.x == (s.y == s.z)

def edgeSigns : List (Bool × Bool) := [(false, false), (true, false), (true, true), (false, true)]

def corners : List (Vec3 Bool) :=
  [⟨false, false, false⟩, ⟨true, false, false⟩, ⟨false, true, false⟩, ⟨true, true, false⟩, ⟨false, false, true⟩,
    ⟨true, false, true⟩, ⟨false, true, true⟩, ⟨true, true, true⟩]

def faceFacets : List (Facet Level) :=
  Axis.all.flatMap fun axis => [false, true].flatMap fun side => ((faceLevels axis side).turned side).facets

def bevelFacets : List (Facet Level) :=
  Axis.all.flatMap fun axis => edgeSigns.flatMap fun (su, sv) => ((bevelLevels axis su sv).turned (su != sv)).facets

def cornerFacets : List (Facet Level) :=
  corners.map fun s => if oddSigns s then cornerLevels s else (cornerLevels s).flip

def facets : List (Facet Level) := faceFacets ++ bevelFacets ++ cornerFacets

theorem sealed_facets : Facet.Sealed facets :=
  Facet.sealed_of_sealedBy Level.numberOf_injective (by decide +kernel)

theorem length_facets : facets.length = 44 := by decide +kernel

/-! ## Faces as they are made -/

variable {K : Type} [Field K] [LinearOrder K] [Elementary K]

def signs (s : Vec3 Bool) : Vec3 K := ⟨sideSign s.x, sideSign s.y, sideSign s.z⟩

theorem touch_eq (center h : Vec3 K) (d : K) (s : Vec3 Bool) (axis : Axis) :
    touch h center d (signs s) axis = Level.spot center h d (touchLevels s axis) := by
  cases axis <;> rfl

theorem signsFrom_eq (axis : Axis) (s t u : Bool) :
    signsFrom axis (sideSign s) (sideSign t) (sideSign u) = (signs (Vec3.turn axis s t u) : Vec3 K) := by
  cases axis <;> rfl

theorem face_eq (center h : Vec3 K) (d : K) (axis : Axis) (side : Bool) :
    face (touch h center d) axis (sideSign side) = (faceLevels axis side).image (Level.spot center h d) := by
  have hcorner (su sv : Bool) : touch h center d (signsFrom axis (sideSign side) (sideSign su) (sideSign sv)) axis =
      Level.spot center h d (Vec3.turn axis ⟨side, false⟩ ⟨su, true⟩ ⟨sv, true⟩) := by
    rw [signsFrom_eq, touch_eq]
    cases axis <;> rfl
  show Mesh.Quad.mk _ _ _ _ = Mesh.Quad.mk _ _ _ _
  rw [Mesh.Quad.mk.injEq]
  exact ⟨hcorner false false, hcorner true false, hcorner true true, hcorner false true⟩

theorem bevel_eq (center h : Vec3 K) (d : K) (axis : Axis) (su sv : Bool) :
    bevel (touch h center d) axis (sideSign su) (sideSign sv) =
      (bevelLevels axis su sv).image (Level.spot center h d) := by
  have hsecond (side : Bool) : touch h center d (signsFrom axis (sideSign side) (sideSign su) (sideSign sv)) axis.next =
      Level.spot center h d (Vec3.turn axis ⟨side, true⟩ ⟨su, false⟩ ⟨sv, true⟩) := by
    rw [signsFrom_eq, touch_eq]
    cases axis <;> rfl
  have hthird (side : Bool) :
      touch h center d (signsFrom axis (sideSign side) (sideSign su) (sideSign sv)) axis.next.next =
        Level.spot center h d (Vec3.turn axis ⟨side, true⟩ ⟨su, true⟩ ⟨sv, false⟩) := by
    rw [signsFrom_eq, touch_eq]
    cases axis <;> rfl
  show Mesh.Quad.mk _ _ _ _ = Mesh.Quad.mk _ _ _ _
  rw [Mesh.Quad.mk.injEq]
  exact ⟨hsecond false, hsecond true, hthird true, hthird false⟩

variable [IsStrictOrderedRing K] {h : Vec3 K} {d : K}

theorem facing_bevel (center : Vec3 K) (hd : 0 < d) (hh : ∀ axis, d < h.get axis) (axis : Axis) (su sv : Bool) :
    (bevel (touch h center d) axis (sideSign su) (sideSign sv)).facing
        (signsFrom axis (Scalar.ofNat 0) (sideSign su) (sideSign sv)) =
      ((bevelLevels axis su sv).turned (su != sv)).image (Level.spot center h d) := by
  have hzero : (Scalar.ofNat 0 : K) = 0 := Nat.cast_zero
  have hsigns : signsFrom axis (0 : K) (sideSign su) (sideSign sv) = Vec3.turn axis 0 (sideSign su) (sideSign sv) := by
    cases axis <;> rfl
  have harea : 0 < 8 * (h.get axis - d) * d := by
    have hwidth := sub_pos.mpr (hh axis)
    positivity
  rw [bevel_eq, hzero, hsigns, Level.image_spot, Level.image_spot, ← Mesh.Quad.image_turned,
    ← Mesh.Quad.image_turned]
  refine Mesh.Quad.facing_eq_turned harea ?_
  rw [Mesh.Quad.normal_image_add]
  simp only [Mesh.Quad.normal, Mesh.Quad.image, bevelLevels, Level.place_turn, Vec3.triangleNormal_turn, Vec3.add_turn,
    Vec3.dot_turn, Level.height, sideSign_eq]
  cases su <;> cases sv <;> simp <;> ring

theorem facing_corner (center : Vec3 K) (hd : 0 < d) (s : Vec3 Bool) :
    Facet.facing (signs s)
        (touch h center d (signs s) .x, touch h center d (signs s) .y, touch h center d (signs s) .z) =
      Facet.map (Level.spot center h d) (if oddSigns s then cornerLevels s else (cornerLevels s).flip) := by
  have hzero : @OfNat.ofNat K 0 (Scalar.instOfNat 0) = 0 := Nat.cast_zero
  have harea : 0 < d * d := mul_pos hd hd
  have hnormal : (Vec3.triangleNormal (touch h center d (signs s) .x) (touch h center d (signs s) .y)
      (touch h center d (signs s) .z)).dot (signs s) = sideSign (oddSigns s) * (3 * (d * d)) := by
    rw [touch_eq, touch_eq, touch_eq]
    unfold Level.spot
    rw [Vec3.triangleNormal_add]
    simp only [Vec3.triangleNormal, Vec3.cross, Vec3.dot, Vec3.sub_eq, Level.place, touchLevels, Level.height,
      signs, sideSign_eq]
    -- With its signs, the product is worked out for each of the eight corners.
    obtain ⟨x, y, z⟩ := s
    cases x <;> cases y <;> cases z <;> simp [oddSigns] <;> ring
  unfold Facet.facing
  rw [hnormal, hzero, sideSign_eq, touch_eq, touch_eq, touch_eq]
  cases oddSigns s
  · rw [if_pos (by simpa using hd.ne')]
    rfl
  · rw [if_neg (by simpa using harea.le)]
    rfl

/-! ## The whole mesh -/

section

variable {m : Mesh K} {shown : List (Facet K)} (center : Vec3 K)

theorem shows_face (hh : ∀ axis, d < h.get axis) (hm : m.Shows shown) (axis : Axis) (side : Bool) :
    (m.addQuadFacing (face (touch h center d) axis (sideSign side)) (Vec3.along axis (sideSign side))).Shows
      (shown ++ ((faceLevels axis side).turned side).facets.map (Facet.map (Level.spot center h d))) := by
  rw [face_eq, Vec3.along_eq_turn]
  refine Level.shows_rectangle center h d hm axis _ (fun axis => ?_) side
  have hpos := hh axis
  simp only [Level.extent, Level.height, sideSign_eq, if_true, Bool.false_eq_true, if_false]
  linarith

theorem shows_bevel (hd : 0 < d) (hh : ∀ axis, d < h.get axis) (hm : m.Shows shown) (axis : Axis) (su sv : Bool) :
    (m.addQuadFacing (bevel (touch h center d) axis (sideSign su) (sideSign sv))
      (signsFrom axis (Scalar.ofNat 0) (sideSign su) (sideSign sv))).Shows
      (shown ++ ((bevelLevels axis su sv).turned (su != sv)).facets.map (Facet.map (Level.spot center h d))) := by
  have hbevel := hm.addQuadFacing (bevel (touch h center d) axis (sideSign su) (sideSign sv))
    (signsFrom axis (Scalar.ofNat 0) (sideSign su) (sideSign sv))
  rwa [facing_bevel center hd hh] at hbevel

theorem shows_corner (hd : 0 < d) (hm : m.Shows shown) (s : Vec3 Bool) :
    (m.addTriangleFacing (touch h center d (signs s) .x) (touch h center d (signs s) .y) (touch h center d (signs s) .z)
      (signs s)).Shows (shown ++ [if oddSigns s then cornerLevels s else (cornerLevels s).flip].map
        (Facet.map (Level.spot center h d))) := by
  have hcorner := hm.addTriangleFacing (touch h center d (signs s) .x, touch h center d (signs s) .y,
    touch h center d (signs s) .z) (signs s)
  rwa [facing_corner center hd] at hcorner

end

theorem all_shows {size : Vec3 K} (center : Vec3 K) {distance : K}
    (hclamp : effectiveDistance size distance true = .ok d) (hd : 0 < d)
    (hh : ∀ axis, d < (BoxFrame.half size).get axis) :
    ∃ m, all size center distance = .ok m ∧
      m.Shows (facets.map (Facet.map (Level.spot center (BoxFrame.half size) d))) := by
  have hpos : ¬ d ≤ @OfNat.ofNat K 0 (Scalar.instOfNat 0) := by
    rw [Scalar.literal_eq, Nat.cast_zero]
    exact hd.not_ge
  have hfinite : Scalar.isFinite distance = true := rfl
  have hclamp : ofAll.effective size distance = .ok d := hclamp
  -- The three loops, each on the mesh that the one before it leaves.
  have hfaces := Mesh.shows_empty.foldl Axis.all fun axis _ hm =>
    hm.foldl [false, true] fun side _ hm => shows_face center hh hm axis side
  have hbevels := hfaces.foldl Axis.all fun axis _ hm =>
    hm.foldl edgeSigns fun signs _ hm => shows_bevel center hd hh hm axis signs.1 signs.2
  have hcorners := hbevels.foldl corners fun s _ hm => shows_corner (h := BoxFrame.half size) center hd hm s
  unfold all EdgeTreatment.apply
  rw [hfinite, hclamp]
  refine ⟨_, if_neg hpos, ?_⟩
  simp only [List.nil_append, ← List.map_flatMap, ← List.map_append] at hcorners
  exact hcorners

/-! ## The volume -/

omit [IsStrictOrderedRing K] in
theorem volume_face (axis : Axis) (side : Bool) :
    Facet.volume (((faceLevels axis side).turned side).facets.map (Facet.map (Level.place h d))) =
      8 * h.get axis * ((h.get axis.next - d) * (h.get axis.next.next - d)) / 6 := by
  rw [faceLevels, Level.volume_rectangle]
  simp only [Level.extent, Level.height, sideSign_eq, if_true, Bool.false_eq_true, if_false]
  cases side
  all_goals
    simp only [if_true, Bool.false_eq_true, if_false]
    ring

omit [IsStrictOrderedRing K] in
theorem volume_bevel (axis : Axis) (su sv : Bool) :
    Facet.volume (((bevelLevels axis su sv).turned (su != sv)).facets.map (Facet.map (Level.place h d))) =
      4 * d * (h.get axis - d) * (h.get axis.next + h.get axis.next.next - d) / 6 := by
  rw [← Mesh.Quad.facets_image, ← Mesh.Quad.image_turned]
  simp only [Mesh.Quad.image, bevelLevels, Level.place_turn]
  cases su <;> cases sv
  all_goals
    simp [Mesh.Quad.turned, Mesh.Quad.facets, Mesh.Quad.reverse, Facet.volume, Facet.cone_turn, Level.height,
      sideSign_eq]
    ring

omit [IsStrictOrderedRing K] in
theorem volume_corner (s : Vec3 Bool) :
    Facet.cone (Facet.map (Level.place h d) (if oddSigns s then cornerLevels s else (cornerLevels s).flip)) =
      d * d * (h.x + h.y + h.z - 2 * d) / 6 := by
  obtain ⟨x, y, z⟩ := s
  cases x <;> cases y <;> cases z
  all_goals
    simp [oddSigns, cornerLevels, touchLevels, Facet.flip, Facet.map, Facet.cone, Vec3.dot, Vec3.cross, Level.place,
      Level.height, sideSign_eq]
    ring

theorem volume_facets : Facet.volume (facets.map (Facet.map (Level.place h d))) =
    8 * (h.x * h.y * h.z) - 4 * d ^ 2 * (h.x + h.y + h.z - 3 * d) - 20 / 3 * d ^ 3 := by
  have hcorners : Facet.volume (cornerFacets.map (Facet.map (Level.place h d))) =
      8 * (d * d * (h.x + h.y + h.z - 2 * d) / 6) := by
    unfold Facet.volume cornerFacets
    rw [List.map_map, List.map_map]
    simp only [Function.comp_def, volume_corner, List.map_const', List.sum_replicate, corners, List.length_cons,
      List.length_nil, nsmul_eq_mul]
    norm_num
  unfold facets
  rw [List.map_append, List.map_append, Facet.volume_append, Facet.volume_append, hcorners]
  simp only [faceFacets, bevelFacets, List.map_flatMap, Facet.volume_flatMap, volume_face, volume_bevel, edgeSigns,
    Axis.all, List.map_cons, List.map_nil, List.sum_cons, List.sum_nil, Axis.next, Vec3.get]
  ring

/-- Cutting off all edges of a box leaves a closed surface of 44 triangles with consistent winding. The volume that it
takes away follows from the lengths of the edges alone. -/
theorem all_edges_cut {size : Vec3 K} (hsize : ∀ axis, size.get axis ≠ 0) (center : Vec3 K) {distance : K}
    (hdistance : 0 < distance) :
    ∃ d m, effectiveDistance size distance true = .ok d ∧ all size center distance = .ok m ∧ m.triangleCount = 44 ∧
      m.identified.isClosed = true ∧ m.identified.hasConsistentWinding = true ∧
      m.signedVolume = |size.x| * |size.y| * |size.z| - 2 * d ^ 2 * (|size.x| + |size.y| + |size.z| - 6 * d) -
        20 / 3 * d ^ 3 := by
  have hlimit : 0 < (allEdgesLimit : K) ∧ (allEdgesLimit : K) < 1 := by
    have hvalue : (allEdgesLimit : K) = (45 : Nat) / 10 ^ 2 := rfl
    rw [hvalue]
    norm_num
  obtain ⟨d, hclamp, hd, hh⟩ := BoxFrame.clamp_inside hsize hlimit hdistance
  obtain ⟨m, hall, hm⟩ := all_shows center hclamp hd hh
  obtain ⟨hclosed, hwinding⟩ := hm.closed sealed_facets hd hh
  refine ⟨d, m, hclamp, hall, ?_, hclosed, hwinding, ?_⟩
  · rw [hm.triangleCount, List.length_map, length_facets]
  · rw [hm.signedVolume sealed_facets, volume_facets, BoxFrame.half_eq]
    ring

section

attribute [local instance] Elementary.rational

theorem long_box_cut :
    ∃ m, all (⟨4, -6, 8⟩ : Vec3 ℚ) ⟨1, 2, 3⟩ (1 / 2) = .ok m ∧ m.triangleCount = 44 ∧ m.identified.isClosed = true ∧
      m.identified.hasConsistentWinding = true ∧ m.signedVolume = 192 - 15 / 2 - 5 / 6 := by
  have hsize (axis : Axis) : (⟨4, -6, 8⟩ : Vec3 ℚ).get axis ≠ 0 := by cases axis <;> decide
  have hdistance : (0 : ℚ) < 1 / 2 := by norm_num
  obtain ⟨d, m, heffective, hall, hcount, hclosed, hwinding, hvolume⟩ := all_edges_cut hsize ⟨1, 2, 3⟩ hdistance
  have hd : (effectiveDistance (⟨4, -6, 8⟩ : Vec3 ℚ) (1 / 2) true).toOption = some (1 / 2) := by decide +kernel
  rw [heffective] at hd
  refine ⟨m, hall, hcount, hclosed, hwinding, ?_⟩
  rw [hvolume, Option.some.inj hd]
  decide +kernel

end

end Chamfer

end SolidScript

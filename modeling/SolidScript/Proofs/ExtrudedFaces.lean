import Mathlib.Algebra.Order.Field.Basic
import SolidScript.Feature.Extrude
import SolidScript.Proofs.BoxLevels

/-!
# Faces that are extruded

Read without rounding, an extruded face moves by what is applied, and the rest of the solid stays. The extent grows by
as much and the center follows by half of it, so that the opposite face keeps its place.
-/

namespace SolidScript

open Extrusion

namespace Vec3

variable {β : Type} (v : Vec3 β) (s t : β) (axis : Axis)

@[simp] theorem get_set : (v.set s axis).get axis = s := by cases axis <;> rfl

@[simp] theorem set_set : (v.set s axis).set t axis = v.set t axis := by cases axis <;> rfl

end Vec3

namespace Face

def opposite : Face → Face
  | top => bottom
  | bottom => top
  | left => right
  | right => left
  | front => back
  | back => front

@[simp] theorem axis_opposite (face : Face) : face.opposite.axis = face.axis := by cases face <;> rfl

end Face

namespace Primitive

variable {α : Type}

/-- The same solid with another extent along an axis, and with its center at another place on it. -/
def reshape (p : Primitive α) (axis : Axis) (extent place : α) : Primitive α :=
  match p with
  | box size center => box (size.set extent axis) (center.set place axis)
  | cylinder radius _ center segments => cylinder radius extent (center.set place axis) segments
  | sphere radius center segments rings => sphere radius (center.set place axis) segments rings
  | cone radius radiusTop _ center segments => cone radius radiusTop extent (center.set place axis) segments

@[simp] theorem center_reshape (p : Primitive α) (axis : Axis) (extent place : α) :
    (p.reshape axis extent place).center.get axis = place := by
  cases p <;> exact Vec3.get_set ..

@[simp] theorem reshape_reshape (p : Primitive α) (axis : Axis) (extent place extent' place' : α) :
    (p.reshape axis extent place).reshape axis extent' place' = p.reshape axis extent' place' := by
  cases p <;> simp only [reshape, Vec3.set_set]

end Primitive

variable {K : Type} [Field K] [LinearOrder K] [Elementary K]

theorem Face.sign_eq (face : Face) : (face.sign : K) = sideSign face.isPositive := rfl

theorem Face.sign_opposite (face : Face) : (face.opposite.sign : K) = -face.sign := by
  rw [sign_eq, sign_eq, ← sideSign_not]
  cases face <;> rfl

/-! ## Where meshes end -/

/-- Some of a mesh lies at a place on the axis of a face, and nothing lies further out. -/
def Mesh.EndsAt (m : Mesh K) (face : Face) (place : K) : Prop :=
  (∃ v ∈ m.vertices, v.get face.axis = place) ∧ ∀ v ∈ m.vertices, face.sign * v.get face.axis ≤ face.sign * place

theorem Mesh.endsAt_of_levels [IsStrictOrderedRing K] {m : Mesh K} {face : Face} {middle half : K} (hhalf : 0 ≤ half)
    (hsome : ∃ v ∈ m.vertices, v.get face.axis = middle + face.sign * half)
    (hall : ∀ v ∈ m.vertices, ∃ positive, v.get face.axis = middle + sideSign positive * half) :
    m.EndsAt face (middle + face.sign * half) := by
  refine ⟨hsome, fun v hv => ?_⟩
  obtain ⟨positive, hlevel⟩ := hall v hv
  rw [hlevel, Face.sign_eq, sideSign_eq, sideSign_eq]
  cases positive <;> cases face.isPositive <;> simp only [if_true, Bool.false_eq_true, if_false] <;> linarith

namespace Primitive

/-! ## Flat faces -/

/-- How far a solid reaches along an axis that has a flat face at either end. -/
def lengthAlong? : Primitive K → Axis → Option K
  | box size _, axis => some |size.get axis|
  | cylinder _ height _ _, .y => some |height|
  | cone _ _ height _ _, .y => some |height|
  | _, _ => none

theorem lengthAlong?_reshape [IsStrictOrderedRing K] {p : Primitive K} {axis : Axis} {old extent : K}
    (h : p.lengthAlong? axis = some old) (hextent : 0 ≤ extent) (place : K) :
    (p.reshape axis extent place).lengthAlong? axis = some extent := by
  cases p with
  | box => simp only [reshape, lengthAlong?, Vec3.get_set, abs_of_nonneg hextent]
  | cylinder | cone =>
    cases axis <;> cases h
    simp only [reshape, lengthAlong?, abs_of_nonneg hextent]
  | sphere => cases h

theorem exists_sign_of_mem_boxSigns {s : Vec3 K} (hs : s ∈ boxSigns) (axis : Axis) :
    ∃ positive, s.get axis = sideSign positive := by
  simp only [boxSigns, List.mem_cons, List.not_mem_nil, or_false] at hs
  rcases hs with rfl | rfl | rfl | rfl | rfl | rfl | rfl | rfl <;> cases axis
  all_goals first | exact ⟨true, rfl⟩ | exact ⟨false, rfl⟩

theorem exists_mem_boxSigns (axis : Axis) (positive : Bool) :
    ∃ s ∈ (boxSigns : List (Vec3 K)), s.get axis = sideSign positive := by
  refine ⟨⟨sideSign positive, sideSign positive, sideSign positive⟩, ?_, by cases axis <;> rfl⟩
  cases positive with
  | true => exact List.mem_of_getElem? (i := 6) rfl
  | false => exact List.mem_of_getElem? (i := 0) rfl

theorem mem_vertices_boxMesh {size center v : Vec3 K} :
    v ∈ (boxMesh size center).vertices ↔
      ∃ s ∈ boxSigns, center + Vec3.zipWith (· * ·) s (BoxFrame.half size) = v := by
  simp [boxMesh, boxSurface, Mesh.recomputeNormals]

theorem get_corner (size center s : Vec3 K) (axis : Axis) :
    (center + Vec3.zipWith (· * ·) s (BoxFrame.half size)).get axis =
      center.get axis + s.get axis * (|size.get axis| / 2) := by
  rw [Vec3.get_add, Vec3.get_zipWith, BoxFrame.get_half]

theorem endsAt_boxMesh [IsStrictOrderedRing K] (size center : Vec3 K) (face : Face) :
    (boxMesh size center).EndsAt face (center.get face.axis + face.sign * (|size.get face.axis| / 2)) := by
  refine Mesh.endsAt_of_levels (by positivity) ?_ fun v hv => ?_
  · obtain ⟨s, hs, hsign⟩ := exists_mem_boxSigns (K := K) face.axis face.isPositive
    refine ⟨_, mem_vertices_boxMesh.mpr ⟨s, hs, rfl⟩, ?_⟩
    rw [get_corner, hsign, Face.sign_eq]
  · obtain ⟨s, hs, rfl⟩ := mem_vertices_boxMesh.mp hv
    obtain ⟨positive, hsign⟩ := exists_sign_of_mem_boxSigns hs face.axis
    exact ⟨positive, by rw [get_corner, hsign]⟩

theorem y_of_mem_circle {center v : Vec3 K} {radius height : K} {n : Nat}
    (hv : v ∈ Round.circle center radius height n) : v.y = center.y + height := by
  obtain ⟨j, -, rfl⟩ := List.mem_map.mp hv
  rfl

theorem vertices_frustum (bottom top height : K) (center : Vec3 K) (segments : Nat) :
    ∃ lower upper, (Round.frustum bottom top height center segments).vertices.toList = lower ++ upper ∧
      (lower ≠ [] ∧ ∀ v ∈ lower, v.y = center.y + sideSign false * (|height| / 2)) ∧
      upper ≠ [] ∧ ∀ v ∈ upper, v.y = center.y + sideSign true * (|height| / 2) := by
  have htwo : @OfNat.ofNat K 2 (Scalar.instOfNat 2) = 2 := Nat.cast_ofNat
  have hhalf : Scalar.magnitude height / @OfNat.ofNat K 2 (Scalar.instOfNat 2) = |height| / 2 := by
    rw [htwo]
    rfl
  have hlower : sideSign false * (|height| / 2) = -(|height| / 2) := by
    rw [sideSign_eq, if_neg Bool.false_ne_true, neg_one_mul]
  have hupper : sideSign true * (|height| / 2) = |height| / 2 := by
    rw [sideSign_eq, if_pos rfl, one_mul]
  rw [hlower, hupper]
  unfold Round.frustum Mesh.recomputeNormals Round.frustumSurface
  dsimp only
  rw [hhalf]
  refine ⟨_, _, rfl, ⟨List.cons_ne_nil _ _, fun v hv => ?_⟩, ?_⟩
  · rcases List.mem_cons.mp hv with rfl | hv
    · rfl
    · exact y_of_mem_circle hv
  -- The top is an apex alone, or a ring around its middle.
  · split
    · refine ⟨List.cons_ne_nil _ _, fun v hv => ?_⟩
      rw [List.mem_singleton.mp hv]
      rfl
    · refine ⟨List.cons_ne_nil _ _, fun v hv => ?_⟩
      rcases List.mem_cons.mp hv with rfl | hv
      · rfl
      · exact y_of_mem_circle hv

theorem endsAt_frustum [IsStrictOrderedRing K] (bottom top height : K) (center : Vec3 K) (segments : Nat) {face : Face}
    (hface : face.axis = .y) :
    (Round.frustum bottom top height center segments).EndsAt face (center.y + face.sign * (|height| / 2)) := by
  obtain ⟨lower, upper, hvertices, ⟨hlower, hlow⟩, hupper, hhigh⟩ := vertices_frustum bottom top height center segments
  have hmem (v : Vec3 K) : v ∈ (Round.frustum bottom top height center segments).vertices ↔ v ∈ lower ∨ v ∈ upper := by
    rw [← Array.mem_toList_iff, hvertices, List.mem_append]
  have hget (v : Vec3 K) : v.get face.axis = v.y := congrArg v.get hface
  refine Mesh.endsAt_of_levels (by positivity) ?_ fun v hv => ?_
  · rw [Face.sign_eq]
    cases face.isPositive with
    | false =>
      obtain ⟨v, hv⟩ := List.exists_mem_of_ne_nil lower hlower
      exact ⟨v, (hmem v).mpr (.inl hv), (hget v).trans (hlow v hv)⟩
    | true =>
      obtain ⟨v, hv⟩ := List.exists_mem_of_ne_nil upper hupper
      exact ⟨v, (hmem v).mpr (.inr hv), (hget v).trans (hhigh v hv)⟩
  · rw [hget]
    rcases (hmem v).mp hv with hv | hv
    · exact ⟨false, hlow v hv⟩
    · exact ⟨true, hhigh v hv⟩

/-- Meshes end at the flat faces of their solids, half the extent away from the center. -/
theorem endsAt_toMesh [IsStrictOrderedRing K] {p : Primitive K} {face : Face} {extent : K}
    (h : p.lengthAlong? face.axis = some extent) :
    p.toMesh.EndsAt face (p.center.get face.axis + face.sign * (extent / 2)) := by
  cases p with
  | box size center =>
    obtain rfl := Option.some.inj h
    exact endsAt_boxMesh size center face
  | cylinder radius height center segments =>
    cases hface : face.axis <;> rw [hface] at h <;> cases h
    exact endsAt_frustum radius radius height center segments hface
  | cone radius radiusTop height center segments =>
    cases hface : face.axis <;> rw [hface] at h <;> cases h
    exact endsAt_frustum radius radiusTop height center segments hface
  | sphere => cases h

/-! ## Moving a face -/

def grown (extent distance : K) : K := max (extent + distance) minExtent

theorem grow_eq (extent distance : K) :
    grow extent distance = (grown extent distance, grown extent distance - extent) := by
  unfold grow grown
  rw [Scalar.greatest_eq_max]

theorem moveCenter_eq (center : Vec3 K) (face : Face) (applied : K) : moveCenter center face applied =
    center.set (center.get face.axis + face.sign * applied / 2) face.axis := by
  have htwo : @OfNat.ofNat K 2 (Scalar.instOfNat 2) = 2 := Nat.cast_ofNat
  unfold moveCenter
  rw [htwo]

/-- The solid after a face has moved: its extent, and its center, which follows the face by half its way. -/
def withFace (p : Primitive K) (face : Face) (extent applied : K) : Primitive K :=
  p.reshape face.axis extent ((moveCenter p.center face applied).get face.axis)

theorem withFace_eq (p : Primitive K) (face : Face) (extent applied : K) : p.withFace face extent applied =
    p.reshape face.axis extent (p.center.get face.axis + face.sign * applied / 2) := by
  unfold withFace
  rw [moveCenter_eq, Vec3.get_set]

theorem center_withFace (p : Primitive K) (face : Face) (extent applied : K) :
    (p.withFace face extent applied).center.get face.axis = p.center.get face.axis + face.sign * applied / 2 := by
  rw [withFace_eq, center_reshape]

theorem extrude_eq (p : Primitive K) (face : Face) (distance : K) : p.extrude face distance =
    match p.lengthAlong? face.axis with
    | some extent => .ok ⟨p.withFace face (grown extent distance) (grown extent distance - extent),
        grown extent distance - extent⟩
    | none => .error (unsupported p face) := by
  have hmagnitude (a : K) : Scalar.magnitude a = |a| := rfl
  have hfinite : (!Scalar.isFinite distance) = false := rfl
  simp only [withFace_eq]
  unfold extrude
  rw [hfinite, if_neg Bool.false_ne_true]
  cases p with
  | box size center =>
    simp only [hmagnitude, grow_eq, moveCenter_eq]
    rfl
  | cylinder radius height center segments =>
    cases hface : face.axis <;> simp only [hmagnitude, grow_eq, moveCenter_eq, hface]
    all_goals rfl
  | cone radius radiusTop height center segments =>
    cases hface : face.axis <;> simp only [hmagnitude, grow_eq, moveCenter_eq, hface]
    all_goals rfl
  | sphere => rfl

theorem extrude_of_le {p : Primitive K} {face : Face} {extent distance : K} (h : p.lengthAlong? face.axis = some extent)
    (hmin : minExtent ≤ extent + distance) :
    p.extrude face distance = .ok ⟨p.withFace face (extent + distance) distance, distance⟩ := by
  have hgrown : grown extent distance = extent + distance := max_eq_left hmin
  rw [extrude_eq, h]
  dsimp only
  rw [hgrown, add_sub_cancel_left]

theorem withFace_withFace (p : Primitive K) (face : Face) (extent extent' applied applied' : K) :
    (p.withFace face extent applied).withFace face extent' applied' = p.withFace face extent' (applied + applied') := by
  simp only [withFace_eq, reshape_reshape, center_reshape]
  congr 1
  ring

section

variable [IsStrictOrderedRing K]

theorem minExtent_pos : (0 : K) < minExtent := by
  have hpos : (0 : K) < ((1 : Nat) : K) / 10 ^ 3 := by positivity
  exact hpos

theorem grown_pos (extent distance : K) : 0 < grown extent distance := lt_max_of_lt_right minExtent_pos

theorem lengthAlong?_withFace {p : Primitive K} {face : Face} {extent : K} (h : p.lengthAlong? face.axis = some extent)
    {longer : K} (hlonger : 0 ≤ longer) (applied : K) :
    (p.withFace face longer applied).lengthAlong? face.axis = some longer :=
  lengthAlong?_reshape h hlonger _

/-- The face has moved outward by as much as the extent has grown, and the opposite face is where it was. -/
theorem endsAt_withFace {p : Primitive K} {face : Face} {extent longer : K} (h : p.lengthAlong? face.axis = some extent)
    (hlonger : 0 ≤ longer) :
    let q := p.withFace face longer (longer - extent)
    q.toMesh.EndsAt face.opposite (p.center.get face.axis + face.opposite.sign * (extent / 2)) ∧
      q.toMesh.EndsAt face (p.center.get face.axis + face.sign * (extent / 2) + face.sign * (longer - extent)) := by
  intro q
  have hextent : q.lengthAlong? face.axis = some longer := lengthAlong?_withFace h hlonger _
  have hcenter : q.center.get face.axis = p.center.get face.axis + face.sign * (longer - extent) / 2 :=
    center_withFace ..
  have hextent_opposite : q.lengthAlong? face.opposite.axis = some longer :=
    (congrArg q.lengthAlong? face.axis_opposite).trans hextent
  have hopposite := endsAt_toMesh hextent_opposite
  have hface := endsAt_toMesh hextent
  rw [Face.axis_opposite, hcenter] at hopposite
  rw [hcenter] at hface
  constructor
  · convert hopposite using 1
    rw [Face.sign_opposite]
    ring
  · convert hface using 1
    ring

/-- An extruded face moves outward by what is applied, which is what the extent grows by. The opposite face stays where
it was, and nothing else changes. Two extrusions of a face make one, unless a face is stopped. -/
theorem extrude_moves_one_face (p : Primitive K) (face : Face) :
    (p.lengthAlong? face.axis = none → ∀ distance, p.extrude face distance = .error (unsupported p face)) ∧
    ∀ extent, p.lengthAlong? face.axis = some extent →
      (∀ distance, ∃ e, p.extrude face distance = .ok e ∧
        e.primitive.lengthAlong? face.axis = some (max (extent + distance) minExtent) ∧
        e.applied = max (extent + distance) minExtent - extent ∧
        e.primitive = p.reshape face.axis (max (extent + distance) minExtent) (e.primitive.center.get face.axis) ∧
        ∃ near far, p.toMesh.EndsAt face.opposite near ∧ e.primitive.toMesh.EndsAt face.opposite near ∧
          p.toMesh.EndsAt face far ∧ e.primitive.toMesh.EndsAt face (far + face.sign * e.applied)) ∧
      ∀ d₁ d₂, minExtent ≤ extent + d₁ → minExtent ≤ extent + d₁ + d₂ → minExtent ≤ extent + (d₁ + d₂) →
        ∃ e₁ e₂ e, p.extrude face d₁ = .ok e₁ ∧ e₁.primitive.extrude face d₂ = .ok e₂ ∧
          p.extrude face (d₁ + d₂) = .ok e ∧ e₂.primitive = e.primitive ∧ e₁.applied + e₂.applied = e.applied := by
  refine ⟨fun h distance => ?_, fun extent h => ⟨fun distance => ?_, fun d₁ d₂ hmin₁ hmin₂ hmin => ?_⟩⟩
  · rw [extrude_eq, h]
  · have hgrown := (grown_pos extent distance).le
    obtain ⟨hnear, hfar⟩ := endsAt_withFace h hgrown
    have h_opposite : p.lengthAlong? face.opposite.axis = some extent :=
      (congrArg p.lengthAlong? face.axis_opposite).trans h
    have hopposite := endsAt_toMesh h_opposite
    rw [Face.axis_opposite] at hopposite
    rw [extrude_eq, h]
    refine ⟨_, rfl, lengthAlong?_withFace h hgrown _, rfl, ?_, _, _, hopposite, hnear, endsAt_toMesh h, hfar⟩
    dsimp only
    rw [withFace, center_reshape]
    rfl
  · have hfirst := lengthAlong?_withFace h (minExtent_pos.le.trans hmin₁) d₁
    refine ⟨_, _, _, extrude_of_le h hmin₁, extrude_of_le hfirst hmin₂, extrude_of_le h hmin, ?_, rfl⟩
    dsimp only
    rw [withFace_withFace, add_assoc]

end

section

attribute [local instance] Elementary.none

/-- The left face of a box is pushed inward and stops before the right one. Pulled outward and pushed back, it moves by
the difference. -/
theorem left_face_moves_alone :
    let p : Primitive ℚ := box ⟨-2, 4, 6⟩ ⟨1, 1, 1⟩
    p.lengthAlong? .x = some 2 ∧
      (∃ e, p.extrude .left (-5) = .ok e ∧ e.applied = 1 / 1000 - 2 ∧
        e.primitive = box ⟨1 / 1000, 4, 6⟩ ⟨3999 / 2000, 1, 1⟩ ∧
        ∃ near far, p.toMesh.EndsAt .right near ∧ e.primitive.toMesh.EndsAt .right near ∧
          p.toMesh.EndsAt .left far ∧ e.primitive.toMesh.EndsAt .left (far + Face.left.sign * e.applied)) ∧
      ∃ e₁ e₂ e, p.extrude .left 3 = .ok e₁ ∧ e₁.primitive.extrude .left (-4) = .ok e₂ ∧
        p.extrude .left (3 + -4) = .ok e ∧ e₂.primitive = e.primitive ∧ e₁.applied + e₂.applied = e.applied := by
  intro p
  have hextent : p.lengthAlong? .x = some 2 := by decide +kernel
  obtain ⟨hmoves, htwice⟩ := (extrude_moves_one_face p .left).2 2 hextent
  obtain ⟨e, he, -, happlied, -, hfaces⟩ := hmoves (-5)
  refine ⟨hextent, ⟨e, he, ?_, ?_, hfaces⟩, htwice 3 (-4) (by decide +kernel) (by decide +kernel) (by decide +kernel)⟩
  · rw [happlied]
    decide +kernel
  · have hbox : (p.extrude .left (-5)).toOption.map Extrusion.primitive =
        some (box ⟨1 / 1000, 4, 6⟩ ⟨3999 / 2000, 1, 1⟩) := by
      decide +kernel
    rw [he] at hbox
    exact Option.some.inj hbox

end

end Primitive

end SolidScript

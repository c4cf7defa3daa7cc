import Mathlib.Algebra.Order.Field.Basic
import SolidScript.Proofs.BoxLevels

/-!
# Hollow boxes

Where a side of a hollow box is open, a rim joins the box to its cavity, and the cavity reaches the outside. A side of
the rim vanishes where the next side of the box is open as well. Whichever sides are open, what is left closes.
-/

namespace SolidScript

def Face.on : Axis → Bool → Face
  | .x, true => right
  | .x, false => left
  | .y, true => top
  | .y, false => bottom
  | .z, true => front
  | .z, false => back

@[simp]
theorem Face.axis_on (axis : Axis) (positive : Bool) : (on axis positive).axis = axis := by
  cases axis <;> cases positive <;> rfl

@[simp]
theorem Face.isPositive_on (axis : Axis) (positive : Bool) : (on axis positive).isPositive = positive := by
  cases axis <;> cases positive <;> rfl

theorem Face.on_axis (face : Face) : Face.on face.axis face.isPositive = face := by
  cases face <;> rfl

def Face.choose {β : Type} (right left top bottom front back : β) : Face → β
  | .right => right
  | .left => left
  | .top => top
  | .bottom => bottom
  | .front => front
  | .back => back

theorem Face.choose_eq {β : Type} (f : Face → β) :
    choose (f .right) (f .left) (f .top) (f .bottom) (f .front) (f .back) = f := by
  funext face
  cases face <;> rfl

namespace Shell

/-! ## Sides by their levels -/

def outerBound (_ : Axis) (positive : Bool) : Level := ⟨positive, false⟩

def innerBound (isOpen : Face → Bool) (axis : Axis) (positive : Bool) : Level :=
  ⟨positive, !isOpen (.on axis positive)⟩

/-- The sides of a rim, each with the face of the box that it lies along. -/
def rimSides (isOpen : Face → Bool) (face : Face) : List (Mesh.Quad Level × Face) :=
  let k := outerBound face.axis face.isPositive
  let u := face.axis.next
  let v := u.next
  (rim (.rectangle face.axis k outerBound) (.rectangle face.axis k (innerBound isOpen))).zip
    [.on v false, .on u true, .on v true, .on u false]

theorem rim_across {β : Type} (axis : Axis) (k : β) (c0 c1 c2 c3 e0 e1 e2 e3 : β × β) :
    rim (.across axis k c0 c1 c2 c3) (.across axis k e0 e1 e2 e3) =
      [.across axis k c0 c1 e1 e0, .across axis k c1 c2 e2 e1, .across axis k c2 c3 e3 e2,
        .across axis k c3 c0 e0 e3] := rfl

def sideFacets (isOpen : Face → Bool) (face : Face) : List (Facet Level) :=
  if isOpen face then
    (rimSides isOpen face).flatMap fun (q, beside) => if isOpen beside then [] else (q.turned face.isPositive).facets
  else
    let outer := Mesh.Quad.rectangle face.axis (outerBound face.axis face.isPositive) outerBound
    let inner := Mesh.Quad.rectangle face.axis (innerBound isOpen face.axis face.isPositive) (innerBound isOpen)
    (outer.turned face.isPositive).facets ++ (inner.turned !face.isPositive).facets

def facets (isOpen : Face → Bool) : List (Facet Level) := Face.all.flatMap (sideFacets isOpen)

theorem sealed_facets (isOpen : Face → Bool) : Facet.Sealed (facets isOpen) := by
  have hall : ∀ right left top bottom front back : Bool,
      Facet.sealedBy Level.numberOf (facets (Face.choose right left top bottom front back)) = true := by
    decide +kernel
  refine Facet.sealed_of_sealedBy Level.numberOf_injective ?_
  rw [← Face.choose_eq isOpen]
  exact hall _ _ _ _ _ _

/-! ## Sides as they are made -/

section

variable {α : Type} [Scalar α]

/-- The rim of an open side, its vanishing sides included. -/
def boxRim (center h : Vec3 α) (cavity : Vec3 α × Vec3 α) (face : Face) : List (Mesh.Quad α) :=
  let plane := face.sign * h.get face.axis
  rim (rectangle center face.axis plane (-h) h) (rectangle center face.axis plane cavity.1 cavity.2)

end

section

variable {K : Type} [Field K]

/-- An open side takes the cavity to the outside there. -/
def reach (h : Vec3 K) (isOpen : Face → Bool) (bounds : Vec3 K × Vec3 K) (face : Face) : Vec3 K × Vec3 K :=
  if !isOpen face then bounds
  else if face.isPositive then (bounds.1, bounds.2.set (h.get face.axis) face.axis)
  else (bounds.1.set (-h.get face.axis) face.axis, bounds.2)

theorem get_reach (h : Vec3 K) (isOpen : Face → Bool) (bounds : Vec3 K × Vec3 K) (face : Face) (axis : Axis) :
    (reach h isOpen bounds face).1.get axis =
        (if isOpen face = true ∧ face = .on axis false then -h.get axis else bounds.1.get axis) ∧
      (reach h isOpen bounds face).2.get axis =
        if isOpen face = true ∧ face = .on axis true then h.get axis else bounds.2.get axis := by
  unfold reach
  cases isOpen face
  · simp
  · cases face <;> cases axis <;> simp [Face.on, Face.isPositive, Face.axis, Vec3.get, Vec3.set]

def gap (t : K) (isOpen : Face → Bool) (face : Face) : K := if isOpen face then 0 else t

variable {t : K} {isOpen : Face → Bool} {face : Face}

theorem gap_of_open (hopen : isOpen face = true) : gap t isOpen face = 0 := if_pos hopen

theorem gap_of_closed (hclosed : isOpen face = false) : gap t isOpen face = t :=
  if_neg (by rw [hclosed]; exact Bool.false_ne_true)

theorem gap_le [LinearOrder K] (isOpen : Face → Bool) (ht : 0 < t) (face : Face) : gap t isOpen face ≤ t := by
  unfold gap
  split
  · exact ht.le
  · exact le_rfl

end

variable {K : Type} [Field K] [LinearOrder K] [Elementary K]

theorem rectangle_eq {center h low high : Vec3 K} {t : K} {bound : Axis → Bool → Level}
    (hlow : ∀ axis, low.get axis = Level.height (h.get axis) t (bound axis false))
    (hhigh : ∀ axis, high.get axis = Level.height (h.get axis) t (bound axis true)) (axis : Axis) (k : Level) :
    rectangle center axis (Level.height (h.get axis) t k) low high =
      (Mesh.Quad.rectangle axis k bound).image (Level.spot center h t) := by
  rw [Level.image_spot, Mesh.Quad.rectangle, Mesh.Quad.image_across]
  have hcorner (plane a b : K) :
      ((Vec3.along axis plane).set a axis.next).set b axis.next.next = Vec3.turn axis plane a b := by
    cases axis <;> rfl
  simp only [rectangle, hcorner, hlow, hhigh]
  rfl

theorem normal_eq (face : Face) : (face.normal : Vec3 K) = Vec3.turn face.axis (sideSign face.isPositive) 0 0 :=
  Vec3.along_eq_turn face.axis face.sign

theorem neg_normal_eq (face : Face) :
    -(face.normal : Vec3 K) = Vec3.turn face.axis (sideSign !face.isPositive) 0 0 := by
  rw [normal_eq, Vec3.neg_turn, neg_zero, sideSign_not]

variable (center h : Vec3 K) (t : K) (isOpen : Face → Bool)

theorem get_cavity (axis : Axis) :
    (cavity h t isOpen).1.get axis = Level.height (h.get axis) t (innerBound isOpen axis false) ∧
      (cavity h t isOpen).2.get axis = Level.height (h.get axis) t (innerBound isOpen axis true) := by
  have hcavity : cavity h t isOpen = Face.all.foldl (reach h isOpen) (-h + Vec3.splat t, h - Vec3.splat t) := rfl
  have hlow : (-h + Vec3.splat t).get axis = -h.get axis + t := by cases axis <;> rfl
  have hhigh : (h - Vec3.splat t).get axis = h.get axis - t := by cases axis <;> rfl
  have hbelow (isOpen : Bool) (a : K) :
      (if isOpen = true then -a else -a + t) = -1 * if (!isOpen) = true then a - t else a := by
    cases isOpen <;> simp [neg_add_eq_sub]
  have habove (isOpen : Bool) (a : K) :
      (if isOpen = true then a else a - t) = 1 * if (!isOpen) = true then a - t else a := by
    cases isOpen <;> simp
  rw [hcavity]
  simp only [Face.all, List.foldl_cons, List.foldl_nil, fun bounds face => (get_reach h isOpen bounds face axis).1,
    fun bounds face => (get_reach h isOpen bounds face axis).2, hlow, hhigh, Level.height, innerBound, sideSign_eq]
  cases axis
  all_goals
    simp only [Face.on, reduceCtorEq, and_false, and_true, if_true, if_false, Bool.false_eq_true]
    exact ⟨hbelow _ _, habove _ _⟩

theorem outer_eq (face : Face) : rectangle center face.axis (face.sign * h.get face.axis) (-h) h =
    (Mesh.Quad.rectangle face.axis (outerBound face.axis face.isPositive) outerBound).image
      (Level.spot center h t) := by
  refine rectangle_eq (fun axis => ?_) (fun axis => ?_) face.axis (outerBound face.axis face.isPositive)
  all_goals simp [Level.height, outerBound, sideSign_eq]

theorem inner_eq (axis : Axis) (k : Level) :
    rectangle center axis (Level.height (h.get axis) t k) (cavity h t isOpen).1 (cavity h t isOpen).2 =
      (Mesh.Quad.rectangle axis k (innerBound isOpen)).image (Level.spot center h t) :=
  rectangle_eq (fun axis => (get_cavity h t isOpen axis).1) (fun axis => (get_cavity h t isOpen axis).2) axis k

theorem boxRim_eq (face : Face) : boxRim center h (cavity h t isOpen) face =
    (rimSides isOpen face).map fun side => side.1.image (Level.spot center h t) := by
  have hinner := inner_eq center h t isOpen face.axis (outerBound face.axis face.isPositive)
  unfold boxRim
  dsimp only
  rw [outer_eq center h t]
  exact congrArg (rim _) hinner

/-! ## Which sides of a rim vanish -/

variable {h t isOpen}

theorem gap_below (axis : Axis) : gap t isOpen (.on axis false) =
    Level.height (h.get axis) t (innerBound isOpen axis false) -
      Level.height (h.get axis) t (outerBound axis false) := by
  unfold gap Level.height innerBound outerBound
  cases isOpen (.on axis false) <;> simp [sideSign_eq]

theorem gap_above (axis : Axis) : gap t isOpen (.on axis true) =
    Level.height (h.get axis) t (outerBound axis true) -
      Level.height (h.get axis) t (innerBound isOpen axis true) := by
  unfold gap Level.height innerBound outerBound
  cases isOpen (.on axis true) <;> simp [sideSign_eq]

theorem extent_outer (axis : Axis) : Level.extent h t outerBound axis = 2 * h.get axis := by
  simp only [Level.extent, Level.height, outerBound, sideSign_eq, if_true, Bool.false_eq_true, if_false]
  ring

theorem extent_inner (axis : Axis) : Level.extent h t (innerBound isOpen) axis =
    2 * h.get axis - gap t isOpen (.on axis false) - gap t isOpen (.on axis true) := by
  rw [gap_below (h := h), gap_above (h := h), ← extent_outer (t := t)]
  unfold Level.extent
  ring

/-- A quad across an axis with two parallel sides that are so far apart. -/
def Trapezoid (axis : Axis) (width : K) (q : Mesh.Quad K) : Prop :=
  ∃ k c0 c1 c2 c3 a b, q = .across axis k c0 c1 c2 c3 ∧ 0 < a ∧ 0 < b ∧
    Mesh.Quad.twiceArea c0 c1 c2 = a * width ∧ Mesh.Quad.twiceArea c0 c2 c3 = b * width

section

variable [IsStrictOrderedRing K]

theorem extent_outer_pos (ht : 0 < t) (hh : ∀ axis, t < h.get axis) (axis : Axis) :
    0 < Level.extent h t outerBound axis := by
  rw [extent_outer]
  linarith [hh axis]

theorem extent_inner_pos (isOpen : Face → Bool) (ht : 0 < t) (hh : ∀ axis, t < h.get axis) (axis : Axis) :
    0 < Level.extent h t (innerBound isOpen) axis := by
  rw [extent_inner]
  linarith [hh axis, gap_le isOpen ht (.on axis false), gap_le isOpen ht (.on axis true)]

theorem trapezoid_of_mem (ht : 0 < t) (hh : ∀ axis, t < h.get axis) {face : Face} {side : Mesh.Quad Level × Face}
    (hside : side ∈ rimSides isOpen face) :
    Trapezoid face.axis (gap t isOpen side.2) (side.1.image (Level.place h t)) := by
  have houter := extent_outer_pos ht hh
  have hinner := extent_inner_pos isOpen ht hh
  simp only [rimSides, rim, Mesh.Quad.rectangle, List.zip_cons_cons, List.zip_nil_right, List.mem_cons,
    List.not_mem_nil, or_false] at hside
  -- The four sides of the rim, by the axis along which they are narrow and by the end at which they lie.
  rcases hside with rfl | rfl | rfl | rfl
  · refine ⟨_, _, _, _, _, _, _, Mesh.Quad.image_across .., houter face.axis.next, hinner face.axis.next, ?_, ?_⟩
    all_goals
      simp only [gap_below (h := h), Mesh.Quad.twiceArea, Level.extent]
      ring
  · refine ⟨_, _, _, _, _, _, _, Mesh.Quad.image_across .., houter face.axis.next.next, hinner face.axis.next.next,
      ?_, ?_⟩
    all_goals
      simp only [gap_above (h := h), Mesh.Quad.twiceArea, Level.extent]
      ring
  · refine ⟨_, _, _, _, _, _, _, Mesh.Quad.image_across .., houter face.axis.next, hinner face.axis.next, ?_, ?_⟩
    all_goals
      simp only [gap_above (h := h), Mesh.Quad.twiceArea, Level.extent]
      ring
  · refine ⟨_, _, _, _, _, _, _, Mesh.Quad.image_across .., houter face.axis.next.next, hinner face.axis.next.next,
      ?_, ?_⟩
    all_goals
      simp only [gap_below (h := h), Mesh.Quad.twiceArea, Level.extent]
      ring

namespace Trapezoid

variable {axis : Axis} {width : K} {q : Mesh.Quad K}

theorem volume_eq_zero (hq : Trapezoid axis 0 q) (positive : Bool) : Facet.volume (q.turned positive).facets = 0 := by
  obtain ⟨k, c0, c1, c2, c3, a, b, rfl, -, -, hfirst, hsecond⟩ := hq
  rw [Mesh.Quad.volume_across, hfirst, hsecond]
  ring

theorem facing_eq (hq : Trapezoid axis width q) (hwidth : 0 < width) (center : Vec3 K) (positive : Bool) :
    (q.image (center + ·)).facing (Vec3.turn axis (sideSign positive) 0 0) =
      (q.turned positive).image (center + ·) := by
  obtain ⟨k, c0, c1, c2, c3, a, b, rfl, ha, hb, hfirst, hsecond⟩ := hq
  refine Mesh.Quad.facing_across _ _ _ _ _ _ center positive ?_
  rw [hfirst, hsecond]
  positivity

variable [Elementary.TrueRoots K]

theorem quadArea_eq (hq : Trapezoid axis width q) (hwidth : 0 ≤ width) (center : Vec3 K) :
    ∃ a, 0 < a ∧ quadArea (q.image (center + ·)) = a * width := by
  have htwo : @OfNat.ofNat K 2 (Scalar.instOfNat 2) = 2 := Nat.cast_ofNat
  have hnorm {s : K} (hs : 0 ≤ s) : (Vec3.turn axis s 0 0).norm = s := by
    show Elementary.sqrt _ = s
    rw [Vec3.dot_turn, mul_zero, add_zero, add_zero, Elementary.TrueRoots.sqrt_mul_self hs]
  obtain ⟨k, c0, c1, c2, c3, a, b, rfl, ha, hb, hfirst, hsecond⟩ := hq
  refine ⟨(a + b) / 2, by positivity, ?_⟩
  unfold quadArea
  simp only [Mesh.Quad.image, Mesh.Quad.across, Vec3.triangleNormal_add, Mesh.Quad.triangleNormal_across, htwo]
  rw [hfirst, hsecond, hnorm (mul_nonneg ha.le hwidth), hnorm (mul_nonneg hb.le hwidth)]
  ring

end Trapezoid

/-! ## The whole mesh -/

variable {m : Mesh K} {shown : List (Facet K)} {center : Vec3 K}

theorem shows_closed (ht : 0 < t) (hh : ∀ axis, t < h.get axis) {face : Face} (hclosed : isOpen face = false)
    (hm : m.Shows shown) : (addBoxSide center h (cavity h t isOpen) isOpen m face).Shows
      (shown ++ (sideFacets isOpen face).map (Facet.map (Level.spot center h t))) := by
  have hplane : (if face.isPositive then (cavity h t isOpen).2 else (cavity h t isOpen).1).get face.axis =
      Level.height (h.get face.axis) t (innerBound isOpen face.axis face.isPositive) := by
    obtain ⟨hlow, hhigh⟩ := get_cavity h t isOpen face.axis
    cases face.isPositive
    · exact hlow
    · exact hhigh
  have hfaces := Level.shows_rectangle center h t
    (Level.shows_rectangle center h t hm face.axis (outerBound face.axis face.isPositive)
      (extent_outer_pos ht hh) face.isPositive)
    face.axis (innerBound isOpen face.axis face.isPositive) (extent_inner_pos isOpen ht hh)
    (!face.isPositive)
  rw [← outer_eq center h t, ← inner_eq center h t, ← hplane, ← normal_eq, ← neg_normal_eq, List.append_assoc,
    ← List.map_append] at hfaces
  have hnot : ¬ isOpen face = true := by
    rw [hclosed]
    exact Bool.false_ne_true
  have hside : addBoxSide center h (cavity h t isOpen) isOpen m face = _ := if_neg hnot
  have hfacets : sideFacets isOpen face = _ := if_neg hnot
  rw [hside, hfacets]
  exact hfaces

theorem ulpOne_pos : (0 : K) < Scalar.ulpOne := by
  show (0 : K) < 1 / 2 ^ 52
  positivity

section

variable [Elementary.TrueRoots K]

theorem shows_rimSide (ht : 0 < t) {face beside : Face} {q : Mesh.Quad Level}
    (hq : Trapezoid face.axis (gap t isOpen beside) (q.image (Level.place h t)))
    (hbound : 0 < quadArea (q.image (Level.spot center h t)) →
      Scalar.ulpOne < quadArea (q.image (Level.spot center h t))) (hm : m.Shows shown) :
    (if Scalar.ulpOne < quadArea (q.image (Level.spot center h t)) then
        m.addQuadFacing (q.image (Level.spot center h t)) face.normal else m).Shows
      (shown ++ (if isOpen beside then [] else (q.turned face.isPositive).facets).map
        (Facet.map (Level.spot center h t))) := by
  rw [Level.image_spot] at hbound ⊢
  cases hbeside : isOpen beside
  · rw [gap_of_closed hbeside] at hq
    obtain ⟨a, ha, harea⟩ := hq.quadArea_eq ht.le center
    have hquad := hm.addQuadFacing ((q.image (Level.place h t)).image (center + ·)) face.normal
    rw [normal_eq, hq.facing_eq ht, ← normal_eq, Mesh.Quad.image_turned] at hquad
    rw [if_pos (hbound (by rw [harea]; positivity)), if_neg Bool.false_ne_true]
    exact hquad
  · rw [gap_of_open hbeside] at hq
    obtain ⟨a, -, harea⟩ := hq.quadArea_eq le_rfl center
    rw [harea, mul_zero, if_neg ulpOne_pos.not_gt, if_pos rfl, List.map_nil, List.append_nil]
    exact hm

theorem shows_open (ht : 0 < t) (hh : ∀ axis, t < h.get axis) {face : Face} (hopen : isOpen face = true)
    (hrim : ∀ q ∈ boxRim center h (cavity h t isOpen) face, 0 < quadArea q → Scalar.ulpOne < quadArea q)
    (hm : m.Shows shown) : (addBoxSide center h (cavity h t isOpen) isOpen m face).Shows
      (shown ++ (sideFacets isOpen face).map (Facet.map (Level.spot center h t))) := by
  have hside : addBoxSide center h (cavity h t isOpen) isOpen m face =
      (boxRim center h (cavity h t isOpen) face).foldl
        (fun m q => if Scalar.ulpOne < quadArea q then m.addQuadFacing q face.normal else m) m := if_pos hopen
  rw [boxRim_eq] at hside hrim
  rw [hside, List.foldl_map, sideFacets, if_pos hopen, List.map_flatMap]
  exact hm.foldl _ fun side hmem hm =>
    shows_rimSide ht (trapezoid_of_mem ht hh hmem) (hrim _ (List.mem_map_of_mem hmem)) hm

end

/-! ## The volume -/

/-- The volume over one side, which is the same for a rim as for two faces. -/
def sideVolume (h : Vec3 K) (t : K) (isOpen : Face → Bool) (face : Face) : K :=
  let u := face.axis.next
  let v := u.next
  sideSign face.isPositive * (Level.height (h.get face.axis) t (outerBound face.axis face.isPositive) *
      (Level.extent h t outerBound u * Level.extent h t outerBound v) -
    Level.height (h.get face.axis) t (innerBound isOpen face.axis face.isPositive) *
      (Level.extent h t (innerBound isOpen) u * Level.extent h t (innerBound isOpen) v)) / 3

theorem volume_closed {face : Face} (hclosed : isOpen face = false) :
    Facet.volume ((sideFacets isOpen face).map (Facet.map (Level.place h t))) = sideVolume h t isOpen face := by
  rw [sideFacets, if_neg (by rw [hclosed]; exact Bool.false_ne_true), List.map_append, Facet.volume_append,
    Level.volume_rectangle, Level.volume_rectangle, sideSign_not, sideVolume]
  ring

theorem volume_open (ht : 0 < t) (hh : ∀ axis, t < h.get axis) {face : Face} (hopen : isOpen face = true) :
    Facet.volume ((sideFacets isOpen face).map (Facet.map (Level.place h t))) = sideVolume h t isOpen face := by
  have hbound : innerBound isOpen face.axis face.isPositive = outerBound face.axis face.isPositive := by
    rw [innerBound, Face.on_axis, hopen]
    rfl
  -- What is left out of the rim has no volume over it, so all four sides may be counted.
  have hside (side : Mesh.Quad Level × Face) (hmem : side ∈ rimSides isOpen face) :
      Facet.volume ((if isOpen side.2 then [] else (side.1.turned face.isPositive).facets).map
        (Facet.map (Level.place h t))) =
      Facet.volume (((side.1.image (Level.place h t)).turned face.isPositive).facets) := by
    cases hbeside : isOpen side.2
    · rw [if_neg Bool.false_ne_true, ← Mesh.Quad.facets_image, Mesh.Quad.image_turned]
    · have hvanishes := trapezoid_of_mem ht hh hmem
      rw [gap_of_open hbeside] at hvanishes
      rw [if_pos rfl, hvanishes.volume_eq_zero]
      rfl
  rw [sideFacets, if_pos hopen, List.map_flatMap, Facet.volume_flatMap, List.map_congr_left hside, sideVolume, hbound]
  simp only [rimSides, Mesh.Quad.rectangle, rim_across, List.zip_cons_cons, List.zip_nil_right, List.map_cons,
    List.map_nil, List.sum_cons, List.sum_nil, Mesh.Quad.image_across, Mesh.Quad.volume_across, Mesh.Quad.twiceArea,
    Level.extent]
  ring

theorem sideVolume_pair (axis : Axis) : sideVolume h t isOpen (.on axis true) + sideVolume h t isOpen (.on axis false) =
    (8 * (h.get axis * h.get axis.next * h.get axis.next.next) - Level.extent h t (innerBound isOpen) axis *
      Level.extent h t (innerBound isOpen) axis.next * Level.extent h t (innerBound isOpen) axis.next.next) / 3 := by
  have hextent : Level.extent h t (innerBound isOpen) axis = Level.height (h.get axis) t (innerBound isOpen axis true) -
    Level.height (h.get axis) t (innerBound isOpen axis false) := rfl
  have houter (positive : Bool) : Level.height (h.get axis) t (outerBound axis positive) =
    sideSign positive * h.get axis := rfl
  simp only [sideVolume, Face.axis_on, Face.isPositive_on, extent_outer, houter, hextent, sideSign_eq, if_true,
    Bool.false_eq_true, if_false]
  ring

theorem volume_facets (ht : 0 < t) (hh : ∀ axis, t < h.get axis) :
    Facet.volume ((facets isOpen).map (Facet.map (Level.place h t))) =
      8 * (h.x * h.y * h.z) - Level.extent h t (innerBound isOpen) .x * Level.extent h t (innerBound isOpen) .y *
        Level.extent h t (innerBound isOpen) .z := by
  have hside (face : Face) :
      Facet.volume ((sideFacets isOpen face).map (Facet.map (Level.place h t))) = sideVolume h t isOpen face := by
    cases hface : isOpen face
    · exact volume_closed hface
    · exact volume_open ht hh hface
  unfold facets
  rw [List.map_flatMap, Facet.volume_flatMap]
  have hx : sideVolume h t isOpen .right + sideVolume h t isOpen .left = _ := sideVolume_pair .x
  have hy : sideVolume h t isOpen .top + sideVolume h t isOpen .bottom = _ := sideVolume_pair .y
  have hz : sideVolume h t isOpen .front + sideVolume h t isOpen .back = _ := sideVolume_pair .z
  simp only [hside, Face.all, List.map_cons, List.map_nil, List.sum_cons, List.sum_nil]
  simp only [Vec3.get, Axis.next] at hx hy hz
  linear_combination hx + hy + hz

/-! ## Hollowing out -/

def closedCount (openFaces : List Face) (axis : Axis) : Nat :=
  Face.all.countP fun face => face.axis = axis ∧ face ∉ openFaces

theorem closedCount_eq (openFaces : List Face) (axis : Axis) : closedCount openFaces axis =
    (if Face.on axis false ∈ openFaces then 0 else 1) + if Face.on axis true ∈ openFaces then 0 else 1 := by
  unfold closedCount
  cases axis <;> simp [Face.all, Face.axis, Face.on, List.countP_cons] <;> congr

theorem extent_eq_closedCount (openFaces : List Face) (axis : Axis) :
    Level.extent h t (innerBound openFaces.contains) axis = 2 * h.get axis - t * closedCount openFaces axis := by
  have hgap (face : Face) :
      gap t openFaces.contains face = t * ((if face ∈ openFaces then 0 else 1 : Nat) : K) := by
    unfold gap
    simp only [List.contains_iff_mem]
    split <;> simp
  rw [extent_inner, closedCount_eq, Nat.cast_add, hgap, hgap]
  ring

theorem box_shows [Elementary.TrueRoots K] {size : Vec3 K} {thickness : K} {openFaces : List Face}
    (hclamp : boxThickness size thickness = .ok t) (ht : 0 < t) (hh : ∀ axis, t < (BoxFrame.half size).get axis)
    (hrim : ∀ face ∈ openFaces, ∀ q ∈ boxRim center (BoxFrame.half size)
      (cavity (BoxFrame.half size) t openFaces.contains) face, 0 < quadArea q → Scalar.ulpOne < quadArea q) :
    ∃ m, box size center thickness openFaces = .ok m ∧
      m.Shows ((facets openFaces.contains).map (Facet.map (Level.spot center (BoxFrame.half size) t))) := by
  have hfinite : checkThickness thickness = .ok () := rfl
  have hside {m : Mesh K} {shown : List (Facet K)} (face : Face) (hm : m.Shows shown) :
      (addBoxSide center (BoxFrame.half size) (cavity (BoxFrame.half size) t openFaces.contains) openFaces.contains m
        face).Shows (shown ++ (sideFacets openFaces.contains face).map
          (Facet.map (Level.spot center (BoxFrame.half size) t))) := by
    cases hface : openFaces.contains face
    · exact shows_closed ht hh hface hm
    · exact shows_open ht hh hface (hrim face (List.contains_iff_mem.mp hface)) hm
  unfold box
  rw [hfinite, hclamp]
  refine ⟨_, rfl, ?_⟩
  rw [facets, List.map_flatMap]
  exact Mesh.shows_empty.foldl Face.all fun face _ hm => hside face hm

/-- Whichever sides are open, a hollow box is a closed surface with consistent winding, if no side of a rim is left out
for being small. The cavity keeps away by the thickness from each closed side. -/
theorem hollow_box_closes [Elementary.TrueRoots K] {size : Vec3 K} (hsize : ∀ axis, size.get axis ≠ 0) (center : Vec3 K)
    {thickness : K} (hthickness : 0 < thickness) (openFaces : List Face) :
    ∃ t, boxThickness size thickness = .ok t ∧
      ((∀ face ∈ openFaces, ∀ q ∈ boxRim center (BoxFrame.half size)
          (cavity (BoxFrame.half size) t openFaces.contains) face, 0 < quadArea q → Scalar.ulpOne < quadArea q) →
        ∃ m, box size center thickness openFaces = .ok m ∧ m.identified.isClosed = true ∧
          m.identified.hasConsistentWinding = true ∧
          m.signedVolume = |size.x * size.y * size.z| - (|size.x| - t * closedCount openFaces .x) *
            (|size.y| - t * closedCount openFaces .y) * (|size.z| - t * closedCount openFaces .z)) := by
  have hlimit : 0 < (thicknessLimit : K) ∧ (thicknessLimit : K) < 1 := by
    have hvalue : (thicknessLimit : K) = (9 : Nat) / 10 ^ 1 := rfl
    rw [hvalue]
    norm_num
  obtain ⟨t, hclamp, ht, hh⟩ := BoxFrame.clamp_inside hsize hlimit hthickness
  refine ⟨t, hclamp, fun hrim => ?_⟩
  obtain ⟨m, hbox, hm⟩ := box_shows hclamp ht hh hrim
  obtain ⟨hclosed, hwinding⟩ := hm.closed (sealed_facets _) ht hh
  refine ⟨m, hbox, hclosed, hwinding, ?_⟩
  rw [hm.signedVolume (sealed_facets _), volume_facets ht hh, extent_eq_closedCount, extent_eq_closedCount,
    extent_eq_closedCount, BoxFrame.half_eq]
  simp only [Vec3.get, abs_mul]
  ring

end

section

attribute [local instance] Elementary.rational

theorem corner_box_closes :
    ∃ m, box (⟨2, -4, 6⟩ : Vec3 ℚ) ⟨1, 1, 1⟩ (1 / 2) [.top, .right, .top] = .ok m ∧ m.identified.isClosed = true ∧
      m.identified.hasConsistentWinding = true ∧ m.signedVolume = 48 - 3 / 2 * (7 / 2) * 5 := by
  have hsize (axis : Axis) : (⟨2, -4, 6⟩ : Vec3 ℚ).get axis ≠ 0 := by cases axis <;> decide
  have hthickness : (0 : ℚ) < 1 / 2 := by norm_num
  obtain ⟨t, hclamp, hbox⟩ := hollow_box_closes hsize ⟨1, 1, 1⟩ hthickness [.top, .right, .top]
  have ht : (boxThickness (⟨2, -4, 6⟩ : Vec3 ℚ) (1 / 2)).toOption = some (1 / 2) := by decide +kernel
  rw [hclamp] at ht
  obtain rfl := Option.some.inj ht
  obtain ⟨m, hok, hclosed, hwinding, hvolume⟩ := hbox (by decide +kernel)
  refine ⟨m, hok, hclosed, hwinding, hvolume.trans ?_⟩
  decide +kernel

end

end Shell

end SolidScript

import Mathlib.Algebra.Order.Field.Basic
import SolidScript.Feature.EdgeTreatment
import SolidScript.Feature.Shell
import SolidScript.Proofs.KnownFacets

/-!
# Corners on levels

A hollow box and a beveled box have their corners on four levels along each axis: the two sides of the box, and the same
moved inward by one distance. Which levels its faces join does not depend on the size of the box, and different levels
stay apart. So whether the faces close is a finite question.
-/

namespace SolidScript

/-! ## Components from one axis on -/

namespace Vec3

variable {β : Type}

def turn (axis : Axis) (a b c : β) : Vec3 β :=
  match axis with
  | .x => ⟨a, b, c⟩
  | .y => ⟨c, a, b⟩
  | .z => ⟨b, c, a⟩

variable {K : Type} [Field K] [LinearOrder K] [Elementary K] (axis : Axis) (a b c a' b' c' : K)

theorem dot_turn : (turn axis a b c).dot (turn axis a' b' c') = a * a' + b * b' + c * c' := by
  cases axis <;> simp only [turn, dot] <;> ring

theorem cross_turn : (turn axis a b c).cross (turn axis a' b' c') =
    turn axis (b * c' - c * b') (c * a' - a * c') (a * b' - b * a') := by
  cases axis <;> rfl

theorem sub_turn : turn axis a b c - turn axis a' b' c' = turn axis (a - a') (b - b') (c - c') := by
  cases axis <;> rfl

theorem add_turn : turn axis a b c + turn axis a' b' c' = turn axis (a + a') (b + b') (c + c') := by
  cases axis <;> rfl

theorem neg_turn : -turn axis a b c = turn axis (-a) (-b) (-c) := by
  cases axis <;> rfl

theorem add_swap (v w : Vec3 K) : v + w = w + v := by
  rw [add_eq, add_eq, add_comm v.x, add_comm v.y, add_comm v.z]

theorem shift_injective (u : Vec3 K) : Function.Injective (u + ·) := by
  rintro ⟨x, y, z⟩ ⟨x', y', z'⟩ h
  obtain ⟨hx, hy, hz⟩ := mk.inj h
  rw [mk.injEq]
  exact ⟨add_left_cancel hx, add_left_cancel hy, add_left_cancel hz⟩

theorem along_eq_turn (s : K) : along axis s = turn axis s 0 0 := by
  have hzero : @OfNat.ofNat K 0 (Scalar.instOfNat 0) = 0 := Nat.cast_zero
  unfold along zero
  rw [hzero]
  cases axis <;> rfl

theorem triangleNormal_turn (a b c a' b' c' a'' b'' c'' : K) :
    triangleNormal (turn axis a b c) (turn axis a' b' c') (turn axis a'' b'' c'') =
      turn axis ((b' - b) * (c'' - c) - (c' - c) * (b'' - b)) ((c' - c) * (a'' - a) - (a' - a) * (c'' - c))
        ((a' - a) * (b'' - b) - (b' - b) * (a'' - a)) := by
  rw [triangleNormal, sub_turn, sub_turn, cross_turn]

theorem triangleNormal_add (center p q r : Vec3 K) :
    triangleNormal (center + p) (center + q) (center + r) = triangleNormal p q r := by
  simp only [triangleNormal, cross, add_eq, sub_eq, mk.injEq]
  refine ⟨?_, ?_, ?_⟩ <;> ring

end Vec3

theorem Facet.cone_turn {K : Type} [Field K] [LinearOrder K] [Elementary K] (axis : Axis)
    (a b c a' b' c' a'' b'' c'' : K) :
    Facet.cone (Vec3.turn axis a b c, Vec3.turn axis a' b' c', Vec3.turn axis a'' b'' c'') =
      (a * (b' * c'' - c' * b'') + b * (c' * a'' - a' * c'') + c * (a' * b'' - b' * a'')) / 6 := by
  rw [cone, Vec3.cross_turn, Vec3.dot_turn]

/-! ## Levels -/

open Scalar in
def sideSign {α : Type} [Scalar α] (positive : Bool) : α := if positive then 1 else -1

section

variable {K : Type} [Field K] [LinearOrder K] [Elementary K] (positive : Bool)

theorem sideSign_eq : (sideSign positive : K) = if positive then 1 else -1 := by
  have hone : @OfNat.ofNat K 1 (Scalar.instOfNat 1) = 1 := Nat.cast_one
  unfold sideSign
  rw [hone]

theorem sideSign_not : (sideSign (!positive) : K) = -sideSign positive := by
  rw [sideSign_eq, sideSign_eq]
  cases positive <;> simp

end

/-- A place along an axis: at one side of a box, or inward of it. -/
structure Level where
  positive : Bool
  inner : Bool

namespace Level

def number : Level → Nat
  | ⟨false, false⟩ => 0
  | ⟨false, true⟩ => 1
  | ⟨true, true⟩ => 2
  | ⟨true, false⟩ => 3

def numberOf (p : Vec3 Level) : Nat := 16 * p.x.number + 4 * p.y.number + p.z.number

theorem number_lt (l : Level) : l.number < 4 := by
  obtain ⟨positive, inner⟩ := l
  cases positive <;> cases inner <;> decide

theorem number_injective : Function.Injective number := by
  rintro ⟨_ | _, _ | _⟩ ⟨_ | _, _ | _⟩ h
  all_goals first | rfl | exact absurd h (by decide)

theorem numberOf_injective : Function.Injective numberOf := by
  intro p q h
  have hp := And.intro (number_lt p.x) (And.intro (number_lt p.y) (number_lt p.z))
  have hq := And.intro (number_lt q.x) (And.intro (number_lt q.y) (number_lt q.z))
  unfold numberOf at h
  have hx : p.x = q.x := number_injective (by omega)
  have hy : p.y = q.y := number_injective (by omega)
  have hz : p.z = q.z := number_injective (by omega)
  cases p
  cases q
  simp_all

variable {K : Type} [Field K] [LinearOrder K] [Elementary K]

def height (h d : K) (l : Level) : K := sideSign l.positive * if l.inner then h - d else h

def place (h : Vec3 K) (d : K) (p : Vec3 Level) : Vec3 K := ⟨height h.x d p.x, height h.y d p.y, height h.z d p.z⟩

theorem place_turn (h : Vec3 K) (d : K) (axis : Axis) (p q r : Level) :
    place h d (Vec3.turn axis p q r) = Vec3.turn axis (height (h.get axis) d p) (height (h.get axis.next) d q)
      (height (h.get axis.next.next) d r) := by
  cases axis <;> rfl

variable [IsStrictOrderedRing K]

theorem height_injective {h d : K} (hd : 0 < d) (hh : d < h) : Function.Injective (height h d) := by
  rintro ⟨_ | _, _ | _⟩ ⟨_ | _, _ | _⟩ heq
  all_goals first
    | rfl
    | exfalso
      simp only [height, sideSign_eq, if_true, Bool.false_eq_true, if_false] at heq
      linarith

theorem place_injective {h : Vec3 K} {d : K} (hd : 0 < d) (hh : ∀ axis, d < h.get axis) :
    Function.Injective (place h d) := by
  rintro ⟨x, y, z⟩ ⟨x', y', z'⟩ heq
  obtain ⟨hx, hy, hz⟩ := Vec3.mk.inj heq
  obtain rfl := height_injective hd (hh .x) hx
  obtain rfl := height_injective hd (hh .y) hy
  obtain rfl := height_injective hd (hh .z) hz
  rfl

end Level

/-! ## Quads across an axis -/

namespace Mesh.Quad

variable {β : Type}

def across (axis : Axis) (k : β) (c0 c1 c2 c3 : β × β) : Quad β :=
  ⟨Vec3.turn axis k c0.1 c0.2, Vec3.turn axis k c1.1 c1.2, Vec3.turn axis k c2.1 c2.2, Vec3.turn axis k c3.1 c3.2⟩

def turned (positive : Bool) (q : Quad β) : Quad β := if positive then q else q.reverse

theorem image_turned {γ : Type} (positive : Bool) (f : Vec3 β → Vec3 γ) (q : Quad β) :
    (q.image f).turned positive = (q.turned positive).image f := by
  cases positive <;> rfl

variable {K : Type} [Field K] [LinearOrder K] [Elementary K]

theorem image_across (h : Vec3 K) (d : K) (axis : Axis) (k : Level) (c0 c1 c2 c3 : Level × Level) :
    (across axis k c0 c1 c2 c3).image (Level.place h d) =
      let u := Level.height (h.get axis.next) d
      let v := Level.height (h.get axis.next.next) d
      across axis (Level.height (h.get axis) d k) (u c0.1, v c0.2) (u c1.1, v c1.2) (u c2.1, v c2.2)
        (u c3.1, v c3.2) := by
  simp only [image, across, Level.place_turn]

def twiceArea (a b c : K × K) : K := (b.1 - a.1) * (c.2 - a.2) - (b.2 - a.2) * (c.1 - a.1)

variable (axis : Axis) (k : K) (c0 c1 c2 c3 : K × K)

theorem triangleNormal_across :
    Vec3.triangleNormal (Vec3.turn axis k c0.1 c0.2) (Vec3.turn axis k c1.1 c1.2) (Vec3.turn axis k c2.1 c2.2) =
      Vec3.turn axis (twiceArea c0 c1 c2) 0 0 := by
  rw [Vec3.triangleNormal_turn, sub_self, zero_mul, mul_zero, sub_zero, zero_mul, mul_zero, sub_zero]
  rfl

theorem normal_across :
    (across axis k c0 c1 c2 c3).normal = Vec3.turn axis (twiceArea c0 c1 c2 + twiceArea c0 c2 c3) 0 0 := by
  rw [normal, across, triangleNormal_across, triangleNormal_across, Vec3.add_turn, add_zero]

theorem normal_image_add (center : Vec3 K) (q : Quad K) : (q.image (center + ·)).normal = q.normal := by
  simp only [normal, image, Vec3.triangleNormal_add]

variable [IsStrictOrderedRing K]

theorem facing_eq_turned {q : Quad K} {outward : Vec3 K} {positive : Bool} {area : K}
    (harea : 0 < area) (h : q.normal.dot outward = sideSign positive * area) :
    q.facing outward = q.turned positive := by
  have hzero : @OfNat.ofNat K 0 (Scalar.instOfNat 0) = 0 := Nat.cast_zero
  unfold facing turned
  rw [h, hzero, sideSign_eq]
  cases positive
  · exact if_pos (by simpa using harea)
  · exact if_neg (by simpa using harea.le)

theorem facing_across (center : Vec3 K) (positive : Bool) (harea : 0 < twiceArea c0 c1 c2 + twiceArea c0 c2 c3) :
    ((across axis k c0 c1 c2 c3).image (center + ·)).facing (Vec3.turn axis (sideSign positive) 0 0) =
      ((across axis k c0 c1 c2 c3).turned positive).image (center + ·) := by
  rw [← image_turned]
  refine facing_eq_turned harea ?_
  rw [normal_image_add, normal_across, Vec3.dot_turn]
  ring

omit [IsStrictOrderedRing K] in
theorem volume_across (positive : Bool) :
    Facet.volume ((across axis k c0 c1 c2 c3).turned positive).facets =
      sideSign positive * k * (twiceArea c0 c1 c2 + twiceArea c0 c2 c3) / 6 := by
  have hcone (a b c : K × K) :
      Facet.cone (Vec3.turn axis k a.1 a.2, Vec3.turn axis k b.1 b.2, Vec3.turn axis k c.1 c.2) =
        k * twiceArea a b c / 6 := by
    rw [Facet.cone_turn, twiceArea]
    ring
  rw [sideSign_eq]
  cases positive
  · simp only [turned, Bool.false_eq_true, if_false, reverse, across, facets, Facet.volume, List.map_cons, List.map_nil,
      List.sum_cons, List.sum_nil, hcone, twiceArea]
    ring
  · simp only [turned, if_true, across, facets, Facet.volume, List.map_cons, List.map_nil, List.sum_cons, List.sum_nil,
      hcone]
    ring

/-- A rectangle across an axis, between two bounds along each of the others. -/
def rectangle (axis : Axis) (k : Level) (bound : Axis → Bool → Level) : Quad Level :=
  let u := axis.next
  let v := u.next
  across axis k (bound u false, bound v false) (bound u true, bound v false) (bound u true, bound v true)
    (bound u false, bound v true)

end Mesh.Quad

namespace Level

variable {K : Type} [Field K] [LinearOrder K] [Elementary K] (center h : Vec3 K) (d : K)

def extent (bound : Axis → Bool → Level) (axis : Axis) : K :=
  height (h.get axis) d (bound axis true) - height (h.get axis) d (bound axis false)

def spot (p : Vec3 Level) : Vec3 K := center + place h d p

theorem volume_rectangle (axis : Axis) (k : Level) (bound : Axis → Bool → Level) (positive : Bool) :
    Facet.volume (((Mesh.Quad.rectangle axis k bound).turned positive).facets.map (Facet.map (place h d))) =
      sideSign positive * height (h.get axis) d k *
        (2 * (extent h d bound axis.next * extent h d bound axis.next.next)) / 6 := by
  rw [← Mesh.Quad.facets_image, ← Mesh.Quad.image_turned, Mesh.Quad.rectangle, Mesh.Quad.image_across,
    Mesh.Quad.volume_across]
  simp only [Mesh.Quad.twiceArea, extent]
  ring

theorem image_spot (q : Mesh.Quad Level) :
    q.image (spot center h d) = (q.image (place h d)).image (center + ·) := rfl

variable [IsStrictOrderedRing K]

theorem spot_injective {center h : Vec3 K} {d : K} (hd : 0 < d) (hh : ∀ axis, d < h.get axis) :
    Function.Injective (spot center h d) :=
  (Vec3.shift_injective center).comp (place_injective hd hh)

theorem facing_rectangle (axis : Axis) (k : Level) {bound : Axis → Bool → Level}
    (hextent : ∀ axis, 0 < extent h d bound axis) (positive : Bool) :
    ((Mesh.Quad.rectangle axis k bound).image (spot center h d)).facing (Vec3.turn axis (sideSign positive) 0 0) =
      ((Mesh.Quad.rectangle axis k bound).turned positive).image (spot center h d) := by
  have harea := mul_pos (hextent axis.next) (hextent axis.next.next)
  rw [image_spot, image_spot, ← Mesh.Quad.image_turned, Mesh.Quad.rectangle, Mesh.Quad.image_across,
    Mesh.Quad.facing_across]
  · unfold extent at harea
    simp only [Mesh.Quad.twiceArea]
    linarith

theorem shows_rectangle {m : Mesh K} {shown : List (Facet K)} (hm : m.Shows shown) (axis : Axis) (k : Level)
    {bound : Axis → Bool → Level} (hextent : ∀ axis, 0 < extent h d bound axis) (positive : Bool) :
    (m.addQuadFacing ((Mesh.Quad.rectangle axis k bound).image (spot center h d))
        (Vec3.turn axis (sideSign positive) 0 0)).Shows
      (shown ++ ((Mesh.Quad.rectangle axis k bound).turned positive).facets.map (Facet.map (spot center h d))) := by
  have hquad := hm.addQuadFacing ((Mesh.Quad.rectangle axis k bound).image (spot center h d))
    (Vec3.turn axis (sideSign positive) 0 0)
  rwa [facing_rectangle center h d axis k hextent] at hquad

end Level

/-! ## Distances that fit a box -/

section

variable {K : Type} [Field K] [LinearOrder K] [Elementary K]

theorem BoxFrame.half_eq (size : Vec3 K) : half size = ⟨|size.x| / 2, |size.y| / 2, |size.z| / 2⟩ := by
  have htwo : @OfNat.ofNat K 2 (Scalar.instOfNat 2) = 2 := Nat.cast_ofNat
  unfold half
  rw [htwo]
  rfl

theorem BoxFrame.get_half (size : Vec3 K) (axis : Axis) : (half size).get axis = |size.get axis| / 2 := by
  rw [half_eq]
  cases axis <;> rfl

theorem Vec3.minimum_eq (v : Vec3 K) : v.minimum = min (min v.x v.y) v.z := by
  have hlesser (a b : K) : lesser a b = min a b := (min_def a b).symm
  rw [minimum, hlesser, hlesser]

theorem Fault.clamp_eq_ok {high a : K} (hhigh : 0 < high) (ha : 0 < a) :
    ∃ d, clamp 0 high a = .ok d ∧ 0 < d ∧ d ≤ high := by
  unfold clamp Scalar.clamp?
  rw [if_pos hhigh.le, if_neg ha.le.not_gt]
  by_cases hreach : high < a
  · exact ⟨high, by rw [if_pos hreach]; rfl, hhigh, le_rfl⟩
  · exact ⟨a, by rw [if_neg hreach]; rfl, ha, not_lt.mp hreach⟩

variable [IsStrictOrderedRing K]

theorem BoxFrame.clamp_inside {size : Vec3 K} (hsize : ∀ axis, size.get axis ≠ 0) {factor a : K}
    (hfactor : 0 < factor ∧ factor < 1) (ha : 0 < a) :
    ∃ d, Fault.clamp (Scalar.ofNat 0) ((half size).minimum * factor) a = .ok d ∧ 0 < d ∧
      ∀ axis, d < (half size).get axis := by
  have hzero : (Scalar.ofNat 0 : K) = 0 := Nat.cast_zero
  have hpos (axis : Axis) : 0 < (half size).get axis := by
    rw [get_half]
    exact half_pos (abs_pos.mpr (hsize axis))
  have hle (axis : Axis) : (half size).minimum ≤ (half size).get axis := by
    rw [Vec3.minimum_eq]
    cases axis with
    | x => exact (min_le_left _ _).trans (min_le_left _ _)
    | y => exact (min_le_left _ _).trans (min_le_right _ _)
    | z => exact min_le_right _ _
  have hmin : 0 < (half size).minimum := by
    rw [Vec3.minimum_eq]
    exact lt_min (lt_min (hpos .x) (hpos .y)) (hpos .z)
  obtain ⟨d, hok, hd, hhigh⟩ := Fault.clamp_eq_ok (mul_pos hmin hfactor.1) ha
  rw [hzero]
  refine ⟨d, hok, hd, fun axis => ?_⟩
  calc d ≤ (half size).minimum * factor := hhigh
    _ < (half size).minimum := mul_lt_of_lt_one_right hmin hfactor.2
    _ ≤ (half size).get axis := hle axis

end

/-! ## What becomes of the mesh -/

namespace Mesh.Shows

variable {K : Type} [Field K] [LinearOrder K] [Elementary K] [IsStrictOrderedRing K] {m : Mesh K}
  {center h : Vec3 K} {d : K} {facets : List (Facet Level)}

theorem closed (hm : m.Shows (facets.map (Facet.map (Level.spot center h d)))) (hsealed : Facet.Sealed facets)
    (hd : 0 < d) (hh : ∀ axis, d < h.get axis) :
    m.identified.isClosed = true ∧ m.identified.hasConsistentWinding = true :=
  hm.valid.identified_closed (hm.facets_eq ▸ hsealed.image (Level.spot_injective hd hh))

theorem signedVolume (hm : m.Shows (facets.map (Facet.map (Level.spot center h d)))) (hsealed : Facet.Sealed facets) :
    m.signedVolume = Facet.volume (facets.map (Facet.map (Level.place h d))) := by
  have hspot : Facet.map (Level.spot center h d) = Facet.map (· + center) ∘ Facet.map (Level.place h d) := by
    funext t
    simp only [Facet.map, Function.comp_apply, Level.spot, Vec3.add_swap center]
  rw [signedVolume_eq, hm.facets_eq, hspot, ← List.map_map, (hsealed.paired.image _).volume_shifted]

end Mesh.Shows

end SolidScript

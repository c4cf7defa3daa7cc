import Mathlib.Analysis.Convex.Hull
import Mathlib.Algebra.Order.Module.Field
import SolidScript.Proofs.ExactScalars
import SolidScript.Proofs.Trees

/-!
# What clipping keeps

A polygon that a tree lets through took one way down the tree, and may have lost corners at every
plane on it. It still lies on the side taken of each plane it came by.
-/

namespace SolidScript

/-! ## Ways down a tree -/

/-- A plane that was come by, and the side taken there. -/
abbrev Turn (α : Type) := Plane α × Branch

/-- A point lies on the side taken, or no farther beyond the plane than its thickness. -/
def Turn.Admits {α : Type} [Scalar α] : Turn α → Vec3 α → Prop
  | (plane, .front), v => -Plane.thickness ≤ plane.height v
  | (plane, .back), v => plane.height v ≤ Plane.thickness

def Branch.beyond : Branch → Side
  | .front => .back
  | .back => .front

def Branch.side : Branch → Side
  | .front => .front
  | .back => .back

/-- A way from a node out of the solid: it ends in front of a plane without a front child, or at a
node without a plane. -/
inductive BspTree.WayOut {α : Type} [Scalar α] (t : BspTree α) : Nat → List (Turn α) → Prop where
  | bare {i : Nat} (hplane : (t.node i).plane = none) : WayOut t i []
  | leave {i : Nat} {plane : Plane α} (hplane : (t.node i).plane = some plane)
      (hfront : (t.node i).front = none) : WayOut t i [(plane, .front)]
  | go {i c : Nat} {plane : Plane α} {branch : Branch} {way : List (Turn α)}
      (hplane : (t.node i).plane = some plane) (hchild : (t.node i).child? branch = some c)
      (hway : WayOut t c way) : WayOut t i ((plane, branch) :: way)

theorem Plane.mem_fragmentCorners {α : Type} [Scalar α] {p : Plane α} {keep : Side} {c d e : Corner α}
    (h : e ∈ p.fragmentCorners keep c d) :
    (e = c ∧ (p.side c.position = keep ∨ p.side c.position = .coplanar)) ∨
      (e = p.cut c d ∧ Side.Crosses (p.side c.position) (p.side d.position)) := by
  have hown (h : e ∈ if p.side c.position = keep ∨ p.side c.position = .coplanar then [c] else []) :
      e = c ∧ (p.side c.position = keep ∨ p.side c.position = .coplanar) := by
    split at h
    · exact ⟨List.mem_singleton.mp h, ‹_›⟩
    · cases h
  unfold fragmentCorners at h
  dsimp only at h
  split at h
  · rcases List.mem_append.mp h with h | h
    · exact Or.inl (hown h)
    · exact Or.inr ⟨List.mem_singleton.mp h, ‹_›⟩
  · exact Or.inl (hown h)

theorem Plane.mem_handed {α : Type} [Scalar α] {p : Plane α} {branch : Branch} {q r : Polygon α}
    (h : r ∈ p.handed branch q) :
    (r = q ∧ ∀ c ∈ q.corners, p.side c.position ≠ branch.beyond) ∨ r = p.part branch.side q := by
  have hmissed {s : Side} (h : ¬ p.Reaches s q) (c : Corner α) (hc : c ∈ q.corners) : p.side c.position ≠ s :=
    fun hside => h ⟨c, hc, hside⟩
  unfold handed at h
  rcases p.split_of_reaches q with ⟨hfront, hback, hsplit⟩ | ⟨-, hback, hsplit⟩ | ⟨hfront, -, hsplit⟩ | ⟨-, hsplit⟩ <;>
    rw [hsplit] at h
  · have hwhole : r = q := by
      cases branch <;> dsimp only at h <;> split at h <;> simp [Pieces.none] at h
      all_goals exact h
    cases branch with
    | front => exact Or.inl ⟨hwhole, hmissed hback⟩
    | back => exact Or.inl ⟨hwhole, hmissed hfront⟩
  · cases branch with
    | front => exact Or.inl ⟨by simpa [Pieces.none] using h, hmissed hback⟩
    | back => simp [Pieces.none] at h
  · cases branch with
    | front => simp [Pieces.none] at h
    | back => exact Or.inl ⟨by simpa [Pieces.none] using h, hmissed hfront⟩
  · exact Or.inr (by cases branch <;> simpa [Pieces.none, Branch.side] using h)

theorem BspTree.mem_append_list {β : Type} {b : β} {out : Array β} {items : List β} (h : b ∈ out ++ items) :
    b ∈ out ∨ b ∈ items := by
  simpa [← Array.mem_toList_iff] using h

/-- A polygon at a node, and a piece of it that comes out of the solid by one way down from there. -/
inductive BspTree.ComesOut {α : Type} [Scalar α] (t : BspTree α) : Nat → Polygon α → Polygon α → Prop where
  | bare {i : Nat} {p : Polygon α} (hplane : (t.node i).plane = none) : ComesOut t i p p
  | leave {i : Nat} {plane : Plane α} {p q : Polygon α} (hplane : (t.node i).plane = some plane)
      (hfront : (t.node i).front = none) (hq : q ∈ plane.handed .front p) : ComesOut t i p q
  | go {i c : Nat} {plane : Plane α} {branch : Branch} {p q r : Polygon α} (hplane : (t.node i).plane = some plane)
      (hchild : (t.node i).child? branch = some c) (hr : r ∈ plane.handed branch p) (h : ComesOut t c r q) :
      ComesOut t i p q

/-- Polygons only go to nodes that come later in the array, so that this is by induction on how many there are. -/
theorem BspTree.comesOut_of_mem_clipFrom {α : Type} [Scalar α] {q : Polygon α} (t : BspTree α) (i : Nat)
    (ps : List (Polygon α)) (out : Array (Polygon α)) (hq : q ∈ t.clipFrom i ps out) :
    q ∈ out ∨ ∃ p ∈ ps, t.ComesOut i p q := by
  induction hleft : t.nodes.size - i using Nat.strongRecOn generalizing i ps out with
  | _ left ih =>
    cases hplane : (t.node i).plane with
    | none =>
      rw [t.clipFrom_of_bare hplane] at hq
      exact (mem_append_list hq).imp_right fun hq => ⟨q, hq, .bare hplane⟩
    | some plane =>
      have hchild (branch : Branch) (out' : Array (Polygon α))
          (h : q ∈ t.clipChild i branch (ps.flatMap (plane.handed branch)) out') :
          q ∈ out' ∨ ∃ p ∈ ps, t.ComesOut i p q := by
        rcases t.clipChild_cases i branch with ⟨c, hc, hlater, hsize, heq⟩ | heq
        · rw [heq] at h
          refine (ih (t.nodes.size - c) (by omega) c _ out' h rfl).imp_right ?_
          rintro ⟨r, hr, hout⟩
          obtain ⟨p, hp, hr⟩ := List.mem_flatMap.mp hr
          exact ⟨p, hp, .go hplane hc hr hout⟩
        · rw [heq] at h
          exact Or.inl h
      rw [t.clipFrom_of_plane hplane] at hq
      refine (hchild .front _ hq).elim (fun h => (hchild .back _ h).elim (fun h => ?_) Or.inr) Or.inr
      split at h
      · exact Or.inl h
      · rename_i hfront
        refine (mem_append_list h).imp_right fun h => ?_
        obtain ⟨p, hp, hr⟩ := List.mem_flatMap.mp h
        exact ⟨p, hp, .leave hplane (Option.not_isSome_iff_eq_none.mp hfront) hr⟩

theorem BspTree.comesOut_of_mem_clip {α : Type} [Scalar α] {t : BspTree α} {ps : List (Polygon α)} {q : Polygon α}
    (hq : q ∈ t.clip ps) : ∃ p ∈ ps, t.ComesOut 0 p q :=
  (comesOut_of_mem_clipFrom t 0 ps #[] (Array.mem_toList_iff.mp hq)).resolve_left (Array.not_mem_empty q)

/-! ## Hulls and half-spaces -/

section Field

variable {K : Type} [Field K]

def Vec3.component (n : Vec3 K) (v : K × K × K) : K := n.x * v.1 + n.y * v.2.1 + n.z * v.2.2

theorem Vec3.isLinearMap_component (n : Vec3 K) : IsLinearMap K n.component where
  map_add u v := by
    simp only [component, Prod.fst_add, Prod.snd_add]
    ring
  map_smul s v := by
    simp only [component, Prod.smul_fst, Prod.smul_snd, smul_eq_mul]
    ring

def Vec3.between (u v : Vec3 K) (t : K) : Vec3 K :=
  ⟨u.x + (v.x - u.x) * t, u.y + (v.y - u.y) * t, u.z + (v.z - u.z) * t⟩

theorem Vec3.component_between (n u v : Vec3 K) (t : K) :
    n.component (u.between v t).coordinates =
      n.component u.coordinates + (n.component v.coordinates - n.component u.coordinates) * t := by
  simp only [component, between, coordinates]
  ring

variable [LinearOrder K]

theorem Cyclic.mem_of_mem_pairs {β : Type} {items : List β} {b c : β} (h : (b, c) ∈ Cyclic.pairs items) :
    b ∈ items ∧ c ∈ items := by
  obtain ⟨hb, hc⟩ := List.of_mem_zip h
  refine ⟨hb, ?_⟩
  cases items with
  | nil => cases hb
  | cons first rest => simpa [Cyclic.rotate, or_comm] using hc

def Polygon.points (q : Polygon K) : Set (K × K × K) := {v | ∃ c ∈ q.corners, c.position.coordinates = v}

def Polygon.hull (q : Polygon K) : Set (K × K × K) := convexHull K q.points

theorem Polygon.mem_hull {q : Polygon K} {c : Corner K} (hc : c ∈ q.corners) :
    c.position.coordinates ∈ q.hull :=
  subset_convexHull K _ ⟨c, hc, rfl⟩

theorem Polygon.hull_subset {q : Polygon K} {s : Set (K × K × K)} (hs : Convex K s)
    (h : ∀ c ∈ q.corners, c.position.coordinates ∈ s) : q.hull ⊆ s := by
  refine convexHull_min ?_ hs
  rintro v ⟨c, hc, rfl⟩
  exact h c hc

variable [IsStrictOrderedRing K]

/-- All that is admitted at a turn when planes are `e` thick. -/
def Turn.region (e : K) : Turn K → Set (K × K × K)
  | (plane, .front) => {v | -e ≤ plane.normal.component v - plane.offset}
  | (plane, .back) => {v | plane.normal.component v - plane.offset ≤ e}

theorem Turn.convex_region (e : K) (turn : Turn K) : Convex K (turn.region e) := by
  obtain ⟨plane, branch⟩ := turn
  cases branch with
  | front =>
    simp only [region, le_sub_iff_add_le]
    exact convex_halfSpace_ge plane.normal.isLinearMap_component _
  | back =>
    simp only [region, sub_le_iff_le_add]
    exact convex_halfSpace_le plane.normal.isLinearMap_component _

theorem fraction_spec {e a b w : K} (he : 0 < e) (hopposite : (e < a - w ∧ b - w < -e) ∨ (a - w < -e ∧ e < b - w)) :
    (w - a) / (b - a) ∈ Set.Icc (0 : K) 1 ∧ a + (b - a) * ((w - a) / (b - a)) - w = 0 := by
  have hne : b - a ≠ 0 := by
    rcases hopposite with ⟨ha, hb⟩ | ⟨ha, hb⟩ <;> intro h <;> linarith
  refine ⟨?_, by rw [mul_div_cancel₀ _ hne]; ring⟩
  rcases hopposite with ⟨ha, hb⟩ | ⟨ha, hb⟩
  · have hneg : b - a < 0 := by linarith
    exact ⟨div_nonneg_of_nonpos (by linarith) hneg.le, (div_le_one_of_neg hneg).mpr (by linarith)⟩
  · have hpos : 0 < b - a := by linarith
    exact ⟨div_nonneg (by linarith) hpos.le, (div_le_one hpos).mpr (by linarith)⟩

theorem Vec3.between_mem {u v : Vec3 K} {t : K} (ht : t ∈ Set.Icc (0 : K) 1) {s : Set (K × K × K)}
    (hs : Convex K s) (hu : u.coordinates ∈ s) (hv : v.coordinates ∈ s) : (u.between v t).coordinates ∈ s := by
  have hmem := hs.add_smul_sub_mem hu hv ht
  have heq : u.coordinates + t • (v.coordinates - u.coordinates) = (u.between v t).coordinates := by
    simp only [coordinates, between, Prod.mk_sub_mk, Prod.smul_mk, Prod.mk_add_mk, smul_eq_mul, mul_comm t]
  rwa [heq] at hmem

end Field

/-! ## One plane -/

section Exact

variable {K : Type} [Field K] [LinearOrder K] [Elementary K]

theorem Turn.admits_iff (turn : Turn K) (v : Vec3 K) :
    turn.Admits v ↔ v.coordinates ∈ turn.region Plane.thickness := by
  obtain ⟨plane, branch⟩ := turn
  cases branch <;> rfl

namespace Plane

theorem height_eq (p : Plane K) (v : Vec3 K) : p.height v = p.normal.component v.coordinates - p.offset := rfl

theorem position_cut (p : Plane K) (c d : Corner K) :
    (p.cut c d).position = c.position.between d.position
      ((p.offset - p.normal.component c.position.coordinates) /
        (p.normal.component d.position.coordinates - p.normal.component c.position.coordinates)) := by
  rw [← p.normal.isLinearMap_component.map_sub]
  rfl

theorem side_eq_back_iff {p : Plane K} {v : Vec3 K} : p.side v = .back ↔ p.height v < -thickness := by
  unfold side
  dsimp only
  split
  · simp [*]
  · split <;> simp [*]

variable [IsStrictOrderedRing K]

theorem thickness_pos : (0 : K) < thickness := by
  have hpos : (0 : K) < ((1 : Nat) : K) / 10 ^ 5 := by positivity
  exact hpos

theorem side_eq_front_iff {p : Plane K} {v : Vec3 K} : p.side v = .front ↔ thickness < p.height v := by
  unfold side
  dsimp only
  split
  · rename_i hback
    have hbelow : p.height v < thickness := lt_trans hback (neg_lt_self thickness_pos)
    exact iff_of_false (by decide) hbelow.not_gt
  · split <;> simp [*]

theorem side_eq_coplanar {p : Plane K} {v : Vec3 K} (h : p.height v = (0 : K)) : p.side v = .coplanar := by
  have hpos : (0 : K) < thickness := thickness_pos
  cases hside : p.side v with
  | coplanar => rfl
  | front => exact absurd (h ▸ side_eq_front_iff.mp hside) hpos.not_gt
  | back => exact absurd (h ▸ side_eq_back_iff.mp hside) (neg_neg_of_pos hpos).not_gt

theorem admits_iff_side (p : Plane K) (branch : Branch) (v : Vec3 K) :
    Turn.Admits (p, branch) v ↔ p.side v ≠ branch.beyond := by
  cases branch with
  | front => exact not_lt.symm.trans side_eq_back_iff.not.symm
  | back => exact not_lt.symm.trans side_eq_front_iff.not.symm

theorem position_cut_spec {p : Plane K} {c d : Corner K}
    (hcross : Side.Crosses (p.side c.position) (p.side d.position)) :
    (∀ {s : Set (K × K × K)}, Convex K s → c.position.coordinates ∈ s → d.position.coordinates ∈ s →
      (p.cut c d).position.coordinates ∈ s) ∧
    p.height (p.cut c d).position = (0 : K) := by
  unfold Side.Crosses at hcross
  rw [side_eq_front_iff, side_eq_front_iff, side_eq_back_iff, side_eq_back_iff] at hcross
  obtain ⟨hunit, hzero⟩ := fraction_spec thickness_pos hcross
  rw [position_cut]
  refine ⟨fun hs hc hd => Vec3.between_mem hunit hs hc hd, ?_⟩
  rw [height_eq, Vec3.component_between]
  exact hzero

theorem corner_of_handed {p : Plane K} {branch : Branch} {q r : Polygon K} (h : r ∈ p.handed branch q)
    {c : Corner K} (hc : c ∈ r.corners) : c.position.coordinates ∈ q.hull ∧ Turn.Admits (p, branch) c.position := by
  rw [admits_iff_side]
  rcases mem_handed h with ⟨rfl, hside⟩ | rfl
  · exact ⟨Polygon.mem_hull hc, hside c hc⟩
  · obtain ⟨⟨d, e⟩, hpair, hmem⟩ := List.mem_flatMap.mp hc
    obtain ⟨hd, he⟩ := Cyclic.mem_of_mem_pairs hpair
    rcases mem_fragmentCorners hmem with ⟨rfl, hside⟩ | ⟨rfl, hcross⟩
    · refine ⟨Polygon.mem_hull hd, ?_⟩
      rcases hside with hside | hside <;> rw [hside] <;> cases branch <;> decide
    · obtain ⟨hbetween, hheight⟩ := position_cut_spec hcross
      refine ⟨hbetween (convex_convexHull K _) (Polygon.mem_hull hd) (Polygon.mem_hull he), ?_⟩
      rw [side_eq_coplanar hheight]
      cases branch <;> decide

end Plane

/-! ## Trees -/

namespace BspTree

/-- A polygon came out of another by going down from a node: it lies between the corners of the other, and on the
side that was taken of every plane on the way. -/
def CameOut (t : BspTree K) (i : Nat) (p q : Polygon K) : Prop :=
  (∀ c ∈ q.corners, c.position.coordinates ∈ p.hull) ∧
    ∃ way, t.WayOut i way ∧ ∀ turn ∈ way, ∀ c ∈ q.corners, turn.Admits c.position

variable {t : BspTree K} {i : Nat} {plane : Plane K} {p q r : Polygon K}

theorem cameOut_of_bare (hplane : (t.node i).plane = none) : t.CameOut i p p :=
  ⟨fun _ hc => Polygon.mem_hull hc, [], .bare hplane, by simp⟩

variable [IsStrictOrderedRing K]

theorem cameOut_of_leave (hplane : (t.node i).plane = some plane) (hfront : (t.node i).front = none)
    (hr : r ∈ plane.handed .front p) : t.CameOut i p r := by
  refine ⟨fun c hc => (Plane.corner_of_handed hr hc).1, [(plane, .front)], .leave hplane hfront, ?_⟩
  exact List.forall_mem_singleton.mpr fun c hc => (Plane.corner_of_handed hr hc).2

/-- Further cuts stay between the corners, so they respect the planes that were passed before. -/
theorem CameOut.up {branch : Branch} {c : Nat} (hplane : (t.node i).plane = some plane)
    (hchild : (t.node i).child? branch = some c) (hr : r ∈ plane.handed branch p) (h : t.CameOut c r q) :
    t.CameOut i p q := by
  obtain ⟨hcorners, way, hway, hadmits⟩ := h
  have hhull : r.hull ⊆ p.hull :=
    Polygon.hull_subset (convex_convexHull K _) fun _ hc => (Plane.corner_of_handed hr hc).1
  have hregion : r.hull ⊆ Turn.region Plane.thickness (plane, branch) :=
    Polygon.hull_subset (Turn.convex_region _ _) fun _ hc =>
      (Turn.admits_iff _ _).mp (Plane.corner_of_handed hr hc).2
  refine ⟨fun d hd => hhull (hcorners d hd), (plane, branch) :: way, .go hplane hchild hway, ?_⟩
  refine List.forall_mem_cons.mpr ⟨fun d hd => ?_, hadmits⟩
  exact (Turn.admits_iff _ _).mpr (hregion (hcorners d hd))

theorem ComesOut.cameOut (h : t.ComesOut i p q) : t.CameOut i p q := by
  induction h with
  | bare hplane => exact cameOut_of_bare hplane
  | leave hplane hfront hr => exact cameOut_of_leave hplane hfront hr
  | go hplane hchild hr _ ih => exact ih.up hplane hchild hr

theorem cameOut_of_mem_clipFrom (t : BspTree K) (i : Nat) (ps : List (Polygon K)) (out : Array (Polygon K))
    (hq : q ∈ t.clipFrom i ps out) : q ∈ out ∨ ∃ p ∈ ps, t.CameOut i p q := by
  refine (comesOut_of_mem_clipFrom t i ps out hq).imp_right ?_
  rintro ⟨p, hp, hout⟩
  exact ⟨p, hp, hout.cameOut⟩

/-- What is left of polygons: each piece lies between the corners of one of them, and there is a way out of the solid
along which it lies on the side taken of every plane. -/
theorem clip_between_corners (t : BspTree K) (ps : List (Polygon K)) :
    ∀ q ∈ t.clip ps, ∃ p ∈ ps, (∀ c ∈ q.corners, c.position.coordinates ∈ p.hull) ∧
      ∃ way, t.WayOut 0 way ∧ ∀ turn ∈ way, ∀ c ∈ q.corners, turn.Admits c.position := by
  intro q hq
  refine (cameOut_of_mem_clipFrom t 0 ps #[] (Array.mem_toList_iff.mp hq)).resolve_left ?_
  exact Array.not_mem_empty q

end BspTree

end Exact

/-! ## A corner cut off -/

/-- Clipping uses nothing beyond the order and the operations of the field. -/
@[reducible] def Elementary.none : Elementary ℚ where
  infinity := 0
  pi := 0
  sqrt := id
  sin := id
  cos := id
  tan := id
  arctan := id
  arccos := id
  nearestInt := round
  ceilNat := Nat.ceil
  floorNat := Nat.floor

/-- Two planes at right angles. What is behind both is solid. -/
def BspTree.quadrant (p q : Plane ℚ) : BspTree ℚ := ⟨#[⟨some p, .none, some 1, []⟩, ⟨some q, .none, .none, []⟩]⟩

def Polygon.outOfQuadrant : Polygon ℚ :=
  ⟨[⟨⟨-1, -1, 0⟩, ⟨0, 0, 1⟩⟩, ⟨⟨2, -1, 0⟩, ⟨0, 0, 1⟩⟩, ⟨⟨-1, 2, 0⟩, ⟨0, 0, 1⟩⟩], ⟨⟨0, 0, 1⟩, 0⟩⟩

section

attribute [local instance] Elementary.none

theorem BspTree.clip_quadrant (p q : Plane ℚ) (polygon : Polygon ℚ) :
    (quadrant p q).clip [polygon] = p.handed .front polygon ++ (p.handed .back polygon).flatMap (q.handed .front) := by
  have hinner (ps : List (Polygon ℚ)) (out : Array (Polygon ℚ)) :
      (quadrant p q).clipFrom 1 ps out = out ++ ps.flatMap (q.handed .front) := by
    rw [clipFrom]
    simp only [List.flatMap_map]
    rfl
  unfold clip
  rw [clipFrom]
  have hplane : (node (quadrant p q) 0).plane = some p := rfl
  have hfront : (node (quadrant p q) 0).front = none := rfl
  have hback : (node (quadrant p q) 0).back = some 1 := rfl
  have hsize : (quadrant p q).nodes.size = 2 := rfl
  simp [hplane, hfront, hback, hsize, hinner, Plane.handed]

/-- The triangle loses the part in the quadrant, and what is left comes out in two pieces. -/
theorem BspTree.clip_quadrant_between_corners :
    let t := quadrant ⟨⟨1, 0, 0⟩, 0⟩ ⟨⟨0, 1, 0⟩, 0⟩
    (t.clip [.outOfQuadrant]).map (fun q => q.corners.map Corner.position) =
        [[⟨0, -1, 0⟩, ⟨2, -1, 0⟩, ⟨0, 1, 0⟩], [⟨0, 0, 0⟩, ⟨0, 1, 0⟩, ⟨-1, 2, 0⟩, ⟨-1, 0, 0⟩]] ∧
      ∀ q ∈ t.clip [.outOfQuadrant], ∃ p ∈ [Polygon.outOfQuadrant],
        (∀ c ∈ q.corners, c.position.coordinates ∈ p.hull) ∧
        ∃ way, t.WayOut 0 way ∧ ∀ turn ∈ way, ∀ c ∈ q.corners, turn.Admits c.position := by
  refine ⟨?_, clip_between_corners _ _⟩
  rw [clip_quadrant]
  decide +kernel

end

end SolidScript

import SolidScript.Proofs.Dissection
import SolidScript.Proofs.Negation
import SolidScript.Solid.Boolean

/-! # When booleans have a result, and which one for an empty solid -/

namespace SolidScript

open BspTree

variable {α : Type} [Scalar α]

/-! ## Turning over -/

section Turning

variable (hneg : ∀ x : α, - -x = x)

include hneg

theorem Vec3.neg_neg_of (v : Vec3 α) : - -v = v := by
  show (⟨- -v.x, - -v.y, - -v.z⟩ : Vec3 α) = v
  rw [hneg, hneg, hneg]

theorem Plane.flip_flip_of (p : Plane α) : p.flip.flip = p := by
  unfold Plane.flip
  rw [Vec3.neg_neg_of hneg, hneg]

theorem Corner.flip_flip_of (c : Corner α) : c.flip.flip = c := by
  unfold Corner.flip
  rw [Vec3.neg_neg_of hneg]

theorem Polygon.flip_flip_of (q : Polygon α) : q.flip.flip = q := by
  have hcorners : (Corner.flip ∘ Corner.flip : Corner α → Corner α) = id := by
    funext c
    exact Corner.flip_flip_of hneg c
  unfold Polygon.flip
  rw [Plane.flip_flip_of hneg, ← List.map_reverse, List.reverse_reverse, List.map_map, hcorners, List.map_id]

theorem BspTree.invert_invert_of (t : BspTree α) : t.invert.invert = t := by
  have hpolygons : (Polygon.flip ∘ Polygon.flip : Polygon α → Polygon α) = id := by
    funext q
    exact Polygon.flip_flip_of hneg q
  have hplanes : (Plane.flip ∘ Plane.flip : Plane α → Plane α) = id := by
    funext p
    exact Plane.flip_flip_of hneg p
  have hnodes : (BspNode.flip ∘ BspNode.flip : BspNode α → BspNode α) = id := by
    funext n
    unfold BspNode.flip
    simp only [Function.comp_apply, Option.map_map, List.map_map, hpolygons, hplanes, Option.map_id, List.map_id, id]
  unfold invert
  rw [Array.map_map, hnodes, Array.map_id]

end Turning

namespace BspTree

theorem polygons_invert (t : BspTree α) : t.invert.polygons = t.polygons.map Polygon.flip := by
  unfold polygons invert
  dsimp only
  rw [Array.toList_map, List.flatMap_map, List.map_flatMap]
  rfl

theorem invert_root : (root : BspTree α).invert = root := by
  unfold invert root
  rw [List.map_toArray]
  rfl

theorem clipTo_root (other : BspTree α) : root.clipTo other = root := by
  unfold clipTo root
  simp only [List.map_toArray, List.map_cons, List.map_nil]
  show (⟨#[⟨none, none, none, other.clip []⟩]⟩ : BspTree α) = ⟨#[.fresh]⟩
  rw [clip_nil]
  rfl

end BspTree

namespace Solid

/-! ## The trees of a boolean -/

def clipped (kind : BooleanKind) (a b : BspTree α) : BspTree α × BspTree α :=
  match kind with
  | .union =>
    let a := a.clipTo b
    (a, ((b.clipTo a).invert.clipTo a).invert)
  | .subtract =>
    let a := a.invert.clipTo b
    (a, ((b.clipTo a).invert.clipTo a).invert)
  | .intersect =>
    let b := (b.clipTo a.invert).invert
    let a := a.invert.clipTo b
    (a, b.clipTo a)

/-- The tree with all polygons, turned back if the first tree had been turned over. -/
def closed (kind : BooleanKind) (t : BspTree α) : BspTree α :=
  match kind with
  | .union => t
  | .subtract | .intersect => t.invert

theorem combine?_eq (s t : Solid α) (kind : BooleanKind) :
    s.combine? t kind = (ofPolygons s.polygons).bind fun a => (ofPolygons t.polygons).bind fun b =>
      ((clipped kind a b).1.insert (clipped kind a b).2.polygons).map fun c => ⟨(closed kind c).polygons⟩ := by
  simp only [Option.map_eq_bind]
  cases kind <;> rfl

theorem wellFormed_clipped (kind : BooleanKind) {a b : BspTree α} (ha : a.WellFormed) :
    (clipped kind a b).1.WellFormed := by
  cases kind with
  | union => exact wellFormed_clipTo ha b
  | subtract => exact wellFormed_clipTo (wellFormed_invert ha) b
  | intersect => exact wellFormed_clipTo (wellFormed_invert ha) _

/-! ## Results -/

/-- A boolean has a result exactly when no polygon goes astray in any of its three trees: that of the
first solid, that of the second, and that of both. -/
theorem combine?_isSome_iff (s t : Solid α) (kind : BooleanKind) :
    (s.combine? t kind).isSome = true ↔
      ¬ root.Strays s.polygons ∧ ¬ root.Strays t.polygons ∧
      ∀ a b, ofPolygons s.polygons = some a → ofPolygons t.polygons = some b →
        ¬ (clipped kind a b).1.Strays (clipped kind a b).2.polygons := by
  rw [combine?_eq, ← insert_isSome_iff wellFormed_root, ← insert_isSome_iff wellFormed_root]
  show _ ↔ (ofPolygons s.polygons).isSome = true ∧ (ofPolygons t.polygons).isSome = true ∧ _
  cases ha : ofPolygons s.polygons with
  | none => simp
  | some a =>
    cases hb : ofPolygons t.polygons with
    | none => simp
    | some b =>
      -- The third tree is the first one after the clipping, with what is left of the second put in.
      have hwell := wellFormed_clipped (b := b) kind (wellFormed_ofPolygons ha)
      rw [Option.bind_some, Option.bind_some, Option.isSome_map, insert_isSome_iff hwell]
      constructor
      · rintro hstays
        refine ⟨rfl, rfl, ?_⟩
        rintro _ _ ⟨rfl⟩ ⟨rfl⟩
        exact hstays
      · rintro ⟨-, -, hstays⟩
        exact hstays a b rfl rfl

theorem ofPolygons_of_run {ps : List (Polygon α)} (n : Nat)
    (h : (Construction.step^[n] ⟨root, [(0, ps)]⟩).waiting = []) :
    ofPolygons ps = some (Construction.step^[n] ⟨root, [(0, ps)]⟩).tree := insert_of_run n h

/-- A first polygon outside its own plane is passed on for ever. -/
theorem combine?_eq_none {s : Solid α} (hfirst : ∃ q ∈ s.polygons.head?, ¬ q.plane.Contains q) (t : Solid α)
    (kind : BooleanKind) : s.combine? t kind = none := by
  obtain ⟨q, hq, hout⟩ := hfirst
  obtain ⟨rest, hrest⟩ := List.head?_eq_some_iff.mp hq
  have hstrays : root.Strays s.polygons := by
    rw [hrest]
    exact root_strays hout rest
  have hnone : ofPolygons s.polygons = none := by
    rw [← Option.not_isSome_iff_eq_none]
    exact fun hsome => (insert_isSome_iff wellFormed_root _).mp hsome hstrays
  rw [combine?_eq, hnone]
  rfl

/-- A triangle so thin that its third corner is farther from its plane than the plane is thick. -/
def sliver : Mesh Float := ⟨#[⟨0, 0, 0⟩, ⟨510, 910, 470⟩, ⟨255, 455, 235.000000001⟩], #[⟨0, 1, 2⟩], none⟩

theorem sliver_never_done :
    sliver.vertices.all Vec3.isFinite = true ∧
    ∀ t kind, (ofMesh sliver).combine? t kind = none :=
  ⟨by decide +kernel, fun t kind => combine?_eq_none (by decide +kernel) t kind⟩

/-! ## Empty solids -/

theorem ofPolygons_nil : ofPolygons ([] : List (Polygon α)) = some root := insert_nil root

theorem clipped_root_right (kind : BooleanKind) (a : BspTree α) : clipped kind a root = (closed kind a, root) := by
  have hbare (t : BspTree α) : t.clipTo root = t := clipTo_of_bare t rfl
  cases kind <;> simp only [clipped, closed, hbare, clipTo_root, invert_root]

/-- The second tree is turned over where the first one is, and stays so for an intersection. -/
def turned (kind : BooleanKind) (b : BspTree α) : BspTree α :=
  match kind with
  | .union | .subtract => b
  | .intersect => b.invert

section Turning

variable (hneg : ∀ x : α, - -x = x)

include hneg

theorem clipped_root_left (kind : BooleanKind) (b : BspTree α) : clipped kind root b = (root, turned kind b) := by
  have hbare (t : BspTree α) : t.clipTo root = t := clipTo_of_bare t rfl
  cases kind <;> simp only [clipped, turned, hbare, clipTo_root, invert_root, invert_invert_of hneg]

theorem combine?_empty_right (s : Solid α) (kind : BooleanKind) :
    s.combine? empty kind = (ofPolygons s.polygons).map fun a => ⟨a.polygons⟩ := by
  rw [combine?_eq, Option.map_eq_bind]
  congr 1
  funext a
  show (ofPolygons []).bind _ = _
  rw [ofPolygons_nil, Option.bind_some, clipped_root_right]
  show ((closed kind a).insert []).map _ = _
  rw [insert_nil, Option.map_some]
  cases kind with
  | union => rfl
  | subtract | intersect =>
    show some (⟨a.invert.invert.polygons⟩ : Solid α) = some ⟨a.polygons⟩
    rw [invert_invert_of hneg]

theorem combine?_empty_left (s : Solid α) (kind : BooleanKind) :
    (empty : Solid α).combine? s kind = (ofPolygons s.polygons).bind fun b =>
      (ofPolygons (turned kind b).polygons).map fun c => ⟨(closed kind c).polygons⟩ := by
  rw [combine?_eq]
  show (ofPolygons []).bind _ = _
  rw [ofPolygons_nil, Option.bind_some]
  congr 1
  funext b
  rw [clipped_root_left hneg]
  rfl

theorem isSome_empty_left (s : Solid α) (kind : BooleanKind) :
    ((empty : Solid α).combine? s kind).isSome = true ↔
      ¬ root.Strays s.polygons ∧ ∀ b, ofPolygons s.polygons = some b → ¬ root.Strays (turned kind b).polygons := by
  rw [combine?_empty_left hneg, ← insert_isSome_iff wellFormed_root]
  show _ ↔ (ofPolygons s.polygons).isSome = true ∧ _
  cases hb : ofPolygons s.polygons with
  | none => simp
  | some b =>
    rw [Option.bind_some, Option.isSome_map]
    show (root.insert (turned kind b).polygons).isSome = true ↔ _
    rw [insert_isSome_iff wellFormed_root]
    constructor
    · intro hstays
      refine ⟨rfl, ?_⟩
      rintro _ ⟨rfl⟩
      exact hstays
    · rintro ⟨-, hstays⟩
      exact hstays b rfl

theorem dissection_empty_left {s r : Solid α} {kind : BooleanKind} (h : (empty : Solid α).combine? s kind = some r) :
    Dissection (if kind = .subtract then s.polygons.map Polygon.flip else s.polygons) r.polygons := by
  rw [combine?_empty_left hneg] at h
  obtain ⟨b, hb, h⟩ := Option.bind_eq_some_iff.mp h
  obtain ⟨c, hc, rfl⟩ := Option.map_eq_some_iff.mp h
  have hfirst := ofPolygons_dissection hb
  have hsecond := ofPolygons_dissection hc
  have hflip := Polygon.flip_flip_of hneg
  cases kind with
  | union => exact hfirst.trans hsecond
  | subtract =>
    show Dissection (s.polygons.map Polygon.flip) c.invert.polygons
    rw [polygons_invert]
    exact (hfirst.trans hsecond).turned hflip
  | intersect =>
    -- What is put in has been turned around, and the result is turned back.
    show Dissection s.polygons c.invert.polygons
    have hback := hsecond.turned hflip
    rw [← polygons_invert, ← polygons_invert] at hback
    change Dissection b.invert.invert.polygons c.invert.polygons at hback
    rw [invert_invert_of hneg] at hback
    exact hfirst.trans hback

end Turning

/-- With an empty solid, each boolean gives the other solid, cut along planes of its own, and turned over
where it is taken away. Its polygons are gone only when it has none. -/
theorem combine?_empty (s : Solid Float) (kind : BooleanKind) :
    (∀ r, s.combine? empty kind = some r →
      Dissection s.polygons r.polygons ∧ (r.polygons = [] ↔ s.polygons = [])) ∧
    (∀ r, empty.combine? s kind = some r →
      Dissection (if kind = .subtract then s.polygons.map Polygon.flip else s.polygons) r.polygons ∧
      (r.polygons = [] ↔ s.polygons = [])) ∧
    ((s.combine? empty kind).isSome = true ↔ ¬ root.Strays s.polygons) ∧
    ((empty.combine? s kind).isSome = true ↔
      ¬ root.Strays s.polygons ∧ ∀ b, ofPolygons s.polygons = some b → ¬ root.Strays (turned kind b).polygons) := by
  have hneg := Binary64.neg_neg_float
  refine ⟨fun r hr => ?_, fun r hr => ?_, ?_, ?_⟩
  · rw [combine?_empty_right hneg] at hr
    obtain ⟨a, ha, rfl⟩ := Option.map_eq_some_iff.mp hr
    have hdissection := ofPolygons_dissection ha
    exact ⟨hdissection, hdissection.eq_nil_iff⟩
  · have hdissection := dissection_empty_left hneg hr
    refine ⟨hdissection, hdissection.eq_nil_iff.trans ?_⟩
    split
    · exact List.map_eq_nil_iff
    · exact Iff.rfl
  · rw [combine?_empty_right hneg, Option.isSome_map]
    exact insert_isSome_iff wellFormed_root _
  · exact isSome_empty_left hneg s kind

def facet : Solid Float := ofMesh ⟨#[⟨0, 0, 0⟩, ⟨1, 0, 0⟩, ⟨0, 1, 0⟩], #[⟨0, 1, 2⟩], none⟩

/-- What is left of nothing, and what is in nothing, has a surface. -/
theorem facet_empty :
    facet.polygons ≠ [] ∧
    (∃ r, facet.combine? empty .intersect = some r ∧ r.polygons = facet.polygons) ∧
    (∃ r, empty.combine? facet .intersect = some r ∧ r.polygons = facet.polygons) ∧
    (∃ r, empty.combine? facet .subtract = some r ∧ r.polygons = facet.polygons.map Polygon.flip) := by
  have hneg := Binary64.neg_neg_float
  refine ⟨by decide +kernel, ?_, ?_, ?_⟩
  · rw [combine?_empty_right hneg, ofPolygons_of_run 2 (by decide +kernel), Option.map_some]
    exact ⟨_, rfl, by decide +kernel⟩
  · rw [combine?_empty_left hneg, ofPolygons_of_run 2 (by decide +kernel), Option.bind_some,
      ofPolygons_of_run 2 (by decide +kernel), Option.map_some]
    exact ⟨_, rfl, by decide +kernel⟩
  · rw [combine?_empty_left hneg, ofPolygons_of_run 2 (by decide +kernel), Option.bind_some,
      ofPolygons_of_run 2 (by decide +kernel), Option.map_some]
    exact ⟨_, rfl, by decide +kernel⟩

end Solid

end SolidScript

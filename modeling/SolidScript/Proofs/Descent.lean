import SolidScript.Proofs.Boolean
import SolidScript.Proofs.Clipping

/-!
# Where polygons come from

A boolean makes no polygon of its own. Each one in the result is what planes and turns have left of a polygon of one of
the two solids, and it faces the way that the number of turns tells.
-/

namespace SolidScript

variable {α : Type} [Scalar α]

/-- One polygon comes from another by cuts along planes and by being turned over a number of times. -/
inductive Polygon.Descends (p : Polygon α) : Nat → Polygon α → Prop
  | self : Descends p 0 p
  | cut {n : Nat} {q r : Polygon α} (plane : Plane α) (h : Descends p n q) (hr : r ∈ (plane.split q).all) :
      Descends p n r
  | turn {n : Nat} {q : Polygon α} (h : Descends p n q) : Descends p (n + 1) q.flip

theorem Plane.plane_of_mem_split {plane : Plane α} {q r : Polygon α} (hr : r ∈ (plane.split q).all) :
    r.plane = q.plane := by
  rcases plane.split_cases q with ⟨-, h | h⟩ | ⟨-, h | h⟩ | ⟨-, -, h⟩
  all_goals
    rw [h] at hr
    simp only [Pieces.all, Pieces.none, List.nil_append, List.append_nil, List.mem_append, List.mem_singleton] at hr
  · rw [hr]
  · rw [hr]
  · rw [hr]
  · rw [hr]
  · rcases hr with rfl | rfl <;> rfl

namespace Polygon.Descends

theorem trans {p q r : Polygon α} {n m : Nat} (h : p.Descends n q) (h' : q.Descends m r) : p.Descends (n + m) r := by
  induction h' with
  | self => exact h
  | cut plane _ hr ih => exact .cut plane ih hr
  | turn _ ih => exact .turn ih

theorem plane_eq {p q : Polygon α} {n : Nat} (h : p.Descends n q) : q.plane = Plane.flip^[n] p.plane := by
  induction h with
  | self => rfl
  | cut plane _ hr ih => rw [Plane.plane_of_mem_split hr, ih]
  | turn _ ih =>
    rw [Function.iterate_succ_apply', ← ih]
    rfl

end Polygon.Descends

/-- All polygons of the second list come from those of the first, turned over equally often. -/
def Lineage (n : Nat) (ps qs : List (Polygon α)) : Prop := ∀ q ∈ qs, ∃ p ∈ ps, p.Descends n q

namespace Lineage

variable {ps qs rs : List (Polygon α)} {n m : Nat}

theorem refl (ps : List (Polygon α)) : Lineage 0 ps ps := fun q hq => ⟨q, hq, .self⟩

theorem trans (h : Lineage n ps qs) (h' : Lineage m qs rs) : Lineage (n + m) ps rs := by
  intro r hr
  obtain ⟨q, hq, hlast⟩ := h' r hr
  obtain ⟨p, hp, hfirst⟩ := h q hq
  exact ⟨p, hp, hfirst.trans hlast⟩

theorem of_perm (h : ps.Perm qs) : Lineage 0 ps qs := fun q hq => ⟨q, h.mem_iff.mpr hq, .self⟩

theorem append_right (h : Lineage 0 ps qs) (rest : List (Polygon α)) : Lineage 0 (ps ++ rest) (qs ++ rest) := by
  intro q hq
  rcases List.mem_append.mp hq with hq | hq
  · obtain ⟨p, hp, hdescends⟩ := h q hq
    exact ⟨p, List.mem_append_left rest hp, hdescends⟩
  · exact ⟨q, List.mem_append_right ps hq, .self⟩

end Lineage

theorem Plane.lineage_splitAll (plane : Plane α) (qs : List (Polygon α)) : Lineage 0 qs (plane.splitAll qs).all := by
  intro r hr
  rw [plane.splitAll_eq] at hr
  simp only [Pieces.all, List.mem_append, List.mem_flatMap] at hr
  have hpiece : ∃ q ∈ qs, r ∈ (plane.split q).all := by
    rcases hr with (⟨q, hq, hr⟩ | ⟨q, hq, hr⟩) | ⟨q, hq, hr⟩ | ⟨q, hq, hr⟩
    all_goals exact ⟨q, hq, by simp [Pieces.all, hr]⟩
  obtain ⟨q, hq, hr⟩ := hpiece
  exact ⟨q, hq, .cut plane .self hr⟩

namespace BspTree

/-! ## Trees -/

theorem follows_lineage : Follows (Lineage (α := α) 0) where
  of_perm := Lineage.of_perm
  trans := Lineage.trans
  append_right := Lineage.append_right
  splitAll := Plane.lineage_splitAll

theorem WellFormed.lineage_insert {t t' : BspTree α} (h : t.WellFormed) {ps : List (Polygon α)}
    (hinsert : t.insert ps = some t') : Lineage 0 (t.polygons ++ ps) t'.polygons :=
  follows_lineage.insert h hinsert

theorem lineage_ofPolygons {ps : List (Polygon α)} {t : BspTree α} (h : ofPolygons ps = some t) :
    Lineage 0 ps t.polygons := wellFormed_root.lineage_insert h

theorem ComesOut.descends {t : BspTree α} {i : Nat} {p q : Polygon α} (h : t.ComesOut i p q) : p.Descends 0 q := by
  have hpiece {plane : Plane α} {branch : Branch} {p r : Polygon α} (hr : r ∈ plane.handed branch p) :
      p.Descends 0 r := by
    refine .cut plane .self ?_
    cases branch with
    | front => rcases List.mem_append.mp hr with hr | hr <;> simp [Pieces.all, hr]
    | back => rcases List.mem_append.mp hr with hr | hr <;> simp [Pieces.all, hr]
  induction h with
  | bare => exact .self
  | leave _ _ hq => exact hpiece hq
  | go _ _ hr _ ih => exact (hpiece hr).trans ih

theorem lineage_clipTo (t other : BspTree α) : Lineage 0 t.polygons (t.clipTo other).polygons := by
  intro q hq
  simp only [clipTo, polygons, Array.toList_map, List.flatMap_map, List.mem_flatMap] at hq
  obtain ⟨node, hnode, hq⟩ := hq
  obtain ⟨p, hp, hout⟩ := comesOut_of_mem_clip hq
  exact ⟨p, List.mem_flatMap.mpr ⟨node, hnode, hp⟩, hout.descends⟩

theorem lineage_invert (t : BspTree α) : Lineage 1 t.polygons t.invert.polygons := by
  intro q hq
  rw [polygons_invert] at hq
  obtain ⟨p, hp, rfl⟩ := List.mem_map.mp hq
  exact ⟨p, hp, .turn .self⟩

end BspTree

namespace Solid

open BspTree

/-! ## Booleans -/

/-- How often the first tree is turned over before the second one goes into it. The result is turned over as often. -/
def turnsOfFirst : BooleanKind → Nat
  | .union => 0
  | .subtract | .intersect => 1

/-- How often the second tree is turned over before it goes into the first one. -/
def turnsOfSecond : BooleanKind → Nat
  | .union | .subtract => 2
  | .intersect => 1

theorem lineage_clipped (kind : BooleanKind) (a b : BspTree α) :
    Lineage (turnsOfFirst kind) a.polygons (clipped kind a b).1.polygons ∧
      Lineage (turnsOfSecond kind) b.polygons (clipped kind a b).2.polygons := by
  have hturnedBack (a : BspTree α) : Lineage 2 b.polygons ((b.clipTo a).invert.clipTo a).invert.polygons :=
    (lineage_clipTo _ _).trans <| (lineage_invert _).trans <| (lineage_clipTo _ _).trans (lineage_invert _)
  cases kind with
  | union => exact ⟨lineage_clipTo _ _, hturnedBack _⟩
  | subtract => exact ⟨(lineage_invert _).trans (lineage_clipTo _ _), hturnedBack _⟩
  | intersect =>
    refine ⟨(lineage_invert _).trans (lineage_clipTo _ _), ?_⟩
    exact (lineage_clipTo _ _).trans <| (lineage_invert _).trans (lineage_clipTo _ _)

theorem lineage_closed (kind : BooleanKind) (t : BspTree α) :
    Lineage (turnsOfFirst kind) t.polygons (closed kind t).polygons := by
  cases kind with
  | union => exact .refl _
  | subtract | intersect => exact lineage_invert t

/-- Each polygon of a result comes from one polygon of the two solids by cuts and turns, and so does its plane. It is
turned over an even number of times, unless it comes from a solid that is taken away. -/
theorem polygons_descend {s t r : Solid α} {kind : BooleanKind} (h : s.combine? t kind = some r) :
    ∀ q ∈ r.polygons,
      (∃ p ∈ s.polygons, ∃ n, p.Descends n q ∧ Even n ∧ q.plane = Plane.flip^[n] p.plane) ∨
      (∃ p ∈ t.polygons, ∃ n, p.Descends n q ∧ (if kind = .subtract then Odd n else Even n) ∧
        q.plane = Plane.flip^[n] p.plane) := by
  rw [combine?_eq] at h
  obtain ⟨a, ha, h⟩ := Option.bind_eq_some_iff.mp h
  obtain ⟨b, hb, h⟩ := Option.bind_eq_some_iff.mp h
  obtain ⟨c, hc, rfl⟩ := Option.map_eq_some_iff.mp h
  obtain ⟨hfirst, hsecond⟩ := lineage_clipped kind a b
  have hinserted := (wellFormed_clipped (b := b) kind (wellFormed_ofPolygons ha)).lineage_insert hc
  intro q hq
  obtain ⟨q', hq', hdescends⟩ := (hinserted.trans (lineage_closed kind c)) q hq
  rw [Nat.zero_add] at hdescends
  rcases List.mem_append.mp hq' with hq' | hq'
  · obtain ⟨p, hp, hbefore⟩ := ((lineage_ofPolygons ha).trans hfirst) q' hq'
    have hall := hbefore.trans hdescends
    refine Or.inl ⟨p, hp, _, hall, ?_, hall.plane_eq⟩
    cases kind <;> decide
  · obtain ⟨p, hp, hbefore⟩ := ((lineage_ofPolygons hb).trans hsecond) q' hq'
    have hall := hbefore.trans hdescends
    refine Or.inr ⟨p, hp, _, hall, ?_, hall.plane_eq⟩
    cases kind <;> decide

/-- A triangle that stands upright on the facet and cuts through it. -/
def blade : Solid Float := ofMesh ⟨#[⟨0.25, -1, -1⟩, ⟨0.25, 2, -1⟩, ⟨0.25, 0, 2⟩], #[⟨0, 1, 2⟩], none⟩

/-- One fragment of each triangle is left, and the one that is taken away has been turned three times. -/
theorem facet_less_blade :
    ∃ r, facet.combine? blade .subtract = some r ∧ r.polygons.map (fun q => q.plane.normal) = [⟨0, 0, 1⟩, ⟨-1, -0, -0⟩] ∧
      ∀ q ∈ r.polygons,
        (∃ p ∈ facet.polygons, ∃ n, p.Descends n q ∧ Even n ∧ q.plane = Plane.flip^[n] p.plane) ∨
        (∃ p ∈ blade.polygons, ∃ n, p.Descends n q ∧ Odd n ∧ q.plane = Plane.flip^[n] p.plane) := by
  obtain ⟨r, hr, hplanes⟩ : ∃ r, facet.combine? blade .subtract = some r ∧
      r.polygons.map (fun q => q.plane.normal) = [⟨0, 0, 1⟩, ⟨-1, -0, -0⟩] := by
    rw [combine?_eq, ofPolygons_of_run 1 (by decide +kernel), Option.bind_some,
      ofPolygons_of_run 1 (by decide +kernel), Option.bind_some, insert_of_run 3 (by decide +kernel), Option.map_some]
    exact ⟨_, rfl, by decide +kernel⟩
  exact ⟨r, hr, hplanes, polygons_descend hr⟩

end Solid

end SolidScript

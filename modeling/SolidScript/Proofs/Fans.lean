import Mathlib
import SolidScript.Solid.Boolean

/-!
# Polygons as fans of triangles

A solid becomes a mesh polygon by polygon, each with vertices of its own and a fan of triangles around the first of
them. A mesh that becomes a solid and then a mesh again keeps the triangles that have a plane, corner by corner.
-/

namespace SolidScript

open Scalar

variable {α : Type}

abbrev Facet (α : Type) := Vec3 α × Vec3 α × Vec3 α

namespace Polygon

def fan (p : Polygon α) (base : Nat) : List Triangle :=
  (List.range (p.corners.length - 2)).map fun i => ⟨base, base + i + 1, base + i + 2⟩

def facets (p : Polygon α) : List (Facet α) :=
  match p.corners with
  | [] => []
  | c :: rest => (rest.zip rest.tail).map fun (d, e) => (c.position, d.position, e.position)

end Polygon

namespace Solid

/-- The fans of polygons whose corners stand one behind the other, from `base` on. -/
def fans : Nat → List (Polygon α) → List Triangle
  | _, [] => []
  | base, p :: rest => p.fan base ++ fans (base + p.corners.length) rest

end Solid

variable [Scalar α]

def Facet.hasPlane (f : Facet α) : Bool := (Plane.ofPoints? f.1 f.2.1 f.2.2).isSome

namespace Mesh

def facets (m : Mesh α) : List (Facet α) := m.triangles.toList.map fun t => (m.point t.a, m.point t.b, m.point t.c)

/-- A vertex with a unit normal for each corner. Normals there are none as long as there is no vertex. -/
def ofCorners (corners : List (Corner α)) (triangles : List Triangle) : Mesh α :=
  { vertices := (corners.map Corner.position).toArray
    triangles := triangles.toArray
    normals := if corners.isEmpty then none else some (corners.map fun c => c.normal.normalize).toArray }

/-! ## Growing by vertices and triangles -/

variable (corners : List (Corner α)) (triangles : List Triangle)

theorem addVertexWithNormal_ofCorners (c : Corner α) :
    (ofCorners corners triangles).addVertexWithNormal c.position c.normal.normalize =
      ofCorners (corners ++ [c]) triangles := by
  cases corners <;> simp [ofCorners, addVertexWithNormal]

theorem pushTriangle_ofCorners (t : Triangle) :
    (ofCorners corners triangles).pushTriangle t = ofCorners corners (triangles ++ [t]) := by
  simp [ofCorners, pushTriangle]

theorem foldl_addVertexWithNormal (more : List (Corner α)) :
    more.foldl (fun m c => m.addVertexWithNormal c.position c.normal.normalize) (ofCorners corners triangles) =
      ofCorners (corners ++ more) triangles := by
  induction more generalizing corners with
  | nil => simp
  | cons c rest ih => rw [List.foldl_cons, addVertexWithNormal_ofCorners, ih, List.append_assoc, List.singleton_append]

theorem foldl_pushTriangle (more : List Triangle) :
    more.foldl pushTriangle (ofCorners corners triangles) = ofCorners corners (triangles ++ more) := by
  induction more generalizing triangles with
  | nil => simp
  | cons t rest ih => rw [List.foldl_cons, pushTriangle_ofCorners, ih, List.append_assoc, List.singleton_append]

theorem addFan_ofCorners (p : Polygon α) :
    Solid.addFan (ofCorners corners triangles) p =
      ofCorners (corners ++ p.corners) (triangles ++ p.fan corners.length) := by
  have hcount : (ofCorners corners triangles).vertexCount = corners.length := by simp [ofCorners, vertexCount]
  unfold Solid.addFan
  dsimp only
  rw [hcount, foldl_addVertexWithNormal, ← foldl_pushTriangle, Polygon.fan, List.foldl_map]

end Mesh

namespace Solid

open Mesh

theorem foldl_addFan (corners : List (Corner α)) (triangles : List Triangle) (polygons : List (Polygon α)) :
    polygons.foldl addFan (ofCorners corners triangles) =
      ofCorners (corners ++ polygons.flatMap Polygon.corners) (triangles ++ fans corners.length polygons) := by
  induction polygons generalizing corners triangles with
  | nil => simp [fans]
  | cons p rest ih => simp [addFan_ofCorners, ih, fans]

theorem toMesh_eq (s : Solid α) :
    s.toMesh = ofCorners (s.polygons.flatMap Polygon.corners) (fans 0 s.polygons) :=
  foldl_addFan [] [] s.polygons

/-! ## Where the corners of a fan are -/

def facetOf (corners : List (Corner α)) (t : Triangle) : Facet α :=
  (position t.a, position t.b, position t.c)
where
  position (i : Nat) : Vec3 α := (corners.map Corner.position).getD i Vec3.zero

theorem facets_ofCorners (corners : List (Corner α)) (triangles : List Triangle) :
    (ofCorners corners triangles).facets = triangles.map (facetOf corners) := by
  simp [Mesh.facets, ofCorners, facetOf, facetOf.position, point, Array.getD_eq_getD_getElem?, List.getD_eq_getElem?_getD]

theorem map_facetOf_fan (before after : List (Corner α)) (p : Polygon α) :
    (p.fan before.length).map (facetOf (before ++ p.corners ++ after)) = p.facets := by
  -- The polygon has its corners one after another in the list, behind those before it.
  have hposition (j : Nat) (hj : j < p.corners.length) :
      facetOf.position (before ++ p.corners ++ after) (before.length + j) = p.corners[j].position := by
    simp [facetOf.position, List.getD_eq_getElem?_getD, List.getElem?_append_right, List.getElem?_append_left, hj]
  unfold Polygon.fan Polygon.facets
  cases hcorners : p.corners with
  | nil => rfl
  | cons c rest =>
    simp only [hcorners, List.length_cons] at hposition ⊢
    apply List.ext_getElem
    · simp
    · intro i hi _
      simp only [List.length_map, List.length_range] at hi
      have hfirst := hposition 0 (by omega)
      have hsecond := hposition (i + 1) (by omega)
      have hthird := hposition (i + 2) (by omega)
      simp only [← Nat.add_assoc, Nat.add_zero, List.getElem_cons_zero, List.getElem_cons_succ] at hfirst hsecond hthird
      simp only [List.getElem_map, List.getElem_range, List.getElem_zip, List.getElem_tail, facetOf, hfirst, hsecond,
        hthird]

theorem map_facetOf_fans (before : List (Corner α)) (polygons : List (Polygon α)) :
    (fans before.length polygons).map (facetOf (before ++ polygons.flatMap Polygon.corners)) =
      polygons.flatMap Polygon.facets := by
  induction polygons generalizing before with
  | nil => rfl
  | cons p rest ih =>
    have hrest := ih (before ++ p.corners)
    rw [List.length_append] at hrest
    rw [fans, List.flatMap_cons, List.map_append, ← List.append_assoc, map_facetOf_fan, hrest, List.flatMap_cons]

theorem facets_toMesh (s : Solid α) : s.toMesh.facets = s.polygons.flatMap Polygon.facets := by
  rw [toMesh_eq, facets_ofCorners]
  exact map_facetOf_fans [] s.polygons

/-! ## Triangles that become polygons -/

theorem facets_ofCorners? (a b c : Corner α) :
    (Polygon.ofCorners? [a, b, c]).toList.flatMap Polygon.facets =
      [(a.position, b.position, c.position)].filter Facet.hasPlane := by
  unfold Polygon.ofCorners? Facet.hasPlane
  cases hplane : Plane.ofPoints? a.position b.position c.position <;> simp [hplane, Polygon.facets]

theorem facets_ofMesh (m : Mesh α) : (ofMesh m).polygons.flatMap Polygon.facets = m.facets.filter Facet.hasPlane := by
  have hfilter (facet : Triangle → Facet α) (triangles : List Triangle) : (triangles.map facet).filter Facet.hasPlane =
      triangles.flatMap fun t => [facet t].filter Facet.hasPlane := by
    induction triangles with
    | nil => rfl
    | cons t rest ih => rw [List.map_cons, List.flatMap_cons, ← ih, ← List.filter_append, List.singleton_append]
  unfold ofMesh Mesh.facets
  dsimp only
  rw [List.filterMap_eq_flatMap_toList, List.flatMap_assoc, hfilter]
  exact List.flatMap_congr fun t _ => facets_ofCorners? _ _ _

theorem length_corners_ofMesh (m : Mesh α) : ∀ p ∈ (ofMesh m).polygons, p.corners.length = 3 := by
  intro p hp
  obtain ⟨t, -, ht⟩ := List.mem_filterMap.mp hp
  obtain ⟨plane, -, rfl⟩ := Option.map_eq_some_iff.mp ht
  rfl

omit [Scalar α] in
theorem indices_fans {polygons : List (Polygon α)} (h : ∀ p ∈ polygons, p.corners.length = 3) (base : Nat) :
    (fans base polygons).flatMap Triangle.toList = List.range' base (3 * polygons.length) := by
  induction polygons generalizing base with
  | nil => rfl
  | cons p rest ih =>
    simp only [List.forall_mem_cons] at h
    obtain ⟨hp, hrest⟩ := h
    have hfan : p.fan base = [⟨base, base + 1, base + 2⟩] := by simp [Polygon.fan, hp]
    rw [fans, hfan, hp, List.flatMap_append, ih hrest, List.length_cons, Nat.mul_succ]
    rfl

omit [Scalar α] in
theorem length_flatMap_corners {polygons : List (Polygon α)} (h : ∀ p ∈ polygons, p.corners.length = 3) :
    (polygons.flatMap Polygon.corners).length = 3 * polygons.length := by
  rw [List.length_flatMap, List.map_congr_left h, List.map_const', List.sum_replicate, smul_eq_mul, Nat.mul_comm]

theorem indices_toMesh_ofMesh (m : Mesh α) :
    (ofMesh m).toMesh.indices = List.range (ofMesh m).toMesh.vertexCount := by
  have htriangles := length_corners_ofMesh m
  have hcount : (ofMesh m).toMesh.vertexCount = 3 * (ofMesh m).polygons.length := by
    rw [toMesh_eq, ← length_flatMap_corners htriangles]
    simp [ofCorners, vertexCount]
  rw [hcount, List.range_eq_range', ← indices_fans htriangles 0, toMesh_eq]
  rfl

/-- A mesh that becomes a solid and then a mesh again keeps just the triangles that have a plane, in their order and
each from the same first corner on, with vertices numbered in a row. Any solid becomes a mesh polygon by polygon: the
corners are the vertices, and the triangles are the fans. -/
theorem facets_kept_and_fanned :
    (∀ m : Mesh α, (ofMesh m).toMesh.facets = m.facets.filter Facet.hasPlane ∧
      (ofMesh m).toMesh.indices = List.range (ofMesh m).toMesh.vertexCount) ∧
    ∀ s : Solid α, s.toMesh = ofCorners (s.polygons.flatMap Polygon.corners) (fans 0 s.polygons) ∧
      s.toMesh.facets = s.polygons.flatMap Polygon.facets := by
  refine ⟨fun m => ⟨?_, indices_toMesh_ofMesh m⟩, fun s => ⟨toMesh_eq s, facets_toMesh s⟩⟩
  rw [facets_toMesh, facets_ofMesh]

end Solid

end SolidScript

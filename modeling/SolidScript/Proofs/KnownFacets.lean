import Mathlib.Algebra.Order.Field.Basic
import SolidScript.Proofs.EdgeChecks
import SolidScript.Proofs.Generators
import SolidScript.Proofs.Volumes

/-!
# Meshes with known facets

A mesh that is made face by face has the facets of its faces, each turned the way it is to look. Whether such a mesh is
closed once equal positions are one vertex can be told from the facets alone, and a map that keeps points apart keeps
it closed.
-/

namespace SolidScript

open Scalar

/-! ## Closed surfaces of facets -/

namespace Facet

variable {α β : Type}

/-- Each side has two ends. It is passed once, and once in the other direction. -/
def Sealed (facets : List (Facet α)) : Prop :=
  (allSides facets).Nodup ∧ ∀ s ∈ allSides facets, s.1 ≠ s.2 ∧ s.swap ∈ allSides facets

variable {facets : List (Facet α)}

theorem Sealed.image (h : Sealed facets) {f : Vec3 α → Vec3 β} (hf : Function.Injective f) :
    Sealed (facets.map (map f)) := by
  obtain ⟨hnodup, hsides⟩ := h
  unfold Sealed
  rw [allSides_map]
  refine ⟨hnodup.map (hf.prodMap hf), fun _ himage => ?_⟩
  obtain ⟨s, hs, rfl⟩ := List.mem_map.mp himage
  obtain ⟨hends, hback⟩ := hsides s hs
  exact ⟨hf.ne hends, List.mem_map.mpr ⟨s.swap, hback, rfl⟩⟩

theorem Sealed.paired (h : Sealed facets) : Paired facets := by
  obtain ⟨hnodup, hsides⟩ := h
  unfold Paired
  rw [Multiset.map_coe, Multiset.coe_eq_coe,
    List.perm_ext_iff_of_nodup (hnodup.map Prod.swap_injective) hnodup]
  intro s
  rw [List.mem_map]
  constructor
  · rintro ⟨s, hs, rfl⟩
    exact (hsides s hs).2
  · exact fun hs => ⟨s.swap, (hsides s hs).2, s.swap_swap⟩

end Facet

/-! ## Checking by numbers -/

/-- No number comes twice, or is among the bits that are set before. -/
def distinctBits : Nat → List Nat → Bool
  | _, [] => true
  | bits, n :: rest => !bits.testBit n && distinctBits (bits ||| 2 ^ n) rest

def bitsOf : List Nat → Nat
  | [] => 0
  | n :: rest => 2 ^ n ||| bitsOf rest

theorem nodup_of_distinctBits {bits : Nat} {numbers : List Nat} (h : distinctBits bits numbers = true) :
    numbers.Nodup ∧ ∀ n ∈ numbers, bits.testBit n = false := by
  induction numbers generalizing bits with
  | nil => simp
  | cons n rest ih =>
    simp only [distinctBits, Bool.and_eq_true, Bool.not_eq_true'] at h
    obtain ⟨hfirst, hrest⟩ := h
    obtain ⟨hnodup, hunset⟩ := ih hrest
    simp only [Nat.testBit_or, Nat.testBit_two_pow, Bool.or_eq_false_iff, decide_eq_false_iff_not] at hunset
    refine ⟨List.nodup_cons.mpr ⟨fun hn => (hunset n hn).2 rfl, hnodup⟩, ?_⟩
    rw [List.forall_mem_cons]
    exact ⟨hfirst, fun n' hn' => (hunset n' hn').1⟩

theorem testBit_bitsOf {numbers : List Nat} {n : Nat} : (bitsOf numbers).testBit n = true ↔ n ∈ numbers := by
  induction numbers with
  | nil => simp [bitsOf]
  | cons n' rest ih =>
    rw [bitsOf, Nat.testBit_or, Nat.testBit_two_pow, Bool.or_eq_true, ih, decide_eq_true_iff, List.mem_cons,
      eq_comm (a := n)]

namespace Facet

variable {α : Type}

/-- Whether facets are sealed, told from numbers for the points. -/
def sealedBy (number : Vec3 α → Nat) (facets : List (Facet α)) : Bool :=
  let sides := (allSides facets).map (Prod.map number number)
  distinctBits 0 (sides.map fun s => Nat.pair s.1 s.2) &&
    bitsOf (sides.map fun s => Nat.pair s.2 s.1) == bitsOf (sides.map fun s => Nat.pair s.1 s.2) &&
      sides.all fun s => s.1 != s.2

theorem sealed_of_sealedBy {number : Vec3 α → Nat} (hnumber : Function.Injective number) {facets : List (Facet α)}
    (h : sealedBy number facets = true) : Sealed facets := by
  simp only [sealedBy, Bool.and_eq_true, beq_iff_eq, List.all_eq_true, bne_iff_ne] at h
  obtain ⟨⟨hdistinct, hbits⟩, hends⟩ := h
  refine ⟨(nodup_of_distinctBits hdistinct).1.of_map.of_map, fun s hs => ⟨?_, ?_⟩⟩
  · exact fun heq => hends _ (List.mem_map_of_mem hs) (congrArg number heq)
  · have hback : Nat.pair (number s.2) (number s.1) ∈
        ((allSides facets).map (Prod.map number number)).map fun s => Nat.pair s.1 s.2 := by
      rw [← testBit_bitsOf, ← hbits, testBit_bitsOf]
      exact List.mem_map_of_mem (List.mem_map_of_mem hs)
    rw [List.map_map] at hback
    obtain ⟨s', hs', hpair⟩ := List.mem_map.mp hback
    obtain ⟨hfirst, hsecond⟩ := Nat.pair_eq_pair.mp hpair
    have heq : s' = s.swap := Prod.ext (hnumber hfirst) (hnumber hsecond)
    rwa [heq] at hs'

end Facet

/-! ## Equal positions as one vertex -/

namespace Mesh

variable {α : Type} [Scalar α] {m : Mesh α}

theorem point_injective (hvertices : m.vertices.toList.Nodup) {i j : Nat} (hi : i < m.vertexCount)
    (hj : j < m.vertexCount) (h : m.point i = m.point j) : i = j := by
  unfold point vertexCount at *
  rw [Array.getD_eq_getD_getElem?, Array.getD_eq_getD_getElem?, Array.getElem?_eq_getElem hi,
    Array.getElem?_eq_getElem hj] at h
  exact hvertices.getElem_inj_iff.mp h

omit [Scalar α] in
theorem Valid.directedEdges_lt (h : m.Valid) {e : Nat × Nat} (he : e ∈ m.directedEdges) :
    e.1 < m.vertexCount ∧ e.2 < m.vertexCount := by
  obtain ⟨t, ht, he⟩ := List.mem_flatMap.mp he
  obtain ⟨ha, hb, hc⟩ := Triangle.corners_lt (h.inRange t (Array.mem_toList_iff.mp ht))
  simp only [Triangle.directedEdges, List.mem_cons, List.not_mem_nil, or_false] at he
  rcases he with rfl | rfl | rfl
  · exact ⟨ha, hb⟩
  · exact ⟨hb, hc⟩
  · exact ⟨hc, ha⟩

/-- Where each position is one vertex, the facets say it all. -/
theorem Valid.closed_of_sealed (h : m.Valid) (hvertices : m.vertices.toList.Nodup) (hsealed : Facet.Sealed m.facets) :
    m.isClosed = true ∧ m.hasConsistentWinding = true := by
  obtain ⟨hnodup, hsides⟩ := hsealed
  rw [allSides_facets] at hnodup hsides
  have hside {e : Nat × Nat} (he : e ∈ m.directedEdges) := hsides _ (List.mem_map.mpr ⟨e, he, rfl⟩)
  have hback {e : Nat × Nat} (he : e ∈ m.directedEdges) : e.swap ∈ m.directedEdges := by
    obtain ⟨e', he', hpoints⟩ := List.mem_map.mp (hside he).2
    obtain ⟨hfirst, hsecond⟩ := Prod.mk.inj hpoints
    obtain ⟨hlt₁, hlt₂⟩ := h.directedEdges_lt he
    obtain ⟨hlt₁', hlt₂'⟩ := h.directedEdges_lt he'
    -- Both edges join the same positions, and so the same vertices.
    have heq : e' = e.swap :=
      Prod.ext (point_injective hvertices hlt₁' hlt₂ hfirst) (point_injective hvertices hlt₂' hlt₁ hsecond)
    rwa [heq] at he'
  have hplain : m.PlainTriangles := by
    intro t ht
    have hends (e : Nat × Nat) (he : e ∈ t.directedEdges) : e.1 ≠ e.2 := fun heq =>
      (hside (List.mem_flatMap.mpr ⟨t, Array.mem_toList_iff.mpr ht, he⟩)).1 (congrArg m.point heq)
    simp only [Triangle.directedEdges, List.forall_mem_cons] at hends
    obtain ⟨hab, hbc, hca, -⟩ := hends
    simp [Triangle.repeatsCorner, hab, hbc, Ne.symm hca]
  refine hplain.closed_and_consistent_iff.mpr fun e he => ?_
  have honce := hnodup.of_map
  exact ⟨List.count_eq_one_of_mem honce he, List.count_eq_one_of_mem honce (hback he)⟩

variable [DecidableEq α]

/-- The mesh with one vertex for each position. -/
def identified (m : Mesh α) : Mesh α :=
  let positions := m.vertices.toList.dedup
  { vertices := positions.toArray
    triangles := m.triangles.map (·.map fun i => positions.idxOf (m.point i))
    normals := none }

theorem nodup_identified (m : Mesh α) : m.identified.vertices.toList.Nodup := List.nodup_dedup _

theorem idxOf_point_lt {i : Nat} (hi : i < m.vertexCount) :
    m.vertices.toList.dedup.idxOf (m.point i) < m.identified.vertexCount := by
  show _ < m.vertices.toList.dedup.toArray.size
  rw [List.size_toArray, List.idxOf_lt_length_iff, List.mem_dedup]
  unfold point
  rw [Array.getD_eq_getD_getElem?, Array.getElem?_eq_getElem hi]
  exact Array.getElem_mem_toList hi

theorem point_identified {i : Nat} (hi : i < m.vertexCount) :
    m.identified.point (m.vertices.toList.dedup.idxOf (m.point i)) = m.point i := by
  have hlt := idxOf_point_lt hi
  unfold point at *
  rw [Array.getD_eq_getD_getElem?, Array.getElem?_eq_getElem hlt]
  exact List.getElem_idxOf hlt

theorem Valid.identified (h : m.Valid) : m.identified.Valid where
  inRange _ hmapped := by
    obtain ⟨t, ht, rfl⟩ := Array.mem_map.mp hmapped
    refine Triangle.top_map_lt fun i hi => idxOf_point_lt ?_
    exact (Triangle.top_lt_iff t m.vertexCount).mp (h.inRange t ht) i hi
  normalCount := by rintro _ ⟨⟩

theorem Valid.facets_identified (h : m.Valid) : m.identified.facets = m.facets := by
  have htriangles : m.identified.triangles =
      m.triangles.map (·.map fun i => m.vertices.toList.dedup.idxOf (m.point i)) := rfl
  unfold facets
  rw [htriangles, Array.toList_map, List.map_map]
  refine List.map_congr_left fun t ht => ?_
  obtain ⟨ha, hb, hc⟩ := Triangle.corners_lt (h.inRange t (Array.mem_toList_iff.mp ht))
  simp only [Function.comp_apply, Triangle.map, point_identified ha, point_identified hb, point_identified hc]

theorem Valid.identified_closed (h : m.Valid) (hsealed : Facet.Sealed m.facets) :
    m.identified.isClosed = true ∧ m.identified.hasConsistentWinding = true :=
  h.identified.closed_of_sealed (nodup_identified m) (h.facets_identified ▸ hsealed)

end Mesh

/-! ## Adding faces -/

namespace Mesh.Quad

variable {α β : Type}

def facets (q : Quad α) : List (Facet α) := [(q.p0, q.p1, q.p2), (q.p0, q.p2, q.p3)]

def image (f : Vec3 α → Vec3 β) (q : Quad α) : Quad β := ⟨f q.p0, f q.p1, f q.p2, f q.p3⟩

theorem facets_image (f : Vec3 α → Vec3 β) (q : Quad α) : (q.image f).facets = q.facets.map (Facet.map f) := rfl

def facing [Scalar α] (outward : Vec3 α) (q : Quad α) : Quad α :=
  if q.normal.dot outward < 0 then q.reverse else q

end Mesh.Quad

def Facet.facing {α : Type} [Scalar α] (outward : Vec3 α) (t : Facet α) : Facet α :=
  if (Vec3.triangleNormal t.1 t.2.1 t.2.2).dot outward < 0 then t.flip else t

namespace Mesh

variable {α : Type} [Scalar α] {m : Mesh α} {facets : List (Facet α)}

/-- A valid mesh and its facets. -/
structure Shows (m : Mesh α) (facets : List (Facet α)) : Prop where
  valid : m.Valid
  facets_eq : m.facets = facets

theorem shows_empty : (empty : Mesh α).Shows [] := ⟨valid_empty, rfl⟩

theorem Shows.triangleCount (h : m.Shows facets) : m.triangleCount = facets.length := by
  rw [← h.facets_eq, Mesh.facets, List.length_map, Array.length_toList]
  rfl

theorem Shows.append {m' : Mesh α} (h : m.Shows facets) (points : List (Vec3 α)) (triangles : List Triangle)
    (hvalid : m'.Valid) (hvertices : m'.vertices.toList = m.vertices.toList ++ points)
    (htriangles : m'.triangles.toList = m.triangles.toList ++ triangles.map (·.map (m.vertexCount + ·))) :
    m'.Shows (facets ++ Mesh.facets ⟨points.toArray, triangles.toArray, none⟩) := by
  have hvertices : m'.vertices = m.vertices ++ points.toArray := Array.toList_inj.mp (by simpa using hvertices)
  have hold {i : Nat} (hi : i < m.vertexCount) : m'.point i = m.point i := by
    simp [point, Array.getD_eq_getD_getElem?, hvertices, Array.getElem?_append_left hi]
  have hnew (i : Nat) : m'.point (m.vertexCount + i) = Mesh.point ⟨points.toArray, triangles.toArray, none⟩ i := by
    simp [point, vertexCount, Array.getD_eq_getD_getElem?, hvertices, Array.getElem?_append_right]
  refine ⟨hvalid, ?_⟩
  rw [← h.facets_eq]
  unfold Mesh.facets
  rw [htriangles, List.map_append, List.map_map]
  congr 1
  · refine List.map_congr_left fun t ht => ?_
    obtain ⟨ha, hb, hc⟩ := Triangle.corners_lt (h.valid.inRange t (Array.mem_toList_iff.mp ht))
    rw [hold ha, hold hb, hold hc]
  · refine List.map_congr_left fun t _ => ?_
    simp only [Function.comp_apply, Triangle.map, hnew]

theorem Shows.addQuad (h : m.Shows facets) (q : Quad α) (normal : Vec3 α) :
    (m.addQuad q normal).Shows (facets ++ q.facets) :=
  h.append [q.p0, q.p1, q.p2, q.p3] [⟨0, 1, 2⟩, ⟨0, 2, 3⟩] (h.valid.addQuad q normal)
    (by simp [Mesh.addQuad, addVertexWithNormal, pushTriangle])
    (by simp [Mesh.addQuad, addVertexWithNormal, pushTriangle, Triangle.map])

theorem Shows.addQuadFacing (h : m.Shows facets) (q : Quad α) (outward : Vec3 α) :
    (m.addQuadFacing q outward).Shows (facets ++ (q.facing outward).facets) := h.addQuad _ _

theorem Shows.addTriangleFacing (h : m.Shows facets) (t : Facet α) (outward : Vec3 α) :
    (m.addTriangleFacing t.1 t.2.1 t.2.2 outward).Shows (facets ++ [t.facing outward]) := by
  have hadd (q1 q2 : Vec3 α) (hturned : m.addTriangleFacing t.1 t.2.1 t.2.2 outward =
      (((m.addVertexWithNormal t.1 outward.normalize).addVertexWithNormal q1 outward.normalize).addVertexWithNormal q2
        outward.normalize).pushTriangle ⟨m.vertexCount, m.vertexCount + 1, m.vertexCount + 2⟩) :
      (m.addTriangleFacing t.1 t.2.1 t.2.2 outward).Shows (facets ++ [(t.1, q1, q2)]) := by
    refine h.append [t.1, q1, q2] [⟨0, 1, 2⟩] (h.valid.addTriangleFacing _ _ _ _) ?_ ?_
    all_goals simp [hturned, addVertexWithNormal, pushTriangle, Triangle.map]
  by_cases hneg : (Vec3.triangleNormal t.1 t.2.1 t.2.2).dot outward < 0
  · rw [Facet.facing, if_pos hneg]
    exact hadd t.2.2 t.2.1 (by rw [Mesh.addTriangleFacing, if_pos hneg])
  · rw [Facet.facing, if_neg hneg]
    exact hadd t.2.1 t.2.2 (by rw [Mesh.addTriangleFacing, if_neg hneg])

theorem Shows.foldl {β : Type} (h : m.Shows facets) {add : Mesh α → β → Mesh α} {shown : β → List (Facet α)}
    (items : List β)
    (hadd : ∀ {m : Mesh α} {facets} b, b ∈ items → m.Shows facets → (add m b).Shows (facets ++ shown b)) :
    (items.foldl add m).Shows (facets ++ items.flatMap shown) := by
  induction items generalizing m facets with
  | nil => simpa using h
  | cons b rest ih =>
    rw [List.foldl_cons, List.flatMap_cons, ← List.append_assoc]
    exact ih (hadd b List.mem_cons_self h) fun b hb => hadd b (List.mem_cons_of_mem _ hb)

end Mesh

end SolidScript

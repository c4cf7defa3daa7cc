import SolidScript.Mesh.Combine
import SolidScript.Mesh.Facing
import SolidScript.Proofs.GuardedReads
import SolidScript.Proofs.Welding

/-!
# Meshes that are changed in place

A mesh is changed by one call after another. Each call leaves triangles that name vertices of the mesh and as many
normals as vertices, also when it breaks off; a call that is refused leaves the mesh as it was.
-/

namespace SolidScript

open Scalar

namespace Triangle

@[simp]
theorem top_flip (t : Triangle) : t.flip.top = t.top := by
  show max (max t.a t.c) t.b = max (max t.a t.b) t.c
  omega

theorem top_map_lt {t : Triangle} {f : Nat → Nat} {n : Nat} (h : ∀ i ∈ t.toList, f i < n) : (t.map f).top < n := by
  rw [top_lt_iff]
  simpa [toList, map] using h

end Triangle

namespace Mesh

variable {α : Type}

/-! ## Buffers that fit together -/

/-- Whole triangles over vertices that exist, and a normal for each vertex if there are normals. -/
structure Consistent (m : Mesh α) : Prop where
  byThrees : m.indices.length % 3 = 0
  inRange : ∀ i ∈ m.indices, i < m.vertexCount
  normalCount : ∀ ns ∈ m.normals, ns.size = m.vertexCount

theorem consistent_iff_valid (m : Mesh α) : m.Consistent ↔ m.Valid :=
  ⟨fun h => ⟨(indices_lt_iff m).mp h.inRange, h.normalCount⟩,
    fun h => ⟨indices_byThrees m, (indices_lt_iff m).mpr h.inRange, h.normalCount⟩⟩

theorem valid_empty : (empty : Mesh α).Valid := ⟨by simp [empty], by simp [empty]⟩

theorem Valid.of_triangles_eq {m m' : Mesh α} (h : m.Valid) (htriangles : m'.triangles = m.triangles)
    (hcount : m.vertexCount ≤ m'.vertexCount) (hnormals : ∀ ns ∈ m'.normals, ns.size = m'.vertexCount) :
    m'.Valid where
  inRange t ht := Nat.lt_of_lt_of_le (h.inRange t (htriangles ▸ ht)) hcount
  normalCount := hnormals

theorem Valid.pushTriangle {m : Mesh α} (h : m.Valid) {t : Triangle} (ht : t.top < m.vertexCount) :
    (m.pushTriangle t).Valid where
  inRange t' ht' := by
    rcases Array.mem_push.mp ht' with hold | rfl
    · exact h.inRange t' hold
    · exact ht
  normalCount := h.normalCount

@[simp]
theorem vertexCount_pushTriangle (m : Mesh α) (t : Triangle) : (m.pushTriangle t).vertexCount = m.vertexCount := rfl

theorem le_top_iff (t : Triangle) (n : Nat) : n ≤ t.top ↔ ∃ i ∈ t.toList, n ≤ i := by
  rw [← not_lt, t.top_lt_iff]
  simp

theorem addTriangle_of_lt {m : Mesh α} {t : Triangle} (h : t.top < m.vertexCount) :
    m.addTriangle t = .ok (m.pushTriangle t) := if_pos h

theorem addTriangle_cases {m : Mesh α} (h : m.Valid) (t : Triangle) :
    (t.top < m.vertexCount ∧ ∃ m', m.addTriangle t = .ok m' ∧ m'.Valid) ∨
      (m.vertexCount ≤ t.top ∧ ∃ error, m.addTriangle t = .error error) := by
  unfold addTriangle
  by_cases htop : t.top < m.vertexCount
  · exact Or.inl ⟨htop, _, if_pos htop, h.pushTriangle htop⟩
  · exact Or.inr ⟨Nat.le_of_not_lt htop, _, if_neg htop⟩

theorem Valid.flipTriangles {m : Mesh α} (h : m.Valid) : m.flipTriangles.Valid where
  inRange t ht := by
    obtain ⟨t', ht', rfl⟩ := Array.mem_map.mp ht
    rw [Triangle.top_flip]
    exact h.inRange t' ht'
  normalCount := h.normalCount

theorem Valid.clearNormals {m : Mesh α} (h : m.Valid) : m.clearNormals.Valid :=
  h.of_triangles_eq rfl le_rfl (by simp [Mesh.clearNormals])

theorem Valid.append {m n : Mesh α} (hm : m.Valid) (hn : n.Valid) : (m.append n).Valid where
  inRange t ht := by
    show t.top < (m.vertices ++ n.vertices).size
    rw [Array.size_append]
    rcases Array.mem_append.mp ht with hmine | htheirs
    · exact Nat.lt_add_right _ (hm.inRange t hmine)
    · obtain ⟨t', ht', rfl⟩ := Array.mem_map.mp htheirs
      refine Triangle.top_map_lt fun i hi => ?_
      have hlt := (Triangle.top_lt_iff t' _).mp (hn.inRange t' ht') i hi
      simp only [vertexCount] at hlt ⊢
      omega
  normalCount ns hns := by
    have hboth : ∃ a ∈ m.normals, ∃ b ∈ n.normals, a ++ b = ns := by
      unfold Mesh.append at hns
      cases hmine : m.normals <;> cases htheirs : n.normals <;> simp_all
    obtain ⟨a, ha, b, hb, rfl⟩ := hboth
    show (a ++ b).size = (m.vertices ++ n.vertices).size
    rw [Array.size_append, Array.size_append, hm.normalCount a ha, hn.normalCount b hb]
    rfl

variable [Scalar α]

/-! ## New vertices and faces -/

@[simp]
theorem vertexCount_addVertex (m : Mesh α) (p : Vec3 α) : (m.addVertex p).vertexCount = m.vertexCount + 1 :=
  Array.size_push p

@[simp]
theorem vertexCount_addVertexWithNormal (m : Mesh α) (p n : Vec3 α) :
    (m.addVertexWithNormal p n).vertexCount = m.vertexCount + 1 :=
  Array.size_push p

theorem Valid.addVertex {m : Mesh α} (h : m.Valid) (p : Vec3 α) : (m.addVertex p).Valid := by
  refine h.of_triangles_eq rfl (by simp) fun ns hns => ?_
  obtain ⟨old, hold, rfl⟩ := Option.map_eq_some_iff.mp hns
  rw [Array.size_push, h.normalCount old hold, vertexCount_addVertex]

theorem Valid.addVertexWithNormal {m : Mesh α} (h : m.Valid) (p n : Vec3 α) : (m.addVertexWithNormal p n).Valid := by
  refine h.of_triangles_eq rfl (by simp) fun ns hns => ?_
  obtain rfl := Option.some.inj hns
  rw [Array.size_push, vertexCount_addVertexWithNormal]
  congr 1
  cases hold : m.normals with
  | none => simp [vertexCount]
  | some ns => exact h.normalCount ns hold

theorem Valid.addQuad {m : Mesh α} (h : m.Valid) (q : Quad α) (normal : Vec3 α) : (m.addQuad q normal).Valid := by
  have hcorners := (((h.addVertexWithNormal q.p0 normal).addVertexWithNormal q.p1 normal).addVertexWithNormal
    q.p2 normal).addVertexWithNormal q.p3 normal
  exact (hcorners.pushTriangle (by simp [Triangle.top])).pushTriangle (by simp [Triangle.top])

theorem Valid.addQuadFacing {m : Mesh α} (h : m.Valid) (q : Quad α) (outward : Vec3 α) :
    (m.addQuadFacing q outward).Valid :=
  h.addQuad _ _

theorem Valid.addTriangleFacing {m : Mesh α} (h : m.Valid) (p0 p1 p2 outward : Vec3 α) :
    (m.addTriangleFacing p0 p1 p2 outward).Valid := by
  unfold Mesh.addTriangleFacing
  have hcorners (q1 q2 : Vec3 α) := ((h.addVertexWithNormal p0 outward.normalize).addVertexWithNormal q1
    outward.normalize).addVertexWithNormal q2 outward.normalize
  split
  exact (hcorners _ _).pushTriangle (by simp [Triangle.top])

/-! ## Faces over vertices that exist -/

theorem addIndexedFacing_eq_ok_iff {m m' : Mesh α} {t : Triangle} {outward : Vec3 α} :
    m.addIndexedFacing t outward = .ok m' ↔ t.top < m.vertexCount ∧
      m' = if (m.triangleNormal t).norm ≤ flatNormal then m
        else m.pushTriangle (if (m.triangleNormal t).dot outward < 0 then t.flip else t) := by
  unfold addIndexedFacing
  simp only [bind_eq_ok_iff, Guarded.triangleNormal_eq_ok_iff, and_assoc, exists_and_left, exists_eq_left]
  refine and_congr_right fun htop => ?_
  split
  · exact pure_eq_ok_iff.trans eq_comm
  · rw [addTriangle_of_lt]
    · exact pure_eq_ok_iff.trans eq_comm
    · split
      · rwa [Triangle.top_flip]
      · exact htop

theorem addIndexedFacing_cases {m : Mesh α} (h : m.Valid) (t : Triangle) (outward : Vec3 α) :
    (t.top < m.vertexCount ∧ ∃ m', m.addIndexedFacing t outward = .ok m' ∧ m'.Valid ∧
      m'.vertexCount = m.vertexCount) ∨
    (m.vertexCount ≤ t.top ∧
      ∃ i, m.addIndexedFacing t outward = .error (.fault (.missingVertex i m.vertexCount))) := by
  by_cases htop : t.top < m.vertexCount
  · refine Or.inl ⟨htop, _, addIndexedFacing_eq_ok_iff.mpr ⟨htop, rfl⟩, ?_⟩
    split
    · exact ⟨h, rfl⟩
    · refine ⟨h.pushTriangle ?_, rfl⟩
      split
      · rwa [Triangle.top_flip]
      · exact htop
  · have htop := Nat.not_lt.mp htop
    obtain ⟨i, hi⟩ := Guarded.corners_eq_error htop
    refine Or.inr ⟨htop, i, ?_⟩
    unfold addIndexedFacing Guarded.triangleNormal
    rw [hi]
    rfl

/-! ## Normals and winding -/

theorem size_addFaceNormal (m : Mesh α) (sums : Array (Vec3 α)) (t : Triangle) :
    (m.addFaceNormal sums t).size = sums.size := by
  unfold addFaceNormal
  dsimp only
  split
  · simp [Triangle.toList]
  · rfl

theorem size_faceNormalSums (m : Mesh α) : m.faceNormalSums.size = m.vertexCount := by
  unfold faceNormalSums
  refine Array.foldl_induction (fun _ (sums : Array (Vec3 α)) => sums.size = m.vertexCount) Array.size_replicate
    fun i sums hsums => ?_
  rw [size_addFaceNormal, hsums]

theorem Valid.recomputeNormals {m : Mesh α} (h : m.Valid) : m.recomputeNormals.Valid := by
  refine h.of_triangles_eq rfl le_rfl fun ns hns => ?_
  obtain rfl := Option.some.inj hns
  rw [Array.size_map, size_faceNormalSums]
  rfl

theorem Valid.ensureNormals {m : Mesh α} (h : m.Valid) : m.ensureNormals.Valid := by
  unfold Mesh.ensureNormals
  split
  · exact h
  · exact h.recomputeNormals

theorem Valid.reverseWinding {m : Mesh α} (h : m.Valid) : m.reverseWinding.Valid := by
  refine h.flipTriangles.of_triangles_eq rfl le_rfl fun ns hns => ?_
  obtain ⟨old, hold, rfl⟩ := Option.map_eq_some_iff.mp hns
  rw [Array.size_map]
  exact h.normalCount old hold

theorem Valid.orientOutward {m : Mesh α} (h : m.Valid) : m.orientOutward.Valid := by
  unfold Mesh.orientOutward
  split
  · exact h.reverseWinding
  · exact h

/-! ## Moving -/

theorem Valid.map {m : Mesh α} (h : m.Valid) (point direction : Vec3 α → Vec3 α) : (m.map point direction).Valid := by
  have hcount : (m.map point direction).vertexCount = m.vertexCount := Array.size_map
  refine h.of_triangles_eq rfl hcount.ge fun ns hns => ?_
  obtain ⟨old, hold, rfl⟩ := Option.map_eq_some_iff.mp hns
  rw [Array.size_map, h.normalCount old hold, hcount]

theorem Valid.translate {m : Mesh α} (h : m.Valid) (offset : Vec3 α) : (m.translate offset).Valid := by
  have hcount : (m.translate offset).vertexCount = m.vertexCount := Array.size_map
  refine h.of_triangles_eq rfl hcount.ge fun ns hns => ?_
  rw [h.normalCount ns hns, hcount]

theorem Valid.transform {m : Mesh α} (h : m.Valid) (matrix : Matrix4 α) : (m.transform matrix).Valid := by
  unfold Mesh.transform
  dsimp only
  split
  · exact (h.map _ _).flipTriangles
  · exact h.map _ _

/-! ## Joining -/

theorem isSome_normals_ensureNormals (m : Mesh α) : m.ensureNormals.normals.isSome = true := by
  unfold ensureNormals
  split
  · assumption
  · rfl

theorem Valid.ensureIf {m : Mesh α} (h : m.Valid) (wanted : Prop) [Decidable wanted] :
    (if wanted then m.ensureNormals else m).Valid := by
  split
  · exact h.ensureNormals
  · exact h

theorem Valid.merge {m n : Mesh α} (hm : m.Valid) (hn : n.Valid) : (m.merge n).Valid :=
  (hm.ensureIf _).append (hn.ensureIf _)

theorem Valid.foldl_merge {meshes : List (Mesh α)} (hmeshes : ∀ n ∈ meshes, n.Valid) {m : Mesh α} (h : m.Valid) :
    (meshes.foldl Mesh.merge m).Valid := by
  induction meshes generalizing m with
  | nil => exact h
  | cons n rest ih =>
    exact ih (fun n' hn' => hmeshes n' (List.mem_cons_of_mem n hn')) (h.merge (hmeshes n List.mem_cons_self))

theorem valid_concat {meshes : List (Mesh α)} (hmeshes : ∀ n ∈ meshes, n.Valid) : (concat meshes).Valid :=
  valid_empty.foldl_merge hmeshes

theorem Guarded.foldlM_merge_of_valid {meshes : List (Mesh α)} (hmeshes : ∀ n ∈ meshes, n.Valid) {m : Mesh α}
    (h : m.Valid) : meshes.foldlM Guarded.merge m = .ok (meshes.foldl Mesh.merge m) := by
  induction meshes generalizing m with
  | nil => rfl
  | cons n rest ih =>
    have hn := hmeshes n List.mem_cons_self
    rw [List.foldlM_cons, Guarded.merge_of_inRange h.inRange hn.inRange]
    exact ih (fun n' hn' => hmeshes n' (List.mem_cons_of_mem n hn')) (h.merge hn)

theorem Guarded.concat_of_valid {meshes : List (Mesh α)} (hmeshes : ∀ n ∈ meshes, n.Valid) :
    Guarded.concat meshes = .ok (Mesh.concat meshes) := Guarded.foldlM_merge_of_valid hmeshes valid_empty

/-! ## Welding -/

theorem Valid.weld {m : Mesh α} (h : m.Valid) (epsilon : α) : (m.weld epsilon).Valid := by
  by_cases hempty : m.vertices.isEmpty = true
  · rw [weld_of_isEmpty hempty]
    exact h
  · refine ⟨fun t ht => ?_, fun ns hns => ?_⟩
    · rw [h.triangles_weld] at ht
      obtain ⟨t', ht', rfl⟩ := Array.mem_map.mp ht
      exact Triangle.top_map_lt fun i hi =>
        (cellOf_weldPlace epsilon ((Triangle.top_lt_iff t' _).mp (h.inRange t' ht') i hi)).1
    · rw [normals_weld hempty] at hns
      split at hns
      · obtain rfl := Option.some.inj hns
        rw [Array.size_map, size_faceNormalSums]
      · cases hns

/-! ## Calls -/

/-- A call that changes the mesh it is made on. -/
inductive Edit (α : Type) where
  | addVertex (p : Vec3 α)
  | addVertexWithNormal (p n : Vec3 α)
  /-- A triangle that does not fit is refused. -/
  | tryAddTriangle (t : Triangle)
  | addTriangle (t : Triangle)
  | addQuad (q : Quad α) (normal : Vec3 α)
  | addQuadFacing (q : Quad α) (outward : Vec3 α)
  | addTriangleFacing (p0 p1 p2 outward : Vec3 α)
  | addIndexedFacing (t : Triangle) (outward : Vec3 α)
  | addQuadIndexedFacing (a b c d : Nat) (outward : Vec3 α)
  | merge (n : Mesh α)
  | map (point direction : Vec3 α → Vec3 α)
  | transform (matrix : Matrix4 α)
  | translate (offset : Vec3 α)
  | flipTriangles
  | reverseWinding
  | orientOutward
  | ensureNormals
  | recomputeNormals
  | clearNormals
  | weld (epsilon : α)

inductive Failure (α : Type) where
  /-- The call answers that it is refused. -/
  | refused (e : MeshError)
  /-- The call breaks off without an answer. -/
  | broken (e : OperatorError α)

/-- The mesh as a call leaves it, and why the call failed if it did. -/
structure Edited (α : Type) where
  left : Mesh α
  failure? : Option (Failure α)

namespace Edit

def done (m : Mesh α) : Edited α := ⟨m, none⟩

/-- Of a call that works out a new mesh first and then puts it in place. -/
def replace {ε : Type} (m : Mesh α) (failure : ε → Failure α) : Except ε (Mesh α) → Edited α
  | .ok m' => done m'
  | .error e => ⟨m, some (failure e)⟩

def run (m : Mesh α) : Edit α → Edited α
  | addVertex p => done (m.addVertex p)
  | addVertexWithNormal p n => done (m.addVertexWithNormal p n)
  | tryAddTriangle t => replace m .refused (m.addTriangle t)
  | addTriangle t => replace m (.broken ∘ .mesh) (m.addTriangle t)
  | addQuad q normal => done (m.addQuad q normal)
  | addQuadFacing q outward => done (m.addQuadFacing q outward)
  | addTriangleFacing p0 p1 p2 outward => done (m.addTriangleFacing p0 p1 p2 outward)
  | addIndexedFacing t outward => replace m .broken (m.addIndexedFacing t outward)
  | addQuadIndexedFacing a b c d outward =>
    -- The first triangle is in place when the second one is looked at.
    let half := (replace m .broken (m.addIndexedFacing ⟨a, b, c⟩ outward)).left
    replace half .broken (m.addQuadIndexedFacing a b c d outward)
  | merge n => replace m .broken (Guarded.merge m n)
  | map point direction => done (m.map point direction)
  | transform matrix => done (m.transform matrix)
  | translate offset => done (m.translate offset)
  | flipTriangles => done m.flipTriangles
  | reverseWinding => done m.reverseWinding
  | orientOutward => replace m .broken (Guarded.orientOutward m)
  | ensureNormals => replace m .broken (Guarded.ensureNormals m)
  | recomputeNormals => replace m .broken (Guarded.recomputeNormals m)
  | clearNormals => done m.clearNormals
  | weld epsilon => done (m.weld epsilon)

def corners : Edit α → List Nat
  | tryAddTriangle t | addTriangle t | addIndexedFacing t _ => t.toList
  | addQuadIndexedFacing a b c d _ => [a, b, c, d]
  | _ => []

/-- A mesh that is joined to another one is consistent itself. -/
def Proper : Edit α → Prop
  | merge n => n.Consistent
  | _ => True

/-- How calls end on a consistent mesh. -/
structure Keeps (m : Mesh α) (e : Edit α) : Prop where
  consistent : (e.run m).left.Consistent
  failure_iff : (e.run m).failure?.isSome = true ↔ ∃ i ∈ e.corners, m.vertexCount ≤ i
  refused : ∀ error, (e.run m).failure? = some (.refused error) → (e.run m).left = m
  /-- Only of a quad a part may stay: its first triangle. -/
  broken : ∀ error, (e.run m).failure? = some (.broken error) →
    (e.run m).left = m ∨ ∃ a b c d outward, e = .addQuadIndexedFacing a b c d outward ∧
      m.addIndexedFacing ⟨a, b, c⟩ outward = .ok (e.run m).left

section Endings

variable {m m' : Mesh α} {e : Edit α}

theorem keeps_of_done (hrun : e.run m = done m') (hcorners : ∀ i ∈ e.corners, i < m.vertexCount) (hvalid : m'.Valid) :
    e.Keeps m := by
  refine ⟨?_, ?_, ?_, ?_⟩
  all_goals rw [hrun]
  · exact (consistent_iff_valid m').mpr hvalid
  · simpa [done] using hcorners
  · simp [done]
  · simp [done]

theorem keeps_of_failed {failure : Failure α} (hrun : e.run m = ⟨m, some failure⟩)
    (hcorner : ∃ i ∈ e.corners, m.vertexCount ≤ i) (hvalid : m.Valid) : e.Keeps m := by
  refine ⟨?_, ?_, ?_, ?_⟩
  all_goals rw [hrun]
  · exact (consistent_iff_valid m).mpr hvalid
  · simpa using hcorner
  · simp
  · simp

theorem keeps_of_replaced {failure : OperatorError α → Failure α} {r : Except (OperatorError α) (Mesh α)}
    (hrun : e.run m = replace m failure r) (hr : r = .ok m') (hcorners : ∀ i ∈ e.corners, i < m.vertexCount)
    (hvalid : m'.Valid) : e.Keeps m :=
  keeps_of_done (hrun.trans (by rw [hr]; rfl)) hcorners hvalid

theorem keeps_of_replace {ε : Type} {failure : ε → Failure α} {r : Except ε (Mesh α)} {t : Triangle}
    (hrun : e.run m = replace m failure r) (hcorners : e.corners = t.toList) (hvalid : m.Valid)
    (hr : (t.top < m.vertexCount ∧ ∃ m', r = .ok m' ∧ m'.Valid) ∨ (m.vertexCount ≤ t.top ∧ ∃ error, r = .error error)) :
    e.Keeps m := by
  rcases hr with ⟨htop, m', rfl, hvalid'⟩ | ⟨htop, error, rfl⟩
  · exact keeps_of_done hrun (hcorners ▸ (t.top_lt_iff _).mp htop) hvalid'
  · exact keeps_of_failed hrun (hcorners ▸ (le_top_iff t _).mp htop) hvalid

theorem keeps_addIndexedFacing (hvalid : m.Valid) (t : Triangle) (outward : Vec3 α) :
    (addIndexedFacing t outward).Keeps m := by
  refine keeps_of_replace rfl rfl hvalid ?_
  rcases addIndexedFacing_cases hvalid t outward with ⟨htop, m', hadd, hvalid', -⟩ | ⟨htop, i, hadd⟩
  · exact Or.inl ⟨htop, m', hadd, hvalid'⟩
  · exact Or.inr ⟨htop, _, hadd⟩

omit [Scalar α] in
theorem exists_corner_of_top {t : Triangle} {n : Nat} (ht : t.toList ⊆ e.corners) (htop : n ≤ t.top) :
    ∃ i ∈ e.corners, n ≤ i := by
  obtain ⟨i, hi, hle⟩ := (le_top_iff t n).mp htop
  exact ⟨i, ht hi, hle⟩

theorem keeps_addQuadIndexedFacing (hvalid : m.Valid) (a b c d : Nat) (outward : Vec3 α) :
    (addQuadIndexedFacing a b c d outward).Keeps m := by
  have hrun : (addQuadIndexedFacing a b c d outward).run m =
      replace (replace m .broken (m.addIndexedFacing ⟨a, b, c⟩ outward)).left .broken
        (m.addIndexedFacing ⟨a, b, c⟩ outward >>= fun m => m.addIndexedFacing ⟨a, c, d⟩ outward) := rfl
  rcases addIndexedFacing_cases hvalid ⟨a, b, c⟩ outward with ⟨habc, half, hhalf, hvalid', hcount⟩ | ⟨habc, i, hfault⟩
  · rw [hhalf] at hrun
    rcases addIndexedFacing_cases hvalid' ⟨a, c, d⟩ outward with ⟨hacd, m', hadd, hvalid'', -⟩ | ⟨hacd, i, hfault⟩
    · refine keeps_of_done ?_ ?_ hvalid''
      · rw [hrun]
        show replace half .broken (half.addIndexedFacing ⟨a, c, d⟩ outward) = _
        rw [hadd]
        rfl
      · rw [hcount, Triangle.top_lt_iff] at hacd
        rw [Triangle.top_lt_iff] at habc
        simp only [Triangle.toList, corners, List.mem_cons, List.not_mem_nil, or_false, forall_eq_or_imp,
          forall_eq] at habc hacd ⊢
        exact ⟨habc.1, habc.2.1, hacd.2⟩
    · -- The second triangle fails, and the first one stays in place.
      have hbroken : (addQuadIndexedFacing a b c d outward).run m =
          ⟨half, some (.broken (.fault (.missingVertex i half.vertexCount)))⟩ := by
        rw [hrun]
        show replace half .broken (half.addIndexedFacing ⟨a, c, d⟩ outward) = _
        rw [hfault]
        rfl
      refine ⟨?_, ?_, ?_, ?_⟩
      all_goals rw [hbroken]
      · exact (consistent_iff_valid half).mpr hvalid'
      · rw [hcount] at hacd
        simp only [Option.isSome_some, true_iff]
        exact exists_corner_of_top (by simp [Triangle.toList, corners]) hacd
      · simp
      · exact fun error _ => Or.inr ⟨a, b, c, d, outward, rfl, hhalf⟩
  · have hbroken : (addQuadIndexedFacing a b c d outward).run m =
        ⟨m, some (.broken (.fault (.missingVertex i m.vertexCount)))⟩ := by
      rw [hrun, hfault]
      rfl
    exact keeps_of_failed hbroken (exists_corner_of_top (by simp [Triangle.toList, corners]) habc) hvalid

end Endings

theorem keeps {m : Mesh α} (h : m.Consistent) {e : Edit α} (hproper : e.Proper) : e.Keeps m := by
  have hvalid := (consistent_iff_valid m).mp h
  have hrange : m.InRange := hvalid.inRange
  have hnone : ∀ i ∈ ([] : List Nat), i < m.vertexCount := by simp
  cases e with
  | tryAddTriangle t => exact keeps_of_replace rfl rfl hvalid (addTriangle_cases hvalid t)
  | addTriangle t => exact keeps_of_replace rfl rfl hvalid (addTriangle_cases hvalid t)
  | addIndexedFacing t outward => exact keeps_addIndexedFacing hvalid t outward
  | addQuadIndexedFacing a b c d outward => exact keeps_addQuadIndexedFacing hvalid a b c d outward
  | addVertex p => exact keeps_of_done rfl hnone (hvalid.addVertex p)
  | addVertexWithNormal p n => exact keeps_of_done rfl hnone (hvalid.addVertexWithNormal p n)
  | addQuad q normal => exact keeps_of_done rfl hnone (hvalid.addQuad q normal)
  | addQuadFacing q outward => exact keeps_of_done rfl hnone (hvalid.addQuadFacing q outward)
  | addTriangleFacing p0 p1 p2 outward => exact keeps_of_done rfl hnone (hvalid.addTriangleFacing p0 p1 p2 outward)
  | merge n =>
    have hn := (consistent_iff_valid n).mp hproper
    exact keeps_of_replaced rfl (Guarded.merge_of_inRange hrange hn.inRange) hnone (hvalid.merge hn)
  | map point direction => exact keeps_of_done rfl hnone (hvalid.map point direction)
  | transform matrix => exact keeps_of_done rfl hnone (hvalid.transform matrix)
  | translate offset => exact keeps_of_done rfl hnone (hvalid.translate offset)
  | flipTriangles => exact keeps_of_done rfl hnone hvalid.flipTriangles
  | reverseWinding => exact keeps_of_done rfl hnone hvalid.reverseWinding
  | orientOutward =>
    exact keeps_of_replaced rfl (Guarded.orientOutward_eq_ok_iff.mpr ⟨hrange, rfl⟩) hnone hvalid.orientOutward
  | ensureNormals => exact keeps_of_replaced rfl (Guarded.ensureNormals_of_inRange hrange) hnone hvalid.ensureNormals
  | recomputeNormals =>
    exact keeps_of_replaced rfl (Guarded.recomputeNormals_eq_ok_iff.mpr ⟨hrange, rfl⟩) hnone hvalid.recomputeNormals
  | clearNormals => exact keeps_of_done rfl hnone hvalid.clearNormals
  | weld epsilon => exact keeps_of_done rfl hnone (hvalid.weld epsilon)

/-- The mesh that is left after some calls, of which any may fail. -/
def leave (m : Mesh α) (edits : List (Edit α)) : Mesh α := edits.foldl (fun m e => (e.run m).left) m

theorem consistent_leave {edits : List (Edit α)} (hedits : ∀ e ∈ edits, e.Proper) {m : Mesh α} (h : m.Consistent) :
    (leave m edits).Consistent := by
  induction edits generalizing m with
  | nil => exact h
  | cons e rest ih =>
    have hkeeps := keeps h (hedits e List.mem_cons_self)
    exact ih (fun e' he' => hedits e' (List.mem_cons_of_mem e he')) hkeeps.consistent

/-- Whatever calls were made on a consistent mesh, with whatever numbers, it is consistent, and so it is behind the next
call. A call fails just when it names a vertex that does not exist. Then the mesh is as before, but for a quad, of which
the first triangle may stay. Meshes that are joined into a new one make it consistent. -/
theorem calls_keep_meshes_consistent {m : Mesh α} (hm : m.Consistent) {edits : List (Edit α)}
    (hedits : ∀ e ∈ edits, e.Proper) :
    (leave m edits).Consistent ∧ (∀ e : Edit α, e.Proper → e.Keeps (leave m edits)) ∧
      ∀ meshes : List (Mesh α), (∀ n ∈ meshes, n.Consistent) → (concat meshes).Consistent := by
  have hleft := consistent_leave hedits hm
  refine ⟨hleft, fun e hproper => keeps hleft hproper, fun meshes hmeshes => ?_⟩
  exact (consistent_iff_valid _).mpr (valid_concat fun n hn => (consistent_iff_valid n).mp (hmeshes n hn))

/-- A triangle with a corner that is no number, and calls of which two fail. -/
theorem consistent_after_failed_calls :
    let m : Mesh Float := ⟨#[⟨0.0, 0.0, 0.0⟩, ⟨1.0, 0.0, 0.0⟩, ⟨0.0, 0.0 / 0.0, 0.0⟩], #[⟨0, 1, 2⟩], none⟩
    let edits := [.tryAddTriangle ⟨0, 1, 7⟩, .addQuadIndexedFacing 0 1 2 9 Vec3.unitZ, .merge m.recomputeNormals,
      .weld 1e-9]
    m.Consistent ∧ (∀ e ∈ edits, e.Proper) ∧ (leave m edits).Consistent ∧
      (∀ e : Edit Float, e.Proper → e.Keeps (leave m edits)) ∧
      ∀ meshes : List (Mesh Float), (∀ n ∈ meshes, n.Consistent) → (concat meshes).Consistent := by
  intro m edits
  have hm : m.Consistent := ⟨by decide, by decide, by simp [m]⟩
  have hproper : ∀ e ∈ edits, e.Proper := by
    have hjoined := ((consistent_iff_valid m).mp hm).recomputeNormals
    simpa [edits, Proper] using (consistent_iff_valid _).mpr hjoined
  exact ⟨hm, hproper, calls_keep_meshes_consistent hm hproper⟩

/-- A quad of which the second triangle alone names a vertex that does not exist. Its first triangle stays. -/
theorem failed_quad_changes_mesh :
    let m : Mesh Float := ⟨#[⟨0, 0, 0⟩, ⟨1, 0, 0⟩, ⟨0, 1, 0⟩], #[⟨0, 1, 2⟩], none⟩
    let e : Edit Float := .addQuadIndexedFacing 0 1 2 9 Vec3.unitZ
    m.Consistent ∧ (e.run m).failure?.isSome = true ∧ (e.run m).left ≠ m := by
  intro m e
  refine ⟨⟨by decide, by decide, by simp [m]⟩, by decide +kernel, fun h => ?_⟩
  have hcount : (e.run m).left.triangleCount = 2 := by decide +kernel
  rw [h] at hcount
  cases hcount

end Edit

end Mesh

end SolidScript

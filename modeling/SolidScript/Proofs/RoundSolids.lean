import SolidScript.Proofs.MeshEdits
import SolidScript.Shape.Primitive

/-!
# Places of the vertices of primitive solids

Frustums, spheres and tori are laid out ring by ring, and boxes corner by corner. Their triangles stay within what is
laid out.
-/

namespace SolidScript

open Scalar

variable {α : Type}

theorem valid_of_triangles {vertices : List (Vec3 α)} {triangles : List Triangle} (normals : Option (List (Vec3 α)))
    (htriangles : ∀ t ∈ triangles, t.top < vertices.length) (hnormals : ∀ ns ∈ normals, ns.length = vertices.length) :
    (⟨vertices.toArray, triangles.toArray, normals.map List.toArray⟩ : Mesh α).Valid where
  inRange t ht := htriangles t (List.mem_toArray.mp ht)
  normalCount ns hns := by
    obtain ⟨items, hitems, rfl⟩ := Option.map_eq_some_iff.mp hns
    exact hnormals items hitems

theorem grid_lt {rows columns i j : Nat} (hi : i < rows) (hj : j < columns) : i * columns + j < rows * columns := by
  calc i * columns + j < i * columns + columns := Nat.add_lt_add_left hj _
    _ = (i + 1) * columns := (Nat.succ_mul i columns).symm
    _ ≤ rows * columns := Nat.mul_le_mul_right columns hi

theorem grid_inj {columns i i' j j' : Nat} (hj : j < columns) (hj' : j' < columns)
    (h : i * columns + j = i' * columns + j') : i = i' ∧ j = j' := by
  have hrow {i j : Nat} (hj : j < columns) : (i * columns + j) / columns = i := by
    rw [Nat.mul_comm, Nat.mul_add_div (Nat.zero_lt_of_lt hj), Nat.div_eq_of_lt hj, Nat.add_zero]
  have hi : i = i' := (hrow hj).symm.trans ((congrArg (· / columns) h).trans (hrow hj'))
  exact ⟨hi, by rwa [hi, Nat.add_left_cancel_iff] at h⟩

/-! ## Rings -/

namespace Ring

variable {n : Nat}

theorem place_lt (hn : 0 < n) (base j : Nat) : place base n j < base + n :=
  Nat.add_lt_add_left (Nat.mod_lt j hn) base

theorem mem_sectors {triangles : Nat → List Triangle} {t : Triangle} (h : t ∈ sectors n triangles) :
    ∃ j < n, t ∈ triangles j := by
  obtain ⟨j, hj, ht⟩ := List.mem_flatMap.mp h
  exact ⟨j, List.mem_range.mp hj, ht⟩

theorem top_fanForward_lt {count hub base j : Nat} (hn : 0 < n) (hhub : hub < count) (hring : base + n ≤ count) :
    (fanForward hub base n j).top < count := by
  have h := place_lt hn base j
  have h' := place_lt hn base (j + 1)
  simp only [fanForward, Triangle.top]
  omega

theorem top_fanBackward_lt {count hub base j : Nat} (hn : 0 < n) (hhub : hub < count) (hring : base + n ≤ count) :
    (fanBackward hub base n j).top < count := by
  rw [← Triangle.top_flip]
  exact top_fanForward_lt hn hhub hring

theorem top_band_lt {count upper lower j : Nat} (hn : 0 < n) (hupper : upper + n ≤ count) (hlower : lower + n ≤ count) :
    ∀ t ∈ band upper lower n j, t.top < count := by
  have h := place_lt hn upper j
  have h' := place_lt hn upper (j + 1)
  have hl := place_lt hn lower j
  have hl' := place_lt hn lower (j + 1)
  intro t ht
  simp only [band, List.mem_cons, List.not_mem_nil, or_false] at ht
  rcases ht with rfl | rfl
  all_goals
    simp only [Triangle.top]
    omega

end Ring

namespace Round

theorem segments_pos (segments : Nat) : 0 < max segments minSegments :=
  Nat.lt_of_lt_of_le (by decide) (Nat.le_max_right segments minSegments)

/-! ## Frustums -/

theorem top_frustumTriangles_lt {n : Nat} (hn : 0 < n) (hasApex : Bool) :
    ∀ t ∈ frustumTriangles n hasApex, t.top < if hasApex then n + 2 else 2 * n + 2 := by
  intro t ht
  unfold frustumTriangles at ht
  rcases List.mem_append.mp ht with hside | hbase
  · obtain ⟨j, -, hj⟩ := Ring.mem_sectors hside
    cases hasApex with
    | true =>
      rw [List.mem_singleton.mp hj]
      exact Ring.top_fanBackward_lt hn (by simp) (by simp [Nat.add_comm 1 n])
    | false =>
      rcases List.mem_cons.mp hj with rfl | hband
      · exact Ring.top_fanBackward_lt hn (by simp; omega) (by simp; omega)
      · exact Ring.top_band_lt hn (by simp; omega) (by simp; omega) t hband
  · obtain ⟨j, -, hj⟩ := Ring.mem_sectors hbase
    rw [List.mem_singleton.mp hj]
    refine Ring.top_fanForward_lt hn ?_ ?_
    all_goals
      split
      all_goals omega

variable [Scalar α]

theorem vertexCount_frustum (bottomRadius topRadius height : α) (center : Vec3 α) (segments : Nat) :
    (frustum bottomRadius topRadius height center segments).vertexCount =
      if magnitude topRadius ≤ ulpOne then max segments minSegments + 2 else 2 * max segments minSegments + 2 := by
  show Array.size (List.toArray _) = _
  by_cases hapex : magnitude topRadius ≤ ulpOne
  · simp [hapex, circle]
  · simp [hapex, circle]
    omega

theorem valid_frustumSurface (bottomRadius topRadius height : α) (center : Vec3 α) (segments : Nat) :
    (frustumSurface bottomRadius topRadius height center segments).Valid := by
  have hcount := vertexCount_frustum bottomRadius topRadius height center segments
  refine valid_of_triangles none (fun t ht => ?_) (by simp)
  have htop := top_frustumTriangles_lt (segments_pos segments) _ t ht
  simp only [decide_eq_true_eq] at htop
  exact Nat.lt_of_lt_of_eq htop hcount.symm

/-! ## Spheres -/

omit [Scalar α] in
theorem top_sphereTriangles_lt {n rings : Nat} (hn : 0 < n) (hrings : 2 ≤ rings) :
    ∀ t ∈ sphereTriangles n rings, t.top < 2 + (rings - 1) * n := by
  obtain ⟨bands, rfl⟩ := Nat.exists_eq_add_of_le' hrings
  have hlast : 1 + (bands + 1) * n = 1 + bands * n + n := by rw [Nat.succ_mul, Nat.add_assoc]
  have hfirst : n ≤ (bands + 1) * n := Nat.le_mul_of_pos_left n (Nat.succ_pos bands)
  intro t ht
  simp only [sphereTriangles, Nat.add_sub_cancel, show bands + 2 - 1 = bands + 1 from rfl] at ht ⊢
  rcases List.mem_append.mp ht with hcap | hband
  · obtain ⟨j, -, hj⟩ := Ring.mem_sectors hcap
    rcases List.mem_cons.mp hj with rfl | hj
    · exact Ring.top_fanBackward_lt hn (by omega) (by omega)
    · have h := Ring.place_lt hn (1 + bands * n) j
      have h' := Ring.place_lt hn (1 + bands * n) (j + 1)
      rw [List.mem_singleton.mp hj]
      simp only [Triangle.top]
      omega
  · obtain ⟨i, hi, ht⟩ := List.mem_flatMap.mp hband
    obtain ⟨j, -, hj⟩ := Ring.mem_sectors ht
    have hnext : (i + 1) * n ≤ bands * n := Nat.mul_le_mul_right n (List.mem_range.mp hi)
    have hrow : (i + 1) * n = i * n + n := Nat.succ_mul i n
    exact Ring.top_band_lt hn (by omega) (by omega) t hj

theorem length_sphereDirections (n rings : Nat) : (sphereDirections (α := α) n rings).length = (rings - 1) * n := by
  simp [sphereDirections, List.length_flatMap]

theorem vertexCount_sphere (radius : α) (center : Vec3 α) (segments rings : Nat) :
    (sphere radius center segments rings).vertexCount =
      2 + (max rings minRings - 1) * max segments minSegments := by
  show Array.size (List.toArray _) = _
  simp [length_sphereDirections]
  omega

theorem valid_sphere (radius : α) (center : Vec3 α) (segments rings : Nat) :
    (sphere radius center segments rings).Valid := by
  have hcount := vertexCount_sphere radius center segments rings
  refine valid_of_triangles (some _) (fun t ht => ?_) fun ns hns => ?_
  · have htop := top_sphereTriangles_lt (segments_pos segments) (Nat.le_max_right rings minRings) t ht
    exact Nat.lt_of_lt_of_eq htop hcount.symm
  · obtain rfl := Option.some.inj hns
    simp

/-! ## Tori -/

omit [Scalar α] in
theorem top_torusTriangles_lt {n m : Nat} (hn : 0 < n) (hm : 0 < m) : ∀ t ∈ torusTriangles n m, t.top < n * m := by
  intro t ht
  obtain ⟨j, -, ht⟩ := List.mem_flatMap.mp ht
  obtain ⟨k, -, ht⟩ := List.mem_flatMap.mp ht
  have hplace (j k : Nat) : j % n * m + k % m < n * m := grid_lt (Nat.mod_lt j hn) (Nat.mod_lt k hm)
  rw [Triangle.top_lt_iff]
  simp only [List.mem_cons, List.not_mem_nil, or_false] at ht
  rcases ht with rfl | rfl
  all_goals simp [Triangle.toList, hplace]

theorem length_torusPoints (ring tube : α) (center : Vec3 α) (n m : Nat) :
    (torusPoints ring tube center n m).length = n * m := by
  simp [torusPoints, List.length_flatMap]

theorem vertexCount_torus (major minor : α) (center : Vec3 α) (segments tubeSegments : Nat) :
    (torus major minor center segments tubeSegments).vertexCount =
      max segments minSegments * max tubeSegments minSegments := by
  have hcount : (torusSurface major minor center segments tubeSegments).vertexCount =
      max segments minSegments * max tubeSegments minSegments := by
    show Array.size (List.toArray _) = _
    simp [length_torusPoints]
  unfold torus Mesh.orientOutward
  split
  · exact hcount
  · exact hcount

theorem valid_torusSurface (major minor : α) (center : Vec3 α) (segments tubeSegments : Nat) :
    (torusSurface major minor center segments tubeSegments).Valid := by
  refine valid_of_triangles (some _) (fun t ht => ?_) fun ns hns => ?_
  · rw [List.length_map, length_torusPoints]
    exact top_torusTriangles_lt (segments_pos segments) (segments_pos tubeSegments) t ht
  · obtain rfl := Option.some.inj hns
    simp

theorem buildTorus_eq (major minor : α) (center : Vec3 α) (segments tubeSegments : Nat) :
    buildTorus major minor center segments tubeSegments = do
      Room.requireMesh (max segments minSegments * max tubeSegments minSegments)
        (2 * max segments minSegments * max tubeSegments minSegments)
      return torus major minor center segments tubeSegments := by
  have hturned := Mesh.Guarded.orientOutward_eq_ok_iff.mpr
    ⟨(valid_torusSurface major minor center segments tubeSegments).inRange, rfl⟩
  unfold buildTorus
  rw [hturned]
  rfl

end Round

/-! ## All primitives -/

namespace Primitive

variable [Scalar α]

theorem valid_boxSurface (size center : Vec3 α) : (boxSurface size center).Valid := by
  refine valid_of_triangles none (fun t ht => ?_) (by simp)
  have htop : ∀ t ∈ boxTriangles, t.top < 8 := by decide
  exact htop t ht

theorem valid_toMesh (p : Primitive α) : p.toMesh.Valid := by
  cases p with
  | box size center => exact (valid_boxSurface size center).recomputeNormals
  | sphere radius center segments rings => exact Round.valid_sphere radius center segments rings
  | cylinder | cone => exact (Round.valid_frustumSurface _ _ _ _ _).recomputeNormals

/-- Where there is room for a primitive, all the vertices that are read for it exist. -/
theorem build_eq (p : Primitive α) : p.build = do
    p.requireRoom
    return p.toMesh := by
  cases p with
  | box size center =>
    exact Mesh.Guarded.recomputeNormals_eq_ok_iff.mpr ⟨(valid_boxSurface size center).inRange, rfl⟩
  | sphere radius center segments rings => rfl
  | cylinder | cone =>
    exact Mesh.Guarded.recomputeNormals_eq_ok_iff.mpr ⟨(Round.valid_frustumSurface _ _ _ _ _).inRange, rfl⟩

end Primitive

end SolidScript

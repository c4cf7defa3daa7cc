import SolidScript.Proofs.MeshEdits

/-!
# Meshes joined one behind the other

The triangles of each mesh stay with its own vertices, so that a mesh without normals gets the same ones by itself and
as part of a joined mesh. Joining is therefore associative, and meshes may be joined in groups.
-/

namespace SolidScript

open Scalar

namespace Mesh

/-! ## Changing one of two parts -/

section Parts

variable {β γ : Type} {f : β → β} {xs : Array β}

theorem modify_append_left (ys : Array β) {i : Nat} (hi : i < xs.size) :
    (xs ++ ys).modify i f = xs.modify i f ++ ys := by
  apply Array.ext_getElem?
  intro j
  simp only [Array.getElem?_modify, Array.getElem?_append, Array.size_modify]
  by_cases hij : i = j
  · simp [hij ▸ hi, hij]
  · simp [hij]

theorem modify_append_right (ys : Array β) (i : Nat) :
    (xs ++ ys).modify (i + xs.size) f = xs ++ ys.modify i f := by
  apply Array.ext_getElem?
  intro j
  simp only [Array.getElem?_modify, Array.getElem?_append]
  by_cases hj : j < xs.size
  · simp only [hj, if_true]
    exact if_neg (by omega)
  · have hplace : i + xs.size = j ↔ i = j - xs.size := by omega
    simp only [hj, if_false, hplace]

theorem foldl_append_left {step step' : Array β → γ → Array β} {items : List γ} {size : Nat} {ys : Array β}
    (hsize : ∀ xs c, (step' xs c).size = xs.size)
    (hstep : ∀ xs : Array β, xs.size = size → ∀ c ∈ items, step (xs ++ ys) c = step' xs c ++ ys)
    (hxs : xs.size = size) : items.foldl step (xs ++ ys) = items.foldl step' xs ++ ys := by
  induction items generalizing xs with
  | nil => rfl
  | cons c rest ih =>
    simp only [List.foldl_cons]
    rw [hstep xs hxs c List.mem_cons_self]
    apply ih
    · intro xs hxs c hc
      exact hstep xs hxs c (List.mem_cons_of_mem _ hc)
    · rw [hsize, hxs]

end Parts

variable {α : Type} [Scalar α] {m n : Mesh α}

/-! ## The parts of a joined mesh -/

theorem vertices_merge (m n : Mesh α) : (m.merge n).vertices = m.vertices ++ n.vertices := by
  unfold merge append
  dsimp only
  split <;> split <;> simp

@[simp]
theorem vertexCount_merge (m n : Mesh α) : (m.merge n).vertexCount = m.vertexCount + n.vertexCount := by
  simp [vertexCount, vertices_merge]

theorem triangles_merge (m n : Mesh α) :
    (m.merge n).triangles = m.triangles ++ n.triangles.map (·.map (· + m.vertexCount)) := by
  unfold merge append vertexCount
  dsimp only
  split <;> split <;> simp

/-- The normals of a mesh, or those that it gets when it is joined to one with normals. -/
def ownNormals (m : Mesh α) : Array (Vec3 α) := m.normals.getD (m.faceNormalSums.map vertexNormal)

theorem normals_ensureNormals (m : Mesh α) : m.ensureNormals.normals = some m.ownNormals := by
  unfold ensureNormals ownNormals
  cases hnormals : m.normals <;> simp [hnormals, recomputeNormals]

theorem normals_merge (m n : Mesh α) :
    (m.merge n).normals =
      if m.normals.isSome || n.normals.isSome then some (m.ownNormals ++ n.ownNormals) else none := by
  unfold merge append
  cases hmine : m.normals <;> cases htheirs : n.normals <;>
    simp [hmine, htheirs, normals_ensureNormals, ownNormals]

theorem isSome_normals_merge (m n : Mesh α) :
    (m.merge n).normals.isSome = (m.normals.isSome || n.normals.isSome) := by
  rw [normals_merge]
  split <;> simp_all

theorem Valid.size_ownNormals (h : m.Valid) : m.ownNormals.size = m.vertexCount := by
  unfold ownNormals
  cases hnormals : m.normals with
  | none => simp [size_faceNormalSums]
  | some ns => exact h.normalCount ns hnormals

/-! ## Normals of the parts -/

theorem point_merge_left {i : Nat} (hi : i < m.vertexCount) : (m.merge n).point i = m.point i := by
  simp [point, Array.getD_eq_getD_getElem?, vertices_merge, Array.getElem?_append_left hi]

theorem point_merge_right (i : Nat) : (m.merge n).point (i + m.vertexCount) = n.point i := by
  simp [point, Array.getD_eq_getD_getElem?, vertices_merge, vertexCount, Array.getElem?_append_right]

theorem triangleNormal_merge_left {t : Triangle} (ht : t.top < m.vertexCount) :
    (m.merge n).triangleNormal t = m.triangleNormal t := by
  simp only [Triangle.top_lt_iff, Triangle.toList, List.forall_mem_cons] at ht
  obtain ⟨ha, hb, hc, -⟩ := ht
  unfold triangleNormal
  rw [point_merge_left ha, point_merge_left hb, point_merge_left hc]

theorem triangleNormal_merge_right (t : Triangle) :
    (m.merge n).triangleNormal (t.map (· + m.vertexCount)) = n.triangleNormal t := by
  simp [triangleNormal, Triangle.map, point_merge_right]

theorem addFaceNormal_merge_left {sums : Array (Vec3 α)} (hsums : sums.size = m.vertexCount)
    (others : Array (Vec3 α)) {t : Triangle} (ht : t.top < m.vertexCount) :
    (m.merge n).addFaceNormal (sums ++ others) t = m.addFaceNormal sums t ++ others := by
  unfold addFaceNormal
  rw [triangleNormal_merge_left ht]
  dsimp only
  split
  · rw [Triangle.top_lt_iff] at ht
    apply foldl_append_left _ _ hsums
    · simp
    · intro sums hsums i hi
      exact modify_append_left others (hsums ▸ ht i hi)
  · rfl

theorem addFaceNormal_merge_right {sums : Array (Vec3 α)} (hsums : sums.size = m.vertexCount)
    (others : Array (Vec3 α)) (t : Triangle) :
    (m.merge n).addFaceNormal (sums ++ others) (t.map (· + m.vertexCount)) = sums ++ n.addFaceNormal others t := by
  unfold addFaceNormal
  rw [triangleNormal_merge_right]
  dsimp only
  split
  · have htoList : (t.map (· + m.vertexCount)).toList = t.toList.map (· + m.vertexCount) := rfl
    rw [htoList, List.foldl_map, ← hsums]
    apply List.foldl_hom (sums ++ ·)
    exact fun others i => modify_append_right others i
  · rfl

theorem faceNormalSums_eq (m : Mesh α) :
    m.faceNormalSums = m.triangles.toList.foldl m.addFaceNormal (Array.replicate m.vertexCount Vec3.zero) :=
  (Array.foldl_toList _).symm

/-- Each part is summed as if it were alone. -/
theorem faceNormalSums_merge (hm : m.Valid) (n : Mesh α) :
    (m.merge n).faceNormalSums = m.faceNormalSums ++ n.faceNormalSums := by
  have hmine (others : Array (Vec3 α)) : m.triangles.toList.foldl (m.merge n).addFaceNormal
      (Array.replicate m.vertexCount Vec3.zero ++ others) = m.faceNormalSums ++ others := by
    rw [faceNormalSums_eq]
    apply foldl_append_left (size_addFaceNormal m) _ Array.size_replicate
    intro sums hsums t ht
    exact addFaceNormal_merge_left hsums others (hm.inRange t (Array.mem_toList_iff.mp ht))
  rw [faceNormalSums_eq, vertexCount_merge, triangles_merge, Array.toList_append, Array.toList_map, List.foldl_append,
    List.foldl_map, ← Array.replicate_append_replicate, hmine, faceNormalSums_eq n]
  apply List.foldl_hom (m.faceNormalSums ++ ·)
  intro others t
  exact addFaceNormal_merge_right (size_faceNormalSums m) others t

theorem ownNormals_merge (hm : m.Valid) (n : Mesh α) : (m.merge n).ownNormals = m.ownNormals ++ n.ownNormals := by
  unfold ownNormals
  rw [normals_merge]
  cases hmine : m.normals <;> cases htheirs : n.normals <;>
    simp [hmine, htheirs, ownNormals, faceNormalSums_merge hm]

/-! ## Joining -/

theorem empty_merge (m : Mesh α) : empty.merge m = m := by
  ext1
  · simp [vertices_merge, empty]
  · simp [triangles_merge, empty, vertexCount, Triangle.map]
  · rw [normals_merge]
    cases hnormals : m.normals <;>
      simp [hnormals, empty, ownNormals, faceNormalSums, vertexCount]

theorem merge_empty (m : Mesh α) : m.merge empty = m := by
  ext1
  · simp [vertices_merge, empty]
  · simp [triangles_merge, empty]
  · rw [normals_merge]
    cases hnormals : m.normals <;>
      simp [hnormals, empty, ownNormals, faceNormalSums, vertexCount]

theorem merge_assoc {a b : Mesh α} (ha : a.Valid) (hb : b.Valid) (c : Mesh α) :
    (a.merge b).merge c = a.merge (b.merge c) := by
  ext1
  · simp [vertices_merge, Array.append_assoc]
  · simp [triangles_merge, Array.append_assoc, Triangle.map, Function.comp_def, Nat.add_comm, Nat.add_left_comm]
  · rw [normals_merge (a.merge b), normals_merge a (b.merge c), isSome_normals_merge, isSome_normals_merge,
      ownNormals_merge ha, ownNormals_merge hb, Bool.or_assoc, Array.append_assoc]

/-! ## Groups -/

theorem foldl_merge {m : Mesh α} (hm : m.Valid) {meshes : List (Mesh α)} (hmeshes : ∀ n ∈ meshes, n.Valid) :
    meshes.foldl merge m = m.merge (concat meshes) := by
  induction meshes generalizing m with
  | nil => exact (merge_empty m).symm
  | cons n rest ih =>
    simp only [List.forall_mem_cons] at hmeshes
    obtain ⟨hn, hrest⟩ := hmeshes
    have hconcat : concat (n :: rest) = n.merge (concat rest) := by
      rw [← ih hn hrest, concat, List.foldl_cons, empty_merge]
    rw [List.foldl_cons, ih (hm.merge hn) hrest, hconcat, merge_assoc hm hn]

theorem concat_cons {m : Mesh α} (hm : m.Valid) {meshes : List (Mesh α)} (hmeshes : ∀ n ∈ meshes, n.Valid) :
    concat (m :: meshes) = m.merge (concat meshes) := by
  rw [concat, List.foldl_cons, empty_merge, foldl_merge hm hmeshes]

theorem concat_append {first rest : List (Mesh α)} (hfirst : ∀ m ∈ first, m.Valid) (hrest : ∀ m ∈ rest, m.Valid) :
    concat (first ++ rest) = (concat first).merge (concat rest) := by
  rw [← foldl_merge (valid_concat hfirst) hrest]
  simp [concat]

theorem concat_groups {groups : List (List (Mesh α))} (hgroups : ∀ group ∈ groups, ∀ m ∈ group, m.Valid) :
    concat (groups.map concat) = concat groups.flatten := by
  induction groups with
  | nil => rfl
  | cons group rest ih =>
    simp only [List.forall_mem_cons] at hgroups
    obtain ⟨hgroup, hrest⟩ := hgroups
    have hjoined : ∀ m ∈ rest.map concat, m.Valid := by
      intro m hm
      obtain ⟨group, hmem, rfl⟩ := List.mem_map.mp hm
      exact valid_concat (hrest group hmem)
    have hflat : ∀ m ∈ rest.flatten, m.Valid := by
      intro m hm
      obtain ⟨group, hmem, hm⟩ := List.mem_flatten.mp hm
      exact hrest group hmem m hm
    rw [List.map_cons, concat_cons (valid_concat hgroup) hjoined, ih hrest, List.flatten_cons,
      concat_append hgroup hflat]

/-- Joining is associative, whichever of the meshes have normals, and the empty mesh changes nothing on either side.
Meshes can be joined group by group. The joined triangles name none but the vertices of the parts. -/
theorem joined_in_any_grouping {a b c : Mesh α} (ha : a.Valid) (hb : b.Valid) (hc : c.Valid)
    {groups : List (List (Mesh α))} (hgroups : ∀ group ∈ groups, ∀ m ∈ group, m.Valid) :
    (a.merge b).merge c = a.merge (b.merge c) ∧ empty.merge a = a ∧ a.merge empty = a ∧
      concat (groups.map concat) = concat groups.flatten ∧
      ∀ i ∈ ((a.merge b).merge c).indices, i < a.vertexCount + b.vertexCount + c.vertexCount := by
  refine ⟨merge_assoc ha hb c, empty_merge a, merge_empty a, concat_groups hgroups, ?_⟩
  have hvalid := (ha.merge hb).merge hc
  rw [← vertexCount_merge, ← vertexCount_merge]
  exact (consistent_iff_valid _).mpr hvalid |>.inRange

/-- Two triangles that share an edge, one triangle with normals, and one without area. -/
theorem fold_and_triangles_joined :
    let fold : Mesh Float := ⟨#[⟨0, 0, 0⟩, ⟨1, 0, 0⟩, ⟨0, 1, 0⟩, ⟨0, 0, 1⟩], #[⟨0, 1, 2⟩, ⟨1, 0, 3⟩], none⟩
    let lit : Mesh Float := ⟨#[⟨5, 0, 0⟩, ⟨6, 0, 0⟩, ⟨5, 1, 0⟩], #[⟨0, 1, 2⟩], some #[⟨0, 0, 1⟩, ⟨0, 1, 0⟩, ⟨0, 0, 1⟩]⟩
    let flat : Mesh Float := ⟨#[⟨0, 0, 0⟩, ⟨1, 0, 0⟩], #[⟨0, 1, 1⟩], none⟩
    fold.Valid ∧ lit.Valid ∧ flat.Valid ∧
      (fold.merge flat).merge lit = fold.merge (flat.merge lit) ∧ empty.merge fold = fold ∧ fold.merge empty = fold ∧
      concat ([[fold, flat], [], [lit]].map concat) = concat [[fold, flat], [], [lit]].flatten ∧
      ∀ i ∈ ((fold.merge flat).merge lit).indices, i < fold.vertexCount + flat.vertexCount + lit.vertexCount := by
  intro fold lit flat
  have hfold : fold.Valid := ⟨by decide, by simp [fold]⟩
  have hlit : lit.Valid := ⟨by decide, by simp [lit, vertexCount]⟩
  have hflat : flat.Valid := ⟨by decide, by simp [flat]⟩
  have hgroups : ∀ group ∈ [[fold, flat], [], [lit]], ∀ m ∈ group, m.Valid := by simp [hfold, hflat, hlit]
  exact ⟨hfold, hlit, hflat, joined_in_any_grouping hfold hflat hlit hgroups⟩

end Mesh

end SolidScript

import SolidScript.Mesh.Guarded
import SolidScript.Proofs.MeshChecks
import SolidScript.Proofs.Steps

/-!
# Reads that are checked

What looks for each vertex before it reads it comes out right if all of them exist, and then it has worked out the same
as what does not look.
-/

namespace SolidScript

section Folds

variable {ε β γ : Type}

theorem foldlM_eq_ok_iff {f : β → γ → Except ε β} {g : β → γ → β} {fits : γ → Prop} {kept : β → Prop}
    (hf : ∀ b c, kept b → ∀ {b'}, f b c = .ok b' ↔ fits c ∧ b' = g b c) (hg : ∀ b c, kept b → kept (g b c))
    {items : List γ} {b r : β} (hb : kept b) :
    items.foldlM f b = .ok r ↔ (∀ c ∈ items, fits c) ∧ r = items.foldl g b := by
  induction items generalizing b with
  | nil =>
    rw [List.foldlM_nil, List.foldl_nil, pure_eq_ok_iff, eq_comm]
    simp
  | cons c rest ih =>
    rw [List.foldlM_cons, List.foldl_cons, bind_eq_ok_iff, List.forall_mem_cons, and_assoc]
    constructor
    · rintro ⟨b', hb', h⟩
      obtain ⟨hc, rfl⟩ := (hf b c hb).mp hb'
      exact ⟨hc, (ih (hg b c hb)).mp h⟩
    · rintro ⟨hc, h⟩
      exact ⟨g b c, (hf b c hb).mpr ⟨hc, rfl⟩, (ih (hg b c hb)).mpr h⟩

theorem mapM_eq_ok_iff {f : β → Except ε γ} {g : β → γ} {fits : β → Prop}
    (hf : ∀ b, ∀ {c}, f b = .ok c ↔ fits b ∧ c = g b) {items : List β} {r : List γ} :
    items.mapM f = .ok r ↔ (∀ b ∈ items, fits b) ∧ r = items.map g := by
  induction items generalizing r with
  | nil =>
    rw [List.mapM_nil, List.map_nil, pure_eq_ok_iff, eq_comm]
    simp
  | cons b rest ih =>
    rw [List.mapM_cons, List.map_cons, List.forall_mem_cons, and_assoc]
    simp only [bind_eq_ok_iff, pure_eq_ok_iff, hf, ih, and_assoc, exists_and_left, exists_eq_left]
    exact and_congr_right fun _ => and_congr_right fun _ => eq_comm

end Folds

theorem Fault.item_eq_ok_iff {α β : Type} {items : Array β} {i : Nat} {b : β} :
    (Fault.item items i : Except (OperatorError α) β) = .ok b ↔ items[i]? = some b := by
  unfold Fault.item
  cases items[i]? with
  | none => exact ⟨nofun, nofun⟩
  | some b' => exact pure_eq_ok_iff.trans (by simp)

namespace Mesh

variable {α : Type}

/-- Triangles name vertices that exist. -/
def InRange (m : Mesh α) : Prop := ∀ t ∈ m.triangles, t.top < m.vertexCount

variable [Scalar α]

@[simp]
theorem vertices_ensureNormals (m : Mesh α) : m.ensureNormals.vertices = m.vertices := by
  unfold ensureNormals
  split <;> rfl

@[simp]
theorem triangles_ensureNormals (m : Mesh α) : m.ensureNormals.triangles = m.triangles := by
  unfold ensureNormals
  split <;> rfl

namespace Guarded

variable {m n r : Mesh α}

theorem point_eq_ok_iff {i : Nat} {p : Vec3 α} : point m i = .ok p ↔ i < m.vertexCount ∧ p = m.point i := by
  unfold point Mesh.point vertexCount
  rw [Fault.item_eq_ok_iff, Array.getElem?_eq_some_iff]
  constructor
  · rintro ⟨hi, rfl⟩
    exact ⟨hi, by simp [hi]⟩
  · rintro ⟨hi, rfl⟩
    exact ⟨hi, by simp [hi]⟩

theorem corners_eq_ok_iff {t : Triangle} {c : Vec3 α × Vec3 α × Vec3 α} :
    corners m t = .ok c ↔ t.top < m.vertexCount ∧ c = (m.point t.a, m.point t.b, m.point t.c) := by
  have htop : t.top < m.vertexCount ↔ t.a < m.vertexCount ∧ t.b < m.vertexCount ∧ t.c < m.vertexCount := by
    unfold Triangle.top
    omega
  unfold corners
  simp only [bind_eq_ok_iff, pure_eq_ok_iff, point_eq_ok_iff, htop, and_assoc, exists_and_left, exists_eq_left]
  exact and_congr_right fun _ => and_congr_right fun _ => and_congr_right fun _ => eq_comm

theorem corners_eq_error {t : Triangle} (h : m.vertexCount ≤ t.top) :
    ∃ i, corners m t = .error (.fault (.missingVertex i m.vertexCount)) := by
  have hpoint (i : Nat) : (∃ p, point m i = .ok p) ∨ point m i = .error (.fault (.missingVertex i m.vertexCount)) := by
    unfold point Fault.item
    cases m.vertices[i]? with
    | some p => exact Or.inl ⟨p, rfl⟩
    | none => exact Or.inr rfl
  unfold corners
  rcases hpoint t.a with ⟨p, ha⟩ | ha
  · rcases hpoint t.b with ⟨q, hb⟩ | hb
    · rcases hpoint t.c with ⟨r, hc⟩ | hc
      · have hall := corners_eq_ok_iff.mp (by unfold corners; rw [ha, hb, hc]; rfl : corners m t = .ok (p, q, r))
        exact absurd hall.1 (Nat.not_lt.mpr h)
      · exact ⟨t.c, by rw [ha, hb, hc]; rfl⟩
    · exact ⟨t.b, by rw [ha, hb]; rfl⟩
  · exact ⟨t.a, by rw [ha]; rfl⟩

/-! ## Measures -/

theorem corners_map_eq_ok_iff {β : Type} {f : Vec3 α → Vec3 α → Vec3 α → β} {t : Triangle} {b : β} :
    (do let (p, q, r) ← corners m t
        return f p q r : Except (OperatorError α) β) = .ok b ↔
      t.top < m.vertexCount ∧ b = f (m.point t.a) (m.point t.b) (m.point t.c) := by
  simp only [bind_eq_ok_iff, corners_eq_ok_iff, and_assoc, exists_and_left, exists_eq_left]
  exact and_congr_right fun _ => pure_eq_ok_iff.trans eq_comm

theorem triangleNormal_eq_ok_iff {t : Triangle} {v : Vec3 α} :
    triangleNormal m t = .ok v ↔ t.top < m.vertexCount ∧ v = m.triangleNormal t :=
  corners_map_eq_ok_iff

theorem signedCone_eq_ok_iff {t : Triangle} {v : α} :
    signedCone m t = .ok v ↔ t.top < m.vertexCount ∧ v = m.signedCone t :=
  corners_map_eq_ok_iff (m := m) (f := fun p q r => p.dot (q.cross r) / Scalar.ofNat 6)

theorem signedVolume_eq_ok_iff {v : α} : signedVolume m = .ok v ↔ m.InRange ∧ v = m.signedVolume := by
  unfold signedVolume Mesh.signedVolume
  rw [← Array.foldlM_toList, ← Array.foldl_toList]
  have hstep (v : α) (t : Triangle) (_ : True) {w : α} :
      (do return v + (← signedCone m t) : Except (OperatorError α) α) = .ok w ↔
        t.top < m.vertexCount ∧ w = v + m.signedCone t := by
    simp only [bind_eq_ok_iff, pure_eq_ok_iff, signedCone_eq_ok_iff, and_assoc, exists_and_left, exists_eq_left]
    exact and_congr_right fun _ => eq_comm
  refine (foldlM_eq_ok_iff hstep (fun _ _ h => h) trivial).trans ?_
  simp only [InRange, Array.mem_toList_iff]

/-! ## Normals -/

theorem addAt_eq_ok_iff {v : Vec3 α} {sums sums' : Array (Vec3 α)} {i : Nat} :
    addAt v sums i = .ok sums' ↔ i < sums.size ∧ sums' = sums.modify i (· + v) := by
  unfold addAt
  simp only [bind_eq_ok_iff, pure_eq_ok_iff, Fault.item_eq_ok_iff, Array.getElem?_eq_some_iff]
  have hmodify (hi : i < sums.size) : sums.setIfInBounds i (sums[i] + v) = sums.modify i (· + v) := by
    refine Array.ext (by simp) fun k _ hk => ?_
    rw [Array.size_modify] at hk
    rw [Array.getElem_modify, Array.getElem_setIfInBounds hk]
    split
    · rename_i hik
      subst hik
      rfl
    · rfl
  constructor
  · rintro ⟨_, ⟨hi, rfl⟩, rfl⟩
    exact ⟨hi, hmodify hi⟩
  · rintro ⟨hi, rfl⟩
    exact ⟨_, ⟨hi, rfl⟩, hmodify hi⟩

theorem addFaceNormal_eq_ok_iff {sums sums' : Array (Vec3 α)} {t : Triangle} (hsums : sums.size = m.vertexCount) :
    addFaceNormal m sums t = .ok sums' ↔ t.top < m.vertexCount ∧ sums' = m.addFaceNormal sums t := by
  unfold addFaceNormal Mesh.addFaceNormal
  simp only [bind_eq_ok_iff, triangleNormal_eq_ok_iff, and_assoc, exists_and_left, exists_eq_left]
  refine and_congr_right fun ht => ?_
  have hstep (sums : Array (Vec3 α)) (i : Nat) (h : sums.size = m.vertexCount) {sums' : Array (Vec3 α)} :
      addAt (m.triangleNormal t) sums i = .ok sums' ↔
        i < m.vertexCount ∧ sums' = sums.modify i (· + m.triangleNormal t) := h ▸ addAt_eq_ok_iff
  split
  · refine (foldlM_eq_ok_iff hstep (fun sums i h => by simpa using h) hsums).trans (and_iff_right fun i hi => ?_)
    exact (t.top_lt_iff m.vertexCount).mp ht i hi
  · exact pure_eq_ok_iff.trans eq_comm

theorem faceNormalSums_eq_ok_iff {sums : Array (Vec3 α)} :
    faceNormalSums m = .ok sums ↔ m.InRange ∧ sums = m.faceNormalSums := by
  unfold faceNormalSums Mesh.faceNormalSums
  rw [← Array.foldlM_toList, ← Array.foldl_toList]
  have hsize (sums : Array (Vec3 α)) (t : Triangle) (h : sums.size = m.vertexCount) :
      (m.addFaceNormal sums t).size = m.vertexCount := by
    unfold Mesh.addFaceNormal
    dsimp only
    split
    · simpa [Triangle.toList] using h
    · exact h
  refine (foldlM_eq_ok_iff (fun sums t h => addFaceNormal_eq_ok_iff h) hsize Array.size_replicate).trans ?_
  simp only [InRange, Array.mem_toList_iff]

theorem recomputeNormals_eq_ok_iff : recomputeNormals m = .ok r ↔ m.InRange ∧ r = m.recomputeNormals := by
  unfold recomputeNormals Mesh.recomputeNormals
  simp only [bind_eq_ok_iff, pure_eq_ok_iff, faceNormalSums_eq_ok_iff, and_assoc, exists_and_left, exists_eq_left]
  exact and_congr_right fun _ => eq_comm

theorem orientOutward_eq_ok_iff : orientOutward m = .ok r ↔ m.InRange ∧ r = m.orientOutward := by
  unfold orientOutward Mesh.orientOutward
  simp only [bind_eq_ok_iff, pure_eq_ok_iff, signedVolume_eq_ok_iff, and_assoc, exists_and_left, exists_eq_left]
  exact and_congr_right fun _ => eq_comm

/-! ## Meshes that already have normals

Nothing is read for them, so that success says less of their triangles.
-/

theorem eq_of_ensureNormals (h : ensureNormals m = .ok r) : r = m.ensureNormals := by
  unfold ensureNormals at h
  unfold Mesh.ensureNormals
  split at h
  · rename_i hnormals
    rw [if_pos hnormals]
    exact (pure_eq_ok_iff.mp h).symm
  · rename_i hnormals
    rw [if_neg hnormals]
    exact (recomputeNormals_eq_ok_iff.mp h).2

theorem ensureNormals_of_inRange (h : m.InRange) : ensureNormals m = .ok m.ensureNormals := by
  unfold ensureNormals Mesh.ensureNormals
  split
  · rfl
  · exact recomputeNormals_eq_ok_iff.mpr ⟨h, rfl⟩

theorem ensureIf_of_inRange (h : m.InRange) (wanted : Bool) :
    ensureIf wanted m = .ok (if wanted then m.ensureNormals else m) := by
  cases wanted with
  | true => exact ensureNormals_of_inRange h
  | false => rfl

theorem merge_of_inRange (hm : m.InRange) (hn : n.InRange) : merge m n = .ok (m.merge n) := by
  unfold merge
  rw [ensureIf_of_inRange hm]
  refine bind_eq_ok_iff.mpr ⟨_, rfl, ?_⟩
  rw [ensureIf_of_inRange hn]
  rfl

end Guarded

end Mesh

/-! ## Solids of meshes -/

namespace Solid

variable {α : Type} [Scalar α]

/-- Each corner of each triangle has a position and a normal, and together they make the polygons of the solid. -/
theorem readMesh_eq_ok_iff {m : Mesh α} {s : Solid α} :
    readMesh m = .ok s ↔ ∃ source, Mesh.Guarded.ensureNormals m = .ok source ∧
      (∀ t ∈ m.triangles, ∀ i ∈ t.toList, i < m.vertexCount ∧ i < (source.normals.getD #[]).size) ∧ s = ofMesh m := by
  unfold readMesh
  rw [bind_eq_ok_iff]
  refine exists_congr fun source => and_congr_right fun hsource => ?_
  obtain rfl := Mesh.Guarded.eq_of_ensureNormals hsource
  generalize hnormals : m.ensureNormals.normals.getD #[] = normals
  have hcorner (i : Nat) {c : Corner α} :
      (do return ⟨← Mesh.Guarded.point m.ensureNormals i, ← Fault.item normals i⟩ :
        Except (OperatorError α) (Corner α)) = .ok c ↔
      (i < m.vertexCount ∧ i < normals.size) ∧ c = ⟨m.point i, normals.getD i Vec3.zero⟩ := by
    simp only [bind_eq_ok_iff, pure_eq_ok_iff, Mesh.Guarded.point_eq_ok_iff, Fault.item_eq_ok_iff,
      Array.getElem?_eq_some_iff, Mesh.vertexCount, Mesh.point, Mesh.vertices_ensureNormals]
    constructor
    · rintro ⟨_, ⟨hi, rfl⟩, _, ⟨hn, rfl⟩, rfl⟩
      exact ⟨⟨hi, hn⟩, by simp [hn]⟩
    · rintro ⟨⟨hi, hn⟩, rfl⟩
      exact ⟨_, ⟨hi, rfl⟩, _, ⟨hn, rfl⟩, by simp [hn]⟩
  have hface (t : Triangle) {face : List (Corner α)} : t.toList.mapM _ = Except.ok face ↔ _ := mapM_eq_ok_iff hcorner
  dsimp only
  rw [bind_eq_ok_iff]
  simp only [mapM_eq_ok_iff hface, pure_eq_ok_iff, and_assoc, exists_and_left, exists_eq_left, Array.mem_toList_iff]
  refine and_congr_right fun _ => ?_
  rw [List.filterMap_map, eq_comm, ← hnormals]
  rfl

end Solid

end SolidScript

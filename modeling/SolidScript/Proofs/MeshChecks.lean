import SolidScript.Mesh.Combine
import SolidScript.Proofs.Steps
import SolidScript.Solid.Boolean

/-! # Meshes that have been checked -/

namespace SolidScript

theorem Triangle.top_lt_iff (t : Triangle) (n : Nat) : t.top < n ↔ ∀ i ∈ t.toList, i < n := by
  unfold Triangle.top Triangle.toList
  simp

namespace Mesh

variable {α : Type}

theorem indices_byThrees (m : Mesh α) : m.indices.length % 3 = 0 := by
  have hlength : m.indices.length = 3 * m.triangleCount := by
    unfold indices triangleCount
    simp [List.length_flatMap, Triangle.toList, Nat.mul_comm]
  rw [hlength]
  exact Nat.mul_mod_right 3 _

theorem indices_lt_iff (m : Mesh α) :
    (∀ i ∈ m.indices, i < m.vertexCount) ↔ ∀ t ∈ m.triangles, t.top < m.vertexCount := by
  unfold indices
  simp only [List.mem_flatMap, Array.mem_toList_iff, Triangle.top_lt_iff]
  exact ⟨fun h t ht i hi => h i ⟨t, ht, hi⟩, fun h i ⟨t, ht, hi⟩ => h t ht i hi⟩

variable [Scalar α]

def Finite (m : Mesh α) : Prop := ∀ v ∈ m.vertices, v.isFinite = true

theorem finite_iff (m : Mesh α) : m.Finite ↔ m.hasNonFinite = false := by
  unfold Finite hasNonFinite
  rw [Array.any_eq_false']
  simp

theorem nonFinite_eq_none_iff (m : Mesh α) : fault?.nonFinite m = none ↔ m.Finite := by
  unfold fault?.nonFinite Finite
  rw [Option.map_eq_none_iff, Array.findIdx?_eq_none_iff]
  simp

structure Checked (m : Mesh α) : Prop where
  byThrees : m.indices.length % 3 = 0
  inRange : ∀ i ∈ m.indices, i < m.vertexCount
  normalCount : ∀ ns ∈ m.normals, ns.size = m.vertexCount
  finite : m.Finite

theorem checked_iff (m : Mesh α) : m.Checked ↔ m.Valid ∧ m.Finite := by
  constructor
  · intro h
    exact ⟨⟨(indices_lt_iff m).mp h.inRange, h.normalCount⟩, h.finite⟩
  · rintro ⟨hvalid, hfinite⟩
    exact ⟨indices_byThrees m, (indices_lt_iff m).mpr hvalid.inRange, hvalid.normalCount, hfinite⟩

theorem fault?_eq_none_iff (m : Mesh α) : m.fault? = none ↔ m.Checked := by
  have hrange : m.indices.find? (m.vertexCount ≤ ·) = none ↔ ∀ i ∈ m.indices, i < m.vertexCount := by
    rw [List.find?_eq_none]
    simp
  unfold fault?
  cases hfind : m.indices.find? (m.vertexCount ≤ ·) with
  | some i =>
    rw [hfind] at hrange
    simp only [reduceCtorEq, false_iff] at hrange ⊢
    exact fun h => hrange h.inRange
  | none =>
    have hinRange := hrange.mp hfind
    cases hnormals : m.normals with
    | none =>
      simp only [nonFinite_eq_none_iff]
      exact ⟨fun h => ⟨indices_byThrees m, hinRange, by simp [hnormals], h⟩, Checked.finite⟩
    | some ns =>
      dsimp only
      split
      · rename_i hcount
        simp only [reduceCtorEq, false_iff]
        exact fun h => hcount (h.normalCount ns hnormals)
      · rename_i hcount
        rw [nonFinite_eq_none_iff]
        refine ⟨fun h => ⟨indices_byThrees m, hinRange, ?_, h⟩, Checked.finite⟩
        intro ns' hns'
        rw [hnormals] at hns'
        cases hns'
        exact not_not.mp hcount

theorem checked_of_ofBuffers {vertices : Array (Vec3 α)} {indices : List Nat} {normals : Option (Array (Vec3 α))}
    {m : Mesh α} (h : ofBuffers vertices indices normals = .ok m) : m.Checked := by
  unfold ofBuffers at h
  split at h
  · cases h
  · dsimp only at h
    split at h
    · cases h
    · rename_i hfault
      cases h
      exact (fault?_eq_none_iff _).mp hfault

/-- What a boolean makes has been checked, whatever its backend does. -/
theorem checked_of_combine {backend : BooleanBackend α} {m n result : Mesh α} {kind : BooleanKind}
    (h : combine backend m n kind = .ok result) : result.Checked := by
  obtain ⟨a, -, h⟩ := bind_eq_ok_iff.mp h
  obtain ⟨b, -, h⟩ := bind_eq_ok_iff.mp h
  obtain ⟨solid, -, h⟩ := bind_eq_ok_iff.mp h
  dsimp only at h
  split at h
  · cases h
  · rename_i hfault
    cases h
    exact (fault?_eq_none_iff _).mp hfault

end Mesh

end SolidScript

import SolidScript.Proofs.EdgeCounts

/-!
# Edge by edge checks of a surface

Edges are counted once without and once with direction. A mesh is closed if each edge lies on no more than two triangles
and on no fewer. Where no triangle repeats a corner, it is closed and consistently wound if each edge is passed once in
either direction.
-/

namespace SolidScript

namespace Edge

/-- The order of edges: by the lower end, then by the higher one. -/
def Before (e f : Edge) : Prop := e.low < f.low ∨ e.low = f.low ∧ e.high < f.high

theorem before_of_compare {e f : Edge} (h : compare e f = .lt) : e.Before f := by
  simpa [compare, compareLex, compareOn, Ordering.then_eq_lt, Nat.compare_eq_lt, Nat.compare_eq_eq, Before] using h

end Edge

theorem count_between {a b : Nat} (h : a ≠ b) (darts : List (Nat × Nat)) :
    (darts.map fun (c, d) => Edge.between c d).count (Edge.between a b) = darts.count (a, b) + darts.count (b, a) := by
  induction darts with
  | nil => rfl
  | cons dart rest ih =>
    obtain ⟨c, d⟩ := dart
    simp only [List.map_cons, List.count_cons, ih, beq_iff_eq, Edge.between_eq_iff, Prod.mk.injEq]
    by_cases hforward : c = a ∧ d = b
    · have hback : ¬(c = b ∧ d = a) := by omega
      simp [hforward, h]
      omega
    · by_cases hback : c = b ∧ d = a
      · simp [hback, h, Ne.symm h]
        omega
      · simp [hforward, hback]

namespace Mesh

variable {α : Type} {m : Mesh α}

/-! ## Counts without direction -/

theorem length_edges (m : Mesh α) : m.edges.length = 3 * m.triangleCount := by
  rw [edges, List.length_map, length_directedEdges]

theorem mem_edgeCounts_iff {e : Edge} {count : Nat} :
    (e, count) ∈ m.edgeCounts ↔ e ∈ m.edges ∧ count = m.edges.count e := by
  rw [edgeCounts, (toList_tally_perm m.edges).mem_iff]
  simp only [List.mem_map, List.mem_dedup, Prod.mk.injEq]
  constructor
  · rintro ⟨_, he, rfl, rfl⟩
    exact ⟨he, rfl⟩
  · rintro ⟨he, rfl⟩
    exact ⟨e, he, rfl, rfl⟩

theorem sum_edgeCounts (m : Mesh α) : (m.edgeCounts.map Prod.snd).sum = 3 * m.triangleCount := by
  rw [edgeCounts, ((toList_tally_perm m.edges).map Prod.snd).sum_eq, List.map_map, ← length_edges]
  exact List.sum_map_count_dedup_eq_length m.edges

theorem isManifold_iff : m.isManifold = true ↔ ∀ e ∈ m.edges, m.edges.count e ≤ 2 := by
  unfold isManifold edgeCounts
  rw [all_tally_iff]
  simp only [decide_eq_true_eq]

/-! ## Boundary edges -/

theorem mem_boundaryEdges_iff {e : Edge} : e ∈ m.boundaryEdges ↔ m.edges.count e = 1 := by
  have hmem : e ∈ m.boundaryEdges ↔ (e, 1) ∈ m.edgeCounts := by
    simp [boundaryEdges]
  rw [hmem, mem_edgeCounts_iff]
  constructor
  · exact fun h => h.2.symm
  · intro h
    exact ⟨List.count_pos_iff.mp (by omega), h.symm⟩

theorem pairwise_boundaryEdges (m : Mesh α) : m.boundaryEdges.Pairwise Edge.Before := by
  rw [boundaryEdges, List.pairwise_map]
  apply List.Pairwise.filter
  exact Std.TreeMap.ordered_keys_toList.imp Edge.before_of_compare

theorem length_boundaryEdges (m : Mesh α) : m.boundaryEdges.length = m.edgeReport.boundaryEdgeCount := by
  rw [boundaryEdges, List.length_map, ← List.countP_eq_length_filter]
  rfl

theorem boundaryEdges_eq_nil_iff : m.boundaryEdges = [] ↔ ∀ e ∈ m.edges, m.edges.count e ≠ 1 := by
  rw [List.eq_nil_iff_forall_not_mem]
  simp only [mem_boundaryEdges_iff]
  constructor
  · exact fun h e _ => h e
  · intro h e hcount
    exact h e (List.count_pos_iff.mp (by omega)) hcount

theorem isClosed_iff_isManifold : m.isClosed = true ↔ m.isManifold = true ∧ m.boundaryEdges = [] := by
  rw [isClosed_iff, isManifold_iff, boundaryEdges_eq_nil_iff, ← forall₂_and]
  refine forall₂_congr fun e he => ?_
  have hpos : 0 < m.edges.count e := List.count_pos_iff.mpr he
  omega

/-! ## Both directions -/

/-- An edge that is passed backward is one of the edges. Its own count keeps it to once. -/
theorem hasConsistentWinding_iff_once :
    m.hasConsistentWinding = true ↔ ∀ e ∈ m.directedEdges, e.1 ≠ e.2 → m.directedEdges.count e = 1 := by
  rw [hasConsistentWinding_iff]
  refine ⟨fun h e he hne => (h e he hne).1, fun h e he hne => ⟨h e he hne, ?_⟩⟩
  by_cases hback : e.swap ∈ m.directedEdges
  · exact (h e.swap hback hne.symm).le
  · simp [List.count_eq_zero.mpr hback]

def PlainTriangles (m : Mesh α) : Prop := ∀ t ∈ m.triangles, t.repeatsCorner = false

theorem PlainTriangles.ne {e : Nat × Nat} (h : m.PlainTriangles) (he : e ∈ m.directedEdges) : e.1 ≠ e.2 := by
  obtain ⟨t, ht, he⟩ := List.mem_flatMap.mp he
  have hcorners := h t (Array.mem_toList_iff.mp ht)
  simp only [Triangle.repeatsCorner, Bool.or_eq_false_iff, beq_eq_false_iff_ne] at hcorners
  obtain ⟨⟨hab, hbc⟩, hac⟩ := hcorners
  simp only [Triangle.directedEdges, List.mem_cons, List.not_mem_nil, or_false] at he
  rcases he with rfl | rfl | rfl
  · exact hab
  · exact hbc
  · exact hac.symm

theorem count_edges {e : Nat × Nat} (h : e.1 ≠ e.2) :
    m.edges.count (Edge.between e.1 e.2) = m.directedEdges.count e + m.directedEdges.count e.swap :=
  count_between h m.directedEdges

theorem mem_edges_iff {f : Edge} : f ∈ m.edges ↔ ∃ e ∈ m.directedEdges, Edge.between e.1 e.2 = f := List.mem_map

theorem PlainTriangles.closed_and_consistent_iff (h : m.PlainTriangles) :
    m.isClosed = true ∧ m.hasConsistentWinding = true ↔
      ∀ e ∈ m.directedEdges, m.directedEdges.count e = 1 ∧ m.directedEdges.count e.swap = 1 := by
  rw [isClosed_iff, hasConsistentWinding_iff_once]
  constructor
  · rintro ⟨hclosed, hwinding⟩ e he
    have hne := h.ne he
    have hforward := hwinding e he hne
    have htotal := hclosed _ (mem_edges_iff.mpr ⟨e, he, rfl⟩)
    rw [count_edges hne] at htotal
    omega
  · intro hpassed
    refine ⟨fun f hf => ?_, fun e he _ => (hpassed e he).1⟩
    obtain ⟨e, he, rfl⟩ := mem_edges_iff.mp hf
    obtain ⟨hforward, hback⟩ := hpassed e he
    rw [count_edges (h.ne he), hforward, hback]

/-! ## All checks -/

/-- Each edge is counted as often as a triangle has it, three times for each triangle in all. A mesh is closed if it is
manifold and has no boundary. The boundary is in order and has each edge that lies on one triangle, as many as are
reported. Without triangles that repeat a corner, a closed mesh with consistent winding passes each edge once in either
direction. -/
theorem edge_checks_agree (m : Mesh α) :
    (∀ e count, (e, count) ∈ m.edgeCounts ↔ e ∈ m.edges ∧ count = m.edges.count e) ∧
    (m.edgeCounts.map Prod.snd).sum = 3 * m.triangleCount ∧
    (m.isClosed = true ↔ m.isManifold = true ∧ m.boundaryEdges = []) ∧
    m.boundaryEdges.Pairwise Edge.Before ∧
    (∀ e, e ∈ m.boundaryEdges ↔ m.edges.count e = 1) ∧
    m.boundaryEdges.length = m.edgeReport.boundaryEdgeCount ∧
    (m.PlainTriangles → (m.isClosed = true ∧ m.hasConsistentWinding = true ↔
      ∀ e ∈ m.directedEdges, m.directedEdges.count e = 1 ∧ m.directedEdges.count e.swap = 1)) :=
  ⟨fun _ _ => mem_edgeCounts_iff, sum_edgeCounts m, isClosed_iff_isManifold, pairwise_boundaryEdges m,
    fun _ => mem_boundaryEdges_iff, length_boundaryEdges m, PlainTriangles.closed_and_consistent_iff⟩

theorem tetrahedron_checks :
    let m : Mesh Float := ⟨#[⟨0, 0, 0⟩, ⟨1, 0, 0⟩, ⟨0, 1, 0⟩, ⟨0, 0, 1⟩],
      #[⟨0, 2, 1⟩, ⟨0, 1, 3⟩, ⟨1, 2, 3⟩, ⟨2, 0, 3⟩], none⟩
    m.PlainTriangles ∧ m.isClosed = true ∧ m.hasConsistentWinding = true ∧ m.isManifold = true ∧
      m.boundaryEdges = [] := by
  intro m
  have hplain : m.PlainTriangles := by
    unfold PlainTriangles
    decide
  obtain ⟨-, -, hclosed, -, -, -, hpassed⟩ := edge_checks_agree m
  obtain ⟨hwhole, hwinding⟩ := (hpassed hplain).mpr (by decide)
  exact ⟨hplain, hwhole, hwinding, hclosed.mp hwhole⟩

end Mesh

end SolidScript

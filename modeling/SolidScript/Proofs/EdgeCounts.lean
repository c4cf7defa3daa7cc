import Mathlib
import SolidScript.Mesh.Topology

/-!
# Edges that are passed in both directions

If the directed edges of a mesh are some lines and the same lines backward, each of them once, then each edge lies on
two triangles that pass it in different directions.
-/

namespace SolidScript

namespace Edge

theorem between_comm (a b : Nat) : between a b = between b a := by
  unfold between
  split <;> split <;> first | rfl | (congr 1 <;> omega)

theorem between_eq_iff {a b c d : Nat} : between a b = between c d ↔ (a = c ∧ b = d) ∨ (a = d ∧ b = c) := by
  unfold between
  split <;> split <;> simp only [Edge.mk.injEq] <;> omega

theorem compare_eq_iff (e f : Edge) : compare e f = .eq ↔ e = f := by
  obtain ⟨a, b⟩ := e
  obtain ⟨c, d⟩ := f
  simp [compare, compareLex_eq_eq, compareOn]

end Edge

instance lawfulEqCmp_ends :
    Std.LawfulEqCmp (compareLex (compareOn (Prod.fst (α := Nat) (β := Nat))) (compareOn Prod.snd)) where
  compare_self := by simp [compareLex_eq_eq, compareOn]
  eq_of_compare h := by
    simp only [compareLex_eq_eq, compareOn, Std.compare_eq_iff_eq] at h
    exact Prod.ext h.1 h.2

instance transCmp_edge : Std.TransCmp Edge.compare := inferInstanceAs (Std.TransCmp (compareLex _ _))

instance lawfulEqCmp_edge : Std.LawfulEqCmp Edge.compare where
  compare_self := (Edge.compare_eq_iff _ _).mpr rfl
  eq_of_compare := (Edge.compare_eq_iff _ _).mp

namespace Mesh

/-! ## Counting members of a list -/

section Tally

variable {β : Type} [DecidableEq β] {cmp : β → β → Ordering} [Std.TransCmp cmp] [Std.LawfulEqCmp cmp]

omit [Std.LawfulEqCmp cmp] in
theorem getD_eq_count {counts : Std.TreeMap β Nat cmp} {items : List β} {b : β}
    (h : counts[b]? = if b ∈ items then some (items.count b) else none) : counts.getD b 0 = items.count b := by
  rw [Std.TreeMap.getD_eq_getD_getElem?, h]
  split
  · rfl
  · rename_i hb
    exact (List.count_eq_zero.mpr hb).symm

theorem getElem?_tally (items : List β) (b : β) :
    (tally cmp items)[b]? = if b ∈ items then some (items.count b) else none := by
  -- From the end of the list, since the last item is counted last.
  induction items using List.reverseRecOn generalizing b with
  | nil => simp [tally]
  | append_singleton rest c ih =>
    have hstep : tally cmp (rest ++ [c]) = (tally cmp rest).insert c ((tally cmp rest).getD c 0 + 1) := by
      unfold tally
      rw [List.foldl_append]
      rfl
    rw [hstep, Std.TreeMap.getElem?_insert, getD_eq_count (ih c), ih]
    by_cases hcb : c = b
    · subst hcb
      simp [Std.ReflCmp.compare_self]
    · have hcmp : cmp c b ≠ .eq := fun h => hcb (Std.LawfulEqCmp.eq_of_compare h)
      simp [hcmp, hcb, Ne.symm hcb, List.count_append]

theorem toList_tally_perm (items : List β) :
    (tally cmp items).toList.Perm (items.dedup.map fun b => (b, items.count b)) := by
  have hkeys : ((tally cmp items).toList.map Prod.fst).Nodup := by
    rw [Std.TreeMap.map_fst_toList_eq_keys]
    exact Std.TreeMap.nodup_keys
  have hdedup : (items.dedup.map fun b => (b, items.count b)).Nodup :=
    (List.nodup_dedup items).map fun b c h => congrArg Prod.fst h
  -- Neither list repeats anything, so that only their members are compared.
  rw [List.perm_ext_iff_of_nodup hkeys.of_map hdedup]
  rintro ⟨b, count⟩
  rw [Std.TreeMap.mem_toList_iff_getElem?_eq_some, getElem?_tally]
  simp only [List.mem_map, List.mem_dedup, Prod.mk.injEq]
  split
  · rename_i hb
    constructor
    · rintro ⟨⟩
      exact ⟨b, hb, rfl, rfl⟩
    · rintro ⟨_, -, rfl, rfl⟩
      rfl
  · rename_i hb
    constructor
    · rintro ⟨⟩
    · rintro ⟨_, hmem, rfl, -⟩
      exact absurd hmem hb

theorem getD_tally (items : List β) (b : β) : (tally cmp items).getD b 0 = items.count b :=
  getD_eq_count (getElem?_tally items b)

theorem all_tally_iff {items : List β} {p : β × Nat → Bool} :
    (tally cmp items).toList.all p = true ↔ ∀ b ∈ items, p (b, items.count b) = true := by
  rw [List.all_eq_true]
  constructor
  · intro h b hb
    refine h (b, items.count b) ((toList_tally_perm items).mem_iff.mpr ?_)
    exact List.mem_map.mpr ⟨b, List.mem_dedup.mpr hb, rfl⟩
  · rintro h entry hentry
    obtain ⟨b, hb, rfl⟩ := List.mem_map.mp ((toList_tally_perm items).mem_iff.mp hentry)
    exact h b (List.mem_dedup.mp hb)

end Tally

variable {α : Type} {m : Mesh α}

theorem length_directedEdges (m : Mesh α) : m.directedEdges.length = 3 * m.triangleCount := by
  simp [directedEdges, triangleCount, List.length_flatMap, Triangle.directedEdges, Nat.mul_comm]

theorem isClosed_iff : m.isClosed = true ↔ ∀ e ∈ m.edges, m.edges.count e = 2 := by
  unfold isClosed edgeCounts
  rw [all_tally_iff]
  simp only [beq_iff_eq]

theorem hasConsistentWinding_iff :
    m.hasConsistentWinding = true ↔ ∀ e ∈ m.directedEdges, e.1 ≠ e.2 →
      m.directedEdges.count e = 1 ∧ m.directedEdges.count e.swap ≤ 1 := by
  unfold hasConsistentWinding windingCounts
  rw [all_tally_iff]
  simp only [getD_tally, List.mem_filter, bne_iff_ne, and_imp, Bool.and_eq_true, beq_iff_eq, decide_eq_true_eq]
  refine forall₃_congr fun e _ hne => ?_
  -- Pairs are compared as such there, and by their parts here.
  rw [lawful_beq_subsingleton instBEqOfDecidableEq instBEqProd, List.count_filter (by simpa using hne),
    List.count_filter (by simpa using hne.symm)]

/-! ## Both directions -/

/-- The directed edges are these lines and the same lines backward, each of them once. -/
structure TwoSided (m : Mesh α) (lines : Multiset (Nat × Nat)) : Prop where
  edges : (m.directedEdges : Multiset (Nat × Nat)) = lines + lines.map Prod.swap
  nodup : (lines + lines.map Prod.swap).Nodup

namespace TwoSided

variable {lines : Multiset (Nat × Nat)}

theorem nodup_directedEdges (h : m.TwoSided lines) : m.directedEdges.Nodup := by
  rw [← Multiset.coe_nodup, h.edges]
  exact h.nodup

theorem swap_mem (h : m.TwoSided lines) {e : Nat × Nat} (he : e ∈ m.directedEdges) : e.swap ∈ m.directedEdges := by
  rw [← Multiset.mem_coe, h.edges, Multiset.mem_add, Multiset.mem_map] at he ⊢
  rcases he with he | ⟨e', he', rfl⟩
  · exact Or.inr ⟨e, he, rfl⟩
  · exact Or.inl (by simpa using he')

theorem count_eq_one (h : m.TwoSided lines) {e : Nat × Nat} (he : e ∈ m.directedEdges) :
    m.directedEdges.count e = 1 ∧ m.directedEdges.count e.swap = 1 :=
  ⟨List.count_eq_one_of_mem h.nodup_directedEdges he, List.count_eq_one_of_mem h.nodup_directedEdges (h.swap_mem he)⟩

theorem edges_eq (h : m.TwoSided lines) :
    (m.edges : Multiset Edge) =
      lines.map (fun e => Edge.between e.1 e.2) + lines.map fun e => Edge.between e.1 e.2 := by
  have hedges : (m.edges : Multiset Edge) =
      (m.directedEdges : Multiset (Nat × Nat)).map fun e => Edge.between e.1 e.2 := rfl
  rw [hedges, h.edges, Multiset.map_add, Multiset.map_map]
  congr 1
  exact Multiset.map_congr rfl fun e _ => Edge.between_comm e.2 e.1

theorem nodup_lines (h : m.TwoSided lines) : (lines.map fun e => Edge.between e.1 e.2).Nodup := by
  obtain ⟨hlines, -, hdisjoint⟩ := Multiset.nodup_add.mp h.nodup
  refine Multiset.Nodup.map_on (fun e he f hf heq => ?_) hlines
  rcases Edge.between_eq_iff.mp heq with ⟨h1, h2⟩ | ⟨h1, h2⟩
  · exact Prod.ext h1 h2
  · have hswap : e ∈ lines.map Prod.swap := Multiset.mem_map.mpr ⟨f, hf, (Prod.ext h1 h2 : e = f.swap).symm⟩
    exact absurd hswap (Multiset.disjoint_left.mp hdisjoint he)

theorem isClosed (h : m.TwoSided lines) : m.isClosed = true := by
  refine isClosed_iff.mpr fun e he => ?_
  rw [← Multiset.coe_count, h.edges_eq, Multiset.count_add]
  rw [← Multiset.mem_coe, h.edges_eq, Multiset.mem_add, or_self] at he
  rw [Multiset.count_eq_one_of_mem h.nodup_lines he]

theorem hasConsistentWinding (h : m.TwoSided lines) : m.hasConsistentWinding = true := by
  refine hasConsistentWinding_iff.mpr fun e he _ => ?_
  obtain ⟨hforward, hback⟩ := h.count_eq_one he
  exact ⟨hforward, hback.le⟩

theorem length_edgeCounts (h : m.TwoSided lines) : m.edgeCounts.length = lines.card := by
  have hdedup : (m.edges : Multiset Edge).dedup = lines.map fun e => Edge.between e.1 e.2 := by
    refine (Multiset.nodup_dedup _).ext h.nodup_lines |>.mpr fun e => ?_
    rw [Multiset.mem_dedup, h.edges_eq, Multiset.mem_add, or_self]
  have hlength : m.edgeCounts.length = m.edges.dedup.length := by
    unfold edgeCounts
    rw [(toList_tally_perm m.edges).length_eq, List.length_map]
  rw [hlength, ← Multiset.coe_card, ← Multiset.coe_dedup, hdedup, Multiset.card_map]

theorem three_mul_triangleCount (h : m.TwoSided lines) : 3 * m.triangleCount = 2 * lines.card := by
  have hcard := congrArg Multiset.card h.edges
  rw [Multiset.coe_card, Multiset.card_add, Multiset.card_map, ← Nat.two_mul] at hcard
  rw [← hcard, length_directedEdges]

end TwoSided

end Mesh

end SolidScript

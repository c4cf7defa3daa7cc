import SolidScript.Mesh.Weld
import SolidScript.Proofs.MeshChecks

/-!
# Welding by cells

Vertices are welded when they lie in the same cell of the grid. The first vertex of each cell stays and takes the place
of all others in it, so that welding once more finds nothing to do.
-/

namespace SolidScript

open Scalar

attribute [ext] Mesh

namespace Mesh

/-! ## First places -/

section Firsts

variable {γ : Type} {key : Nat → γ} {i j n : Nat}

def IsFirst (key : Nat → γ) (i : Nat) : Prop := ∀ j < i, key j ≠ key i

theorem exists_isFirst (key : Nat → γ) (i : Nat) : ∃ f ≤ i, IsFirst key f ∧ key f = key i := by
  induction i using Nat.strong_induction_on with
  | _ i ih =>
    by_cases hfirst : IsFirst key i
    · exact ⟨i, le_rfl, hfirst, rfl⟩
    · unfold IsFirst at hfirst
      push Not at hfirst
      obtain ⟨j, hj, hkey⟩ := hfirst
      obtain ⟨f, hf, hisFirst, hsame⟩ := ih j hj
      exact ⟨f, by omega, hisFirst, hsame.trans hkey⟩

theorem IsFirst.eq (hi : IsFirst key i) (hj : IsFirst key j) (hkey : key i = key j) : i = j := by
  rcases lt_trichotomy i j with hlt | heq | hgt
  · exact absurd hkey (hj i hlt)
  · exact heq
  · exact absurd hkey.symm (hi j hgt)

variable [DecidableEq γ]

instance : DecidablePred (IsFirst key) := fun i => inferInstanceAs (Decidable (∀ j < i, key j ≠ key i))

/-- The places below `n` where a key comes up first, in ascending order. -/
def firsts (key : Nat → γ) (n : Nat) : List Nat := (List.range n).filter fun i => IsFirst key i

theorem mem_firsts : i ∈ firsts key n ↔ i < n ∧ IsFirst key i := by simp [firsts]

theorem firsts_succ (key : Nat → γ) (n : Nat) :
    firsts key (n + 1) = firsts key n ++ if IsFirst key n then [n] else [] := by
  unfold firsts
  rw [List.range_succ, List.filter_append, List.filter_singleton]
  by_cases h : IsFirst key n <;> simp [h]

theorem getElem?_firsts_succ (h : IsFirst key n) {k : Nat} :
    (firsts key (n + 1))[k]? = some i ↔ (firsts key n)[k]? = some i ∨ k = (firsts key n).length ∧ i = n := by
  rw [firsts_succ, if_pos h]
  rcases lt_trichotomy k (firsts key n).length with hlt | rfl | hgt
  · rw [List.getElem?_append_left hlt]
    simp [hlt.ne]
  · rw [List.getElem?_concat_length, List.getElem?_eq_none le_rfl]
    simp [eq_comm]
  · rw [List.getElem?_eq_none (by simpa using hgt), List.getElem?_eq_none hgt.le]
    simp [hgt.ne']

theorem nodup_firsts (key : Nat → γ) (n : Nat) : (firsts key n).Nodup := List.nodup_range.filter _

theorem firsts_of_injective (h : ∀ i < n, ∀ j < n, key i = key j → i = j) : firsts key n = List.range n := by
  unfold firsts
  rw [List.filter_eq_self]
  intro i hi
  rw [List.mem_range] at hi
  exact decide_eq_true fun j hj hkey => hj.ne (h j (hj.trans hi) i hi hkey)

end Firsts

/-! ## One vertex after another -/

variable {α : Type} [Scalar α]

def cellAt (perUnit : α) (point : Nat → Vec3 α) (i : Nat) : Int × Int × Int := cell perUnit (point i)

/-- What is known after the first vertices of a sequence: the first vertex of each cell is kept, and each vertex
has the place of one in its cell. -/
structure Welding.Follows (perUnit : α) (point : Nat → Vec3 α) (seen : Nat) (w : Welding α) : Prop where
  kept : w.kept = ((firsts (cellAt perUnit point) seen).map point).toArray
  size : w.places.size = seen
  places : ∀ i < seen, ∃ k f, w.places[i]? = some k ∧ (firsts (cellAt perUnit point) seen)[k]? = some f ∧
    cellAt perUnit point f = cellAt perUnit point i
  found : ∀ (c : Int × Int × Int) k, w.found[c]? = some k ↔
    ∃ f, (firsts (cellAt perUnit point) seen)[k]? = some f ∧ cellAt perUnit point f = c

namespace Welding

variable {perUnit : α} {point : Nat → Vec3 α} {seen : Nat} {w : Welding α}

theorem follows_start (perUnit : α) (point : Nat → Vec3 α) : (start : Welding α).Follows perUnit point 0 where
  kept := rfl
  size := rfl
  places _ hi := absurd hi (Nat.not_lt_zero _)
  found c k := by simp [start, firsts]

theorem Follows.again (h : w.Follows perUnit point seen) {k : Nat}
    (hk : w.found[cellAt perUnit point seen]? = some k) :
    ({ w with places := w.places.push k } : Welding α).Follows perUnit point (seen + 1) := by
  obtain ⟨f, hf, hcell⟩ := (h.found _ k).mp hk
  have hlt : f < seen := (mem_firsts.mp (List.mem_of_getElem? hf)).1
  have hnot : ¬ IsFirst (cellAt perUnit point) seen := fun hfirst => hfirst f hlt hcell
  have hsame : firsts (cellAt perUnit point) (seen + 1) = firsts (cellAt perUnit point) seen := by
    rw [firsts_succ, if_neg hnot, List.append_nil]
  refine ⟨by rw [hsame]; exact h.kept, by simp [h.size], fun i hi => ?_, by rw [hsame]; exact h.found⟩
  rw [hsame, Array.getElem?_push, h.size]
  split
  · rename_i heq
    exact ⟨k, f, rfl, hf, heq ▸ hcell⟩
  · exact h.places i (by omega)

theorem Follows.isFirst_of_none (h : w.Follows perUnit point seen)
    (hnone : w.found[cellAt perUnit point seen]? = none) : IsFirst (cellAt perUnit point) seen := by
  intro j hj hcell
  obtain ⟨f, hf, hisFirst, hsame⟩ := exists_isFirst (cellAt perUnit point) j
  obtain ⟨k, hk⟩ := List.mem_iff_getElem?.mp (mem_firsts.mpr ⟨hf.trans_lt hj, hisFirst⟩)
  have hfound := (h.found _ k).mpr ⟨f, hk, hsame.trans hcell⟩
  rw [hnone] at hfound
  cases hfound

theorem Follows.size_kept (h : w.Follows perUnit point seen) :
    w.kept.size = (firsts (cellAt perUnit point) seen).length := by
  rw [h.kept]
  simp

theorem Follows.fresh (h : w.Follows perUnit point seen) (hnone : w.found[cellAt perUnit point seen]? = none) :
    ({ kept := w.kept.push (point seen), places := w.places.push w.kept.size,
       found := w.found.insert (cellAt perUnit point seen) w.kept.size } : Welding α).Follows
      perUnit point (seen + 1) := by
  have hfirst := h.isFirst_of_none hnone
  have hsize := h.size_kept
  refine ⟨?_, by simp [h.size], fun i hi => ?_, fun c k => ?_⟩
  · simp [firsts_succ, if_pos hfirst, h.kept]
  · rw [Array.getElem?_push, h.size]
    split
    · rename_i heq
      exact ⟨_, seen, rfl, (getElem?_firsts_succ hfirst).mpr (.inr ⟨hsize, rfl⟩), by rw [heq]⟩
    · obtain ⟨k, f, hk, hf, hcell⟩ := h.places i (by omega)
      exact ⟨k, f, hk, (getElem?_firsts_succ hfirst).mpr (.inl hf), hcell⟩
  · rw [Std.HashMap.getElem?_insert]
    simp only [getElem?_firsts_succ hfirst, beq_iff_eq]
    split
    · rename_i hc
      constructor
      · rintro ⟨⟩
        exact ⟨seen, .inr ⟨hsize, rfl⟩, hc⟩
      · rintro ⟨f, hf | ⟨rfl, rfl⟩, hcell⟩
        · -- Another vertex of this cell would have been found.
          have hfound := (h.found _ k).mpr ⟨f, hf, hcell.trans hc.symm⟩
          rw [hnone] at hfound
          cases hfound
        · rw [hsize]
    · rename_i hc
      rw [h.found]
      constructor
      · rintro ⟨f, hf, hcell⟩
        exact ⟨f, .inl hf, hcell⟩
      · rintro ⟨f, hf | ⟨rfl, rfl⟩, hcell⟩
        · exact ⟨f, hf, hcell⟩
        · exact absurd hcell hc

theorem Follows.add (h : w.Follows perUnit point seen) :
    (w.add perUnit (point seen)).Follows perUnit point (seen + 1) := by
  unfold Welding.add
  dsimp only
  split
  · rename_i hk
    exact h.again hk
  · rename_i hnone
    exact h.fresh hnone

end Welding

/-! ## All vertices of a mesh -/

def cellOf (m : Mesh α) (epsilon : α) (i : Nat) : Int × Int × Int := cellAt (cellsPerUnit epsilon) m.point i

/-- Where a vertex is after welding. -/
def weldPlace (m : Mesh α) (epsilon : α) (i : Nat) : Nat :=
  (m.vertices.foldl (Welding.add (cellsPerUnit epsilon)) Welding.start).places.getD i 0

variable {m : Mesh α} {epsilon : α} {i j : Nat}

theorem follows_foldl (m : Mesh α) (perUnit : α) :
    (m.vertices.foldl (Welding.add perUnit) Welding.start).Follows perUnit m.point m.vertexCount := by
  refine Array.foldl_induction (fun i (w : Welding α) => w.Follows perUnit m.point i)
    (Welding.follows_start perUnit m.point) fun i w hw => ?_
  have hpoint : m.point i = m.vertices[i] := by simp [point]
  rw [← hpoint]
  exact hw.add

theorem exists_weldPlace (epsilon : α) (hi : i < m.vertexCount) :
    ∃ f, (firsts (m.cellOf epsilon) m.vertexCount)[m.weldPlace epsilon i]? = some f ∧
      m.cellOf epsilon f = m.cellOf epsilon i := by
  obtain ⟨k, f, hk, hf, hcell⟩ := (follows_foldl m (cellsPerUnit epsilon)).places i hi
  refine ⟨f, ?_, hcell⟩
  unfold weldPlace
  rw [Array.getD_eq_getD_getElem?, hk]
  exact hf

/-- Vertices become one just when they are in one cell. -/
theorem weldPlace_eq_iff (hi : i < m.vertexCount) (hj : j < m.vertexCount) :
    m.weldPlace epsilon i = m.weldPlace epsilon j ↔ m.cellOf epsilon i = m.cellOf epsilon j := by
  obtain ⟨f, hf, hcell⟩ := exists_weldPlace epsilon hi
  obtain ⟨g, hg, hcell'⟩ := exists_weldPlace epsilon hj
  constructor
  · intro hplace
    rw [hplace, hg] at hf
    cases hf
    exact hcell.symm.trans hcell'
  · intro hsame
    have hfirst := (mem_firsts.mp (List.mem_of_getElem? hf)).2
    have hfirst' := (mem_firsts.mp (List.mem_of_getElem? hg)).2
    have hfg : f = g := hfirst.eq hfirst' (hcell.trans (hsame.trans hcell'.symm))
    rw [← hfg] at hg
    have hlt := (List.getElem?_eq_some_iff.mp hf).1
    exact (List.getElem?_inj hlt (nodup_firsts _ _)).mp (hf.trans hg.symm)

theorem weld_of_isEmpty (hempty : m.vertices.isEmpty = true) (epsilon : α) : m.weld epsilon = m := if_pos hempty

theorem vertices_weld (m : Mesh α) (epsilon : α) :
    (m.weld epsilon).vertices = ((firsts (m.cellOf epsilon) m.vertexCount).map m.point).toArray := by
  by_cases hempty : m.vertices.isEmpty = true
  · rw [weld_of_isEmpty hempty]
    simp [vertexCount, Array.isEmpty_iff.mp hempty, firsts]
  · unfold weld
    rw [if_neg hempty]
    dsimp only
    split <;> exact (follows_foldl m (cellsPerUnit epsilon)).kept

theorem vertexCount_weld (m : Mesh α) (epsilon : α) :
    (m.weld epsilon).vertexCount = (firsts (m.cellOf epsilon) m.vertexCount).length := by
  simp [vertexCount, vertices_weld]

theorem triangles_weld (hsome : ¬ m.vertices.isEmpty = true) (epsilon : α) :
    (m.weld epsilon).triangles = m.triangles.map (·.map (m.weldPlace epsilon)) := by
  unfold weld
  rw [if_neg hsome]
  dsimp only
  split <;> rfl

theorem Valid.triangles_weld (h : m.Valid) (epsilon : α) :
    (m.weld epsilon).triangles = m.triangles.map (·.map (m.weldPlace epsilon)) := by
  by_cases hempty : m.vertices.isEmpty = true
  · have hnone : m.triangles = #[] := by
      refine Array.eq_empty_iff_forall_not_mem.mpr fun t ht => ?_
      have hlt := h.inRange t ht
      rw [vertexCount, Array.isEmpty_iff.mp hempty] at hlt
      exact absurd hlt (Nat.not_lt_zero _)
    rw [weld_of_isEmpty hempty, hnone, Array.map_empty]
  · exact Mesh.triangles_weld hempty epsilon

theorem normals_weld (hsome : ¬ m.vertices.isEmpty = true) (epsilon : α) :
    (m.weld epsilon).normals = if m.normals.isSome then (m.weld epsilon).recomputeNormals.normals else none := by
  unfold weld
  rw [if_neg hsome]
  dsimp only
  by_cases hnormals : m.normals.isSome = true
  · simp only [hnormals, if_true]
    rfl
  · simp only [hnormals, Bool.false_eq_true, if_false]

theorem point_weld {k f : Nat} (hf : (firsts (m.cellOf epsilon) m.vertexCount)[k]? = some f) :
    (m.weld epsilon).point k = m.point f := by
  unfold point
  rw [Array.getD_eq_getD_getElem?, vertices_weld, List.getElem?_toArray, List.getElem?_map, hf]
  rfl

theorem cellOf_weldPlace (epsilon : α) (hi : i < m.vertexCount) :
    m.weldPlace epsilon i < (m.weld epsilon).vertexCount ∧
      (m.weld epsilon).cellOf epsilon (m.weldPlace epsilon i) = m.cellOf epsilon i := by
  obtain ⟨f, hf, hcell⟩ := exists_weldPlace epsilon hi
  constructor
  · rw [vertexCount_weld]
    exact (List.getElem?_eq_some_iff.mp hf).1
  · rw [← hcell]
    exact congrArg (cell (cellsPerUnit epsilon)) (point_weld hf)

/-! ## Welding once more -/

theorem cellOf_weld_injective (hi : i < (m.weld epsilon).vertexCount) (hj : j < (m.weld epsilon).vertexCount)
    (hcell : (m.weld epsilon).cellOf epsilon i = (m.weld epsilon).cellOf epsilon j) : i = j := by
  rw [vertexCount_weld] at hi hj
  have hcellOf (k : Nat) (hk : k < (firsts (m.cellOf epsilon) m.vertexCount).length) :
      (m.weld epsilon).cellOf epsilon k = m.cellOf epsilon (firsts (m.cellOf epsilon) m.vertexCount)[k] :=
    congrArg (cell (cellsPerUnit epsilon)) (point_weld (List.getElem?_eq_getElem hk))
  rw [hcellOf i hi, hcellOf j hj] at hcell
  have hfirst := (mem_firsts.mp (List.getElem_mem hi)).2
  have hfirst' := (mem_firsts.mp (List.getElem_mem hj)).2
  exact (List.Nodup.getElem_inj_iff (nodup_firsts _ _)).mp (hfirst.eq hfirst' hcell)

theorem vertices_weld_weld (m : Mesh α) (epsilon : α) :
    ((m.weld epsilon).weld epsilon).vertices = (m.weld epsilon).vertices := by
  rw [vertices_weld (m.weld epsilon), firsts_of_injective fun i hi j hj => cellOf_weld_injective hi hj]
  apply Array.ext_getElem?
  intro k
  by_cases hk : k < (m.weld epsilon).vertexCount
  · have hk' : k < (m.weld epsilon).vertices.size := hk
    simp [hk, hk', point]
  · have hk' : ¬ k < (m.weld epsilon).vertices.size := hk
    simp [hk, hk']

theorem weldPlace_weld (hi : i < (m.weld epsilon).vertexCount) : (m.weld epsilon).weldPlace epsilon i = i := by
  obtain ⟨hlt, hcell⟩ := cellOf_weldPlace epsilon hi
  have hvertices := vertices_weld_weld m epsilon
  have hcellOf : ((m.weld epsilon).weld epsilon).cellOf epsilon = (m.weld epsilon).cellOf epsilon := by
    unfold cellOf point
    rw [hvertices]
  rw [vertexCount, hvertices] at hlt
  rw [hcellOf] at hcell
  exact cellOf_weld_injective hlt hi hcell

theorem mem_toList_map {t : Triangle} {f : Nat → Nat} : i ∈ (t.map f).toList ↔ ∃ j ∈ t.toList, f j = i := by
  simp [Triangle.map, Triangle.toList, eq_comm]

theorem map_of_fixed {t : Triangle} {f : Nat → Nat} (h : ∀ i ∈ t.toList, f i = i) : t.map f = t := by
  simp only [Triangle.toList, List.forall_mem_cons] at h
  simp only [Triangle.map, h]

theorem triangles_weld_weld (h : m.Valid) (hsome : ¬ m.vertices.isEmpty = true)
    (hsome' : ¬ (m.weld epsilon).vertices.isEmpty = true) :
    ((m.weld epsilon).weld epsilon).triangles = (m.weld epsilon).triangles := by
  rw [triangles_weld hsome']
  refine (Array.map_congr_left fun t ht => ?_).trans (Array.map_id _)
  rw [triangles_weld hsome] at ht
  obtain ⟨t', ht', rfl⟩ := Array.mem_map.mp ht
  refine map_of_fixed fun i hi => ?_
  obtain ⟨j, hj, rfl⟩ := mem_toList_map.mp hi
  have hlt : j < m.vertexCount := (Triangle.top_lt_iff t' _).mp (h.inRange t' ht') j hj
  exact weldPlace_weld (cellOf_weldPlace epsilon hlt).1

theorem recomputeNormals_congr {n : Mesh α} (hvertices : m.vertices = n.vertices) (htriangles : m.triangles = n.triangles) :
    m.recomputeNormals = n.recomputeNormals := by
  obtain ⟨vertices, triangles, normals⟩ := m
  obtain ⟨vertices', triangles', normals'⟩ := n
  cases hvertices
  cases htriangles
  rfl

theorem weld_weld (h : m.Valid) (epsilon : α) : (m.weld epsilon).weld epsilon = m.weld epsilon := by
  by_cases hempty : m.vertices.isEmpty = true
  · rw [weld_of_isEmpty hempty, weld_of_isEmpty hempty]
  · by_cases hempty' : (m.weld epsilon).vertices.isEmpty = true
    · exact weld_of_isEmpty hempty' epsilon
    · have hvertices := vertices_weld_weld m epsilon
      have htriangles := triangles_weld_weld h hempty hempty'
      have hnormals : ((m.weld epsilon).weld epsilon).normals = (m.weld epsilon).normals := by
        rw [normals_weld hempty', recomputeNormals_congr hvertices htriangles, normals_weld hempty]
        split <;> rfl
      ext1
      · exact hvertices
      · exact htriangles
      · exact hnormals

/-! ## What welding does -/

/-- Welding keeps every triangle. It keeps the first vertex of each cell, in the order of the mesh, and counts the others.
Each corner of a triangle is in the same cell as before. A second time nothing changes. -/
theorem weld_keeps_first_of_each_cell (h : m.Valid) (epsilon : α) :
    let r := m.weld epsilon
    r.triangleCount = m.triangleCount ∧
    m.weldCount epsilon + r.vertexCount = m.vertexCount ∧
    r.vertices = ((firsts (m.cellOf epsilon) m.vertexCount).map m.point).toArray ∧
    (∀ (k : Nat) (t : Triangle), m.triangles[k]? = some t → ∃ t', r.triangles[k]? = some t' ∧
      List.Forall₂ (fun i j => j < r.vertexCount ∧ r.cellOf epsilon j = m.cellOf epsilon i) t.toList t'.toList) ∧
    r.weldCount epsilon = 0 ∧ r.weld epsilon = r := by
  intro r
  have hagain : r.weld epsilon = r := weld_weld h epsilon
  have hcount : r.vertexCount ≤ m.vertexCount := by
    rw [vertexCount_weld]
    exact (List.length_filter_le _ _).trans_eq List.length_range
  have hcorner {t : Triangle} (ht : t ∈ m.triangles) {i : Nat} (hi : i ∈ t.toList) :
      m.weldPlace epsilon i < r.vertexCount ∧ r.cellOf epsilon (m.weldPlace epsilon i) = m.cellOf epsilon i :=
    cellOf_weldPlace epsilon ((Triangle.top_lt_iff t _).mp (h.inRange t ht) i hi)
  have htriangles := h.triangles_weld epsilon
  refine ⟨?_, Nat.sub_add_cancel hcount, vertices_weld m epsilon, fun k t ht => ?_, ?_, hagain⟩
  · unfold triangleCount
    rw [htriangles, Array.size_map]
  · refine ⟨t.map (m.weldPlace epsilon), ?_, ?_⟩
    · rw [htriangles, Array.getElem?_map, ht]
      rfl
    · show List.Forall₂ _ t.toList (t.toList.map (m.weldPlace epsilon))
      rw [List.forall₂_map_right_iff, List.forall₂_same]
      exact fun i hi => hcorner (Array.mem_of_getElem? ht) hi
  · unfold weldCount
    rw [hagain, Nat.sub_self]

/-- A square of two triangles that have two corners in common, each with vertices of its own. -/
def splitSquare : Mesh Float :=
  ⟨#[⟨0, 0, 0⟩, ⟨1, 0, 0⟩, ⟨1, 1, 0⟩, ⟨1, 1, 0⟩, ⟨0, 1, 0⟩, ⟨0, 0, 0⟩], #[⟨0, 1, 2⟩, ⟨3, 4, 5⟩], none⟩

theorem splitSquare_welded :
    splitSquare.Valid ∧ (splitSquare.weld 1e-9).triangleCount = 2 ∧ splitSquare.weldCount 1e-9 = 2 ∧
      (splitSquare.weld 1e-9).weld 1e-9 = splitSquare.weld 1e-9 := by
  have hvalid : splitSquare.Valid := ⟨by decide, nofun⟩
  obtain ⟨htriangles, hcount, hvertices, -, -, hagain⟩ := weld_keeps_first_of_each_cell hvalid (1e-9 : Float)
  have hfirsts : (firsts (splitSquare.cellOf 1e-9) splitSquare.vertexCount).length = 4 := by decide +kernel
  have hkept : (splitSquare.weld 1e-9).vertexCount = 4 := by
    rw [vertexCount, hvertices, List.size_toArray, List.length_map, hfirsts]
  rw [hkept] at hcount
  exact ⟨hvalid, htriangles, Nat.add_right_cancel hcount, hagain⟩

end Mesh

end SolidScript
